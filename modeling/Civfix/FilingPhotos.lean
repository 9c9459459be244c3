import Mathlib.Algebra.GroupWithZero.Nat
import Mathlib.Data.Finset.Image

/-! # The photos of a filing's mail

A try of `filing.email` attaches photos while the message fits its budget, and the packet links the media that are not
attached. The text of a packet whose mail failed is kept, and a later try sends it again with attachments that the later
try has picked. -/
namespace Civfix.FilingMail

abbrev MediaId := ℕ
abbrev Key := ℕ
abbrev Bytes := List UInt8

inductive MediaKind where
  | image
  | video
  deriving DecidableEq

structure MediaRecord where
  id : MediaId
  kind : MediaKind
  r2Key : Key

/-- `photo` is the media item that the content was read from. -/
structure OutboundAttachment where
  filename : String
  contentType : String
  content : Bytes
  photo : MediaId
  deriving DecidableEq

structure ReportPacket where
  subject : String
  text : String
  html : String
  deriving DecidableEq

structure FilingEmailContent where
  packet : ReportPacket
  attachments : List OutboundAttachment

def EMAIL_PHOTOS_MAX : ℕ := 5
def PHOTO_CONTENT_TYPE : String := "image/jpeg"
def OUTBOUND_PAYLOAD_BUDGET_BYTES : ℕ := 8 * 1024 * 1024

/-- Four characters for three bytes, rounded up to a character. -/
def base64Bytes (rawBytes : ℕ) : ℕ := (rawBytes * 4 + 2) / 3

/-- The bytes of a text, of its markup and of the encoded attachments, from their lengths. -/
def messageBytes (text html : ℕ) (contents : List ℕ) : ℕ := text + html + (contents.map base64Bytes).sum

def outboundPayloadBytes (packet : ReportPacket) (attachments : List OutboundAttachment) : ℕ :=
  messageBytes packet.text.utf8ByteSize packet.html.utf8ByteSize (attachments.map fun a => a.content.length)

/-- The outcome of a storage read of each object in one try. -/
abbrev Reads := Key → Option Bytes

/-- `build` is `buildReportPacket` with these media attached. -/
abbrev Build := Finset MediaId → ReportPacket

structure Picked where
  attached : Finset MediaId
  attachments : List OutboundAttachment

def candidate (x : Picked) (photo : MediaRecord) (content : Bytes) : OutboundAttachment :=
  { filename := "photo-" ++ toString (x.attachments.length + 1) ++ ".jpg", contentType := PHOTO_CONTENT_TYPE, content
    photo := photo.id }

def pickPhoto (build : Build) (reads : Reads) (x : Picked) (photo : MediaRecord) : Picked :=
  match reads photo.r2Key with
  | none => x
  | some content =>
    if OUTBOUND_PAYLOAD_BUDGET_BYTES < outboundPayloadBytes (build (insert photo.id x.attached))
        (x.attachments ++ [candidate x photo content]) then x
    else ⟨insert photo.id x.attached, x.attachments ++ [candidate x photo content]⟩

/-- The first images, in report order. -/
def photosOf (media : List MediaRecord) : List MediaRecord :=
  (media.filter fun m => decide (m.kind = .image)).take EMAIL_PHOTOS_MAX

def pick (build : Build) (reads : Reads) (photos : List MediaRecord) : Picked :=
  photos.foldl (pickPhoto build reads) ⟨∅, []⟩

def pickFilingAttachments (media : List MediaRecord) (reads : Reads) (build : Build) : FilingEmailContent :=
  let x := pick build reads (photosOf media)
  ⟨build x.attached, x.attachments⟩

/-! ## Tries -/

/-- What the mailer is handed. -/
structure Message where
  packet : ReportPacket
  attachments : List OutboundAttachment
  deriving DecidableEq

/-- The packet of the filing, if one is stored, and whether it has a `sent` event. `handed` lists the messages that the
mailer was handed. -/
structure State where
  stored : Option (ReportPacket × Bool)
  handed : List Message

/-- How far a try comes: it is refused before it has a packet, it stops before the mail, the mail
fails, or it is sent. -/
inductive Stop where
  | refused
  | unhanded
  | failed
  | sent

inductive Move where
  | attempt (reads : Reads) (stop : Stop)
  | lateSuccess

variable (media : List MediaRecord) (build : Build)

/-- A packet is delivered with the attachments of the try. -/
def deliver (s : State) (packet : ReportPacket) (attachments : List OutboundAttachment) : Stop → State
  | .refused => s
  | .unhanded => { s with stored := some (packet, false) }
  | .failed => ⟨some (packet, false), s.handed ++ [⟨packet, attachments⟩]⟩
  | .sent => ⟨some (packet, true), s.handed ++ [⟨packet, attachments⟩]⟩

/-- An unsent packet is delivered again, else the try's own packet is stored first. -/
def step (s : State) : Move → State
  | .attempt reads stop =>
    let email := pickFilingAttachments media reads build
    match s.stored with
    | some (_, true) => s
    | some (packet, false) => deliver s packet email.attachments stop
    | none => deliver s email.packet email.attachments stop
  | .lateSuccess => { s with stored := s.stored.map fun x => (x.1, true) }

/-! ## What a try picks -/

section

variable {build} {reads : Reads} {x : Picked} {photos : List MediaRecord} {photo : MediaRecord}

/-- What holds of the photos that are attached so far: they are those of the attachments, and they fit. -/
structure Sound (build : Build) (reads : Reads) (photos : List MediaRecord) (x : Picked) : Prop where
  attached : ∀ id, id ∈ x.attached ↔ ∃ a ∈ x.attachments, a.photo = id
  read : ∀ a ∈ x.attachments, ∃ photo ∈ photos, photo.id = a.photo ∧ reads photo.r2Key = some a.content
  fits : x.attachments = [] ∨ outboundPayloadBytes (build x.attached) x.attachments ≤ OUTBOUND_PAYLOAD_BUDGET_BYTES

theorem Sound.pickPhoto (h : Sound build reads photos x) (photo : MediaRecord) :
    Sound build reads (photos ++ [photo]) (pickPhoto build reads x photo) := by
  have hread : ∀ a ∈ x.attachments, ∃ p ∈ photos ++ [photo], p.id = a.photo ∧ reads p.r2Key = some a.content := by
    intro a ha
    obtain ⟨p, hp, hsame⟩ := h.read a ha
    exact ⟨p, List.mem_append_left _ hp, hsame⟩
  unfold FilingMail.pickPhoto
  split
  · exact ⟨h.attached, hread, h.fits⟩
  next content hcontent =>
  split
  · exact ⟨h.attached, hread, h.fits⟩
  next hfits =>
  refine ⟨fun id => ?_, fun a ha => ?_, Or.inr (Nat.le_of_not_lt hfits)⟩
  · simp only [Finset.mem_insert, h.attached, List.mem_append, List.mem_singleton]
    constructor
    · rintro (rfl | ⟨a, ha, hid⟩)
      · exact ⟨_, Or.inr rfl, rfl⟩
      · exact ⟨a, Or.inl ha, hid⟩
    · rintro ⟨a, ha | rfl, hid⟩
      · exact Or.inr ⟨a, ha, hid⟩
      · exact Or.inl hid.symm
  · rcases List.mem_append.mp ha with ha | ha
    · exact hread a ha
    · rw [List.mem_singleton.mp ha]
      exact ⟨photo, List.mem_append_right _ List.mem_cons_self, rfl, hcontent⟩

theorem sound_foldl (rest : List MediaRecord) (h : Sound build reads photos x) :
    Sound build reads (photos ++ rest) (rest.foldl (pickPhoto build reads) x) := by
  induction rest generalizing photos x with
  | nil => rwa [List.append_nil]
  | cons photo rest ih =>
    rw [List.append_cons]
    exact ih (h.pickPhoto photo)

theorem sound_pick (build : Build) (reads : Reads) (photos : List MediaRecord) :
    Sound build reads photos (pick build reads photos) := by
  have hstart : Sound build reads [] ⟨∅, []⟩ := by
    refine ⟨fun id => ⟨fun h => ?_, ?_⟩, fun a ha => ?_, Or.inl rfl⟩
    · cases Finset.notMem_empty id h
    · rintro ⟨a, ha, -⟩
      cases ha
    · cases ha
  exact sound_foldl photos hstart

end

/-! ## What the mail holds -/

-- `linked` reads off the text of a packet which media it links.
variable (linked : ReportPacket → MediaId → Bool)

/-- Each media item is attached or linked. -/
def Complete (msg : Message) : Prop :=
  ∀ m ∈ media, linked msg.packet m.id = true ∨ ∃ a ∈ msg.attachments, a.photo = m.id

/-- The attachments do not take the message over the budget. -/
def WithinBudget (msg : Message) : Prop :=
  outboundPayloadBytes msg.packet [] ≤ OUTBOUND_PAYLOAD_BUDGET_BYTES →
    outboundPayloadBytes msg.packet msg.attachments ≤ OUTBOUND_PAYLOAD_BUDGET_BYTES

/-- The bytes of a packet with these contents. -/
def payload (packet : ReportPacket) (contents : List Bytes) : ℕ :=
  messageBytes packet.text.utf8ByteSize packet.html.utf8ByteSize (contents.map List.length)

/-- The photos that a packet leaves to be attached. -/
def unlinked (packet : ReportPacket) (photos : List MediaRecord) : List MediaRecord :=
  photos.filter fun m => !linked packet m.id

def idsOf (photos : List MediaRecord) : Finset MediaId := (photos.map MediaRecord.id).toFinset

/-- The photo is found, and fits after the ones before it. -/
def FitsAfter (reads : Reads) (before : List MediaRecord) (photo : MediaRecord) : Prop :=
  ∃ content, reads photo.r2Key = some content ∧
    payload (build (insert photo.id (idsOf before))) (before.filterMap (fun m => reads m.r2Key) ++ [content]) ≤
      OUTBOUND_PAYLOAD_BUDGET_BYTES

/-- The photos of the report that the storage gives and that fit, each judged after those that the stored packet leaves
unlinked before it, are those that the stored packet leaves unlinked. -/
def Repeats (packet : ReportPacket) (reads : Reads) : Prop :=
  ∀ before photo after, photosOf media = before ++ photo :: after →
    (linked packet photo.id = false ↔ FitsAfter build reads (unlinked linked packet before) photo)

variable {media build linked} {reads : Reads} {packet : ReportPacket} {x : Picked} {s : State}

theorem outboundPayloadBytes_eq (packet : ReportPacket) (attachments : List OutboundAttachment) :
    outboundPayloadBytes packet attachments = payload packet (attachments.map OutboundAttachment.content) := by
  rw [outboundPayloadBytes, payload, List.map_map]
  rfl

theorem idsOf_concat (photos : List MediaRecord) (photo : MediaRecord) :
    idsOf (photos ++ [photo]) = insert photo.id (idsOf photos) := by
  ext id
  simp only [idsOf, List.map_append, List.mem_toFinset, List.mem_append, List.map_cons, List.map_nil,
    List.mem_singleton, Finset.mem_insert]
  exact or_comm

/-- What the try has picked is what the stored packet leaves unlinked. -/
structure Repeated (linked : ReportPacket → MediaId → Bool) (reads : Reads) (packet : ReportPacket)
    (photos : List MediaRecord) (x : Picked) : Prop where
  attached : x.attached = idsOf (unlinked linked packet photos)
  contents : x.attachments.map OutboundAttachment.content =
    (unlinked linked packet photos).filterMap fun m => reads m.r2Key

theorem Repeated.pickPhoto {photos : List MediaRecord} {photo : MediaRecord}
    (h : Repeated linked reads packet photos x)
    (hphoto : linked packet photo.id = false ↔ FitsAfter build reads (unlinked linked packet photos) photo) :
    Repeated linked reads packet (photos ++ [photo]) (pickPhoto build reads x photo) := by
  have hbytes : ∀ content, outboundPayloadBytes (build (insert photo.id x.attached))
      (x.attachments ++ [candidate x photo content]) = payload (build (insert photo.id
        (idsOf (unlinked linked packet photos)))) ((unlinked linked packet photos).filterMap
          (fun m => reads m.r2Key) ++ [content]) := by
    intro content
    rw [outboundPayloadBytes_eq, List.map_append, h.contents, h.attached]
    rfl
  have hskip : linked packet photo.id = true → Repeated linked reads packet (photos ++ [photo]) x := by
    intro hlinked
    have hsame : unlinked linked packet (photos ++ [photo]) = unlinked linked packet photos := by
      rw [unlinked, List.filter_append, List.filter_cons_of_neg (by simp [hlinked]), List.filter_nil, List.append_nil]
      rfl
    exact ⟨by rw [hsame]; exact h.attached, by rw [hsame]; exact h.contents⟩
  have hnot : ¬ FitsAfter build reads (unlinked linked packet photos) photo → linked packet photo.id = true := by
    intro hno
    cases hlinked : linked packet photo.id with
    | true => rfl
    | false => exact absurd (hphoto.mp hlinked) hno
  unfold FilingMail.pickPhoto
  split
  · next hnone =>
    refine hskip (hnot ?_)
    rintro ⟨content, hcontent, -⟩
    rw [hnone] at hcontent
    cases hcontent
  next content hcontent =>
  split
  · next hover =>
    refine hskip (hnot ?_)
    rintro ⟨content', hcontent', hfits⟩
    obtain rfl := Option.some.inj (hcontent.symm.trans hcontent')
    rw [hbytes] at hover
    omega
  · next hfits =>
    have hlinked : linked packet photo.id = false := hphoto.mpr ⟨content, hcontent, by rw [← hbytes]; omega⟩
    have hadded : unlinked linked packet (photos ++ [photo]) = unlinked linked packet photos ++ [photo] := by
      rw [unlinked, List.filter_append, List.filter_cons_of_pos (by simp [hlinked]), List.filter_nil]
      rfl
    refine ⟨?_, ?_⟩
    · rw [hadded, idsOf_concat, h.attached]
    · have hone : [photo].filterMap (fun m => reads m.r2Key) = [content] := List.filterMap_cons_some hcontent
      rw [hadded, List.map_append, h.contents, List.filterMap_append, hone]
      rfl

theorem repeated_foldl (rest photos : List MediaRecord) (h : Repeated linked reads packet photos x)
    (hrest : ∀ before photo after, photos ++ rest = before ++ photo :: after →
      (linked packet photo.id = false ↔ FitsAfter build reads (unlinked linked packet before) photo)) :
    Repeated linked reads packet (photos ++ rest) (rest.foldl (pickPhoto build reads) x) := by
  induction rest generalizing photos x with
  | nil => rwa [List.append_nil]
  | cons photo rest ih =>
    have hphoto := hrest photos photo rest rfl
    rw [List.append_cons] at hrest ⊢
    exact ih _ (h.pickPhoto hphoto) hrest

theorem Repeats.pick (h : Repeats media build linked packet reads) :
    (pick build reads (photosOf media)).attached = idsOf (unlinked linked packet (photosOf media)) :=
  (repeated_foldl (photosOf media) [] ⟨rfl, rfl⟩ h).attached

/-! ## Runs -/

/-- The packet is one that a try has built. -/
def BuiltByTry (media : List MediaRecord) (build : Build) (packet : ReportPacket) : Prop :=
  ∃ reads, packet = build (pick build reads (photosOf media)).attached

/-- `build` links exactly the media that are not attached. -/
def LinksTheRest (media : List MediaRecord) (build : Build) (linked : ReportPacket → MediaId → Bool) : Prop :=
  ∀ attached, ∀ m ∈ media, linked (build attached) m.id = true ↔ m.id ∉ attached

theorem mem_of_photosOf {m : MediaRecord} (h : m ∈ photosOf media) : m ∈ media :=
  List.mem_of_mem_filter (List.mem_of_mem_take h)

/-- A message with the packet and the attachments of one pick loses no photo. -/
theorem kept_of_pick (hlinks : LinksTheRest media build linked) (reads : Reads)
    {attachments : List OutboundAttachment} (h : attachments = (pick build reads (photosOf media)).attachments) :
    Complete media linked ⟨build (pick build reads (photosOf media)).attached, attachments⟩ ∧
      WithinBudget ⟨build (pick build reads (photosOf media)).attached, attachments⟩ := by
  subst h
  have hsound := sound_pick build reads (photosOf media)
  refine ⟨fun m hm => ?_, fun hpacket => ?_⟩
  · by_cases hattached : m.id ∈ (pick build reads (photosOf media)).attached
    · exact Or.inr ((hsound.attached m.id).mp hattached)
    · exact Or.inl ((hlinks _ m hm).mpr hattached)
  · rcases hsound.fits with hnone | hfits
    · rw [hnone]
      exact hpacket
    · exact hfits

/-- A try that repeats a stored packet picks what the packet leaves unlinked, so the packet is its own. -/
theorem build_of_repeats (hlinks : LinksTheRest media build linked) (hbuilt : BuiltByTry media build packet)
    (h : Repeats media build linked packet reads) :
    packet = build (pick build reads (photosOf media)).attached := by
  obtain ⟨reads₀, rfl⟩ := hbuilt
  have hsound := sound_pick build reads₀ (photosOf media)
  congr 1
  rw [h.pick]
  ext id
  simp only [idsOf, unlinked, List.mem_toFinset, List.mem_map, List.mem_filter, Bool.not_eq_true']
  constructor
  · intro hid
    obtain ⟨a, ha, haid⟩ := (hsound.attached id).mp hid
    obtain ⟨photo, hphoto, hpid, -⟩ := hsound.read a ha
    have hsame : photo.id = id := hpid.trans haid
    refine ⟨photo, ⟨hphoto, ?_⟩, hsame⟩
    rw [Bool.eq_false_iff, ne_eq, hlinks _ photo (mem_of_photosOf hphoto), not_not, hsame]
    exact hid
  · rintro ⟨photo, ⟨hphoto, hlinked⟩, rfl⟩
    by_contra hnot
    rw [(hlinks _ photo (mem_of_photosOf hphoto)).mpr hnot] at hlinked
    cases hlinked

structure Kept (media : List MediaRecord) (build : Build) (linked : ReportPacket → MediaId → Bool) (s : State) :
    Prop where
  stored : ∀ x ∈ s.stored, BuiltByTry media build x.1
  handed : ∀ msg ∈ s.handed, Complete media linked msg ∧ WithinBudget msg

/-- A try that sends a stored packet again repeats it. -/
def Repeating (media : List MediaRecord) (build : Build) (linked : ReportPacket → MediaId → Bool) (s : State) :
    Move → Prop
  | .attempt reads stop => ∀ packet, s.stored = some (packet, false) → stop = .failed ∨ stop = .sent →
    Repeats media build linked packet reads
  | .lateSuccess => True

theorem Kept.deliver (h : Kept media build linked s) {attachments : List OutboundAttachment} {stop : Stop}
    (hbuilt : BuiltByTry media build packet) (hmsg : stop = .failed ∨ stop = .sent →
      Complete media linked ⟨packet, attachments⟩ ∧ WithinBudget ⟨packet, attachments⟩) :
    Kept media build linked (deliver s packet attachments stop) := by
  have hhanded : stop = .failed ∨ stop = .sent → ∀ msg ∈ s.handed ++ [⟨packet, attachments⟩],
      Complete media linked msg ∧ WithinBudget msg := by
    intro hstop msg hmem
    rcases List.mem_append.mp hmem with hold | hnew
    · exact h.handed msg hold
    · rw [List.mem_singleton.mp hnew]
      exact hmsg hstop
  cases stop with
  | refused => exact h
  | unhanded => exact ⟨fun x hx => by cases hx; exact hbuilt, h.handed⟩
  | failed => exact ⟨fun x hx => by cases hx; exact hbuilt, hhanded (Or.inl rfl)⟩
  | sent => exact ⟨fun x hx => by cases hx; exact hbuilt, hhanded (Or.inr rfl)⟩

theorem Kept.step (hlinks : LinksTheRest media build linked) (h : Kept media build linked s) (m : Move)
    (hm : Repeating media build linked s m) : Kept media build linked (step media build s m) := by
  cases m with
  | lateSuccess =>
    refine ⟨fun x hx => ?_, h.handed⟩
    obtain ⟨y, hy, rfl⟩ := Option.map_eq_some_iff.mp hx
    exact h.stored y hy
  | attempt reads stop =>
    simp only [FilingMail.step]
    split
    · exact h
    · next packet hstored =>
      have hbuilt := h.stored (packet, false) hstored
      refine h.deliver hbuilt fun hstop => ?_
      have hown : packet = build (pick build reads (photosOf media)).attached :=
        build_of_repeats hlinks hbuilt (hm packet hstored hstop)
      rw [hown]
      exact kept_of_pick hlinks reads rfl
    · exact h.deliver ⟨reads, rfl⟩ fun _ => kept_of_pick hlinks reads rfl

/-- The runs in which each try that sends a stored packet again repeats it. -/
inductive Reaches (media : List MediaRecord) (build : Build) (linked : ReportPacket → MediaId → Bool) : State → Prop
  | start : Reaches media build linked ⟨none, []⟩
  | step {s : State} (h : Reaches media build linked s) (m : Move) (hm : Repeating media build linked s m) :
      Reaches media build linked (FilingMail.step media build s m)

theorem Reaches.kept (hlinks : LinksTheRest media build linked) (h : Reaches media build linked s) :
    Kept media build linked s := by
  induction h with
  | start => exact ⟨fun x hx => (by cases hx), fun msg hmsg => (by cases hmsg)⟩
  | step _ m hm ih => exact ih.step hlinks m hm

/-- A stored packet that is sent without a photo that it does not link loses the photo. -/
theorem lost_of_missing (hids : (media.map MediaRecord.id).Nodup) {m : MediaRecord} (hm : m ∈ media)
    (hlinked : linked packet m.id = false) (hmissing : reads m.r2Key = none) :
    ¬ Complete media linked ⟨packet, (pick build reads (photosOf media)).attachments⟩ := by
  intro hcomplete
  rcases hcomplete m hm with hlink | ⟨a, ha, hid⟩
  · rw [hlinked] at hlink
    cases hlink
  · obtain ⟨photo, hphoto, hpid, hread⟩ := (sound_pick build reads (photosOf media)).read a ha
    obtain rfl := List.inj_on_of_nodup_map hids (mem_of_photosOf hphoto) hm (hpid.trans hid)
    rw [hmissing] at hread
    cases hread

/-- While each try that sends a stored packet again picks the photos that the packet leaves unlinked, no photo is lost
and the attachments stay within the budget. A try that does not find such a photo loses it. -/
theorem photos_kept_of_repeats (hlinks : LinksTheRest media build linked)
    (hids : (media.map MediaRecord.id).Nodup) :
    (∀ s, Reaches media build linked s → ∀ msg ∈ s.handed, Complete media linked msg ∧ WithinBudget msg) ∧
    (∀ s packet reads m, s.stored = some (packet, false) → m ∈ media → linked packet m.id = false →
      reads m.r2Key = none → ∃ msg ∈ (step media build s (.attempt reads .failed)).handed,
        ¬ Complete media linked msg) := by
  refine ⟨fun s h => (h.kept hlinks).handed, fun s packet reads m hstored hm hlinked hmissing => ?_⟩
  refine ⟨⟨packet, (pick build reads (photosOf media)).attachments⟩, ?_,
    lost_of_missing hids hm hlinked hmissing⟩
  simp only [step, hstored]
  exact List.mem_append_right _ List.mem_cons_self

/-! ## A report with one photo -/

def onePhoto : List MediaRecord := [⟨1, .image, 10⟩]

def onePhotoBuild (attached : Finset MediaId) : ReportPacket :=
  ⟨"A report", if 1 ∈ attached then "Thank you." else "Photo 1: https://photos/1", ""⟩

def onePhotoLinked (packet : ReportPacket) (id : MediaId) : Bool :=
  decide (id = 1 ∧ packet.text = "Photo 1: https://photos/1")

def found : Reads := fun _ => some [1, 2, 3]

theorem onePhoto_links : LinksTheRest onePhoto onePhotoBuild onePhotoLinked := by
  intro attached m hm
  obtain rfl := List.mem_singleton.mp hm
  rw [onePhotoLinked, onePhotoBuild, decide_eq_true_eq]
  split
  · next hin => exact iff_of_false (by decide) (not_not.mpr hin)
  · next hout => exact iff_of_true ⟨rfl, rfl⟩ hout

/-- The mail of the first try fails, and the second try finds the photo again. -/
def redelivered : State :=
  step onePhoto onePhotoBuild (step onePhoto onePhotoBuild ⟨none, []⟩ (.attempt found .failed)) (.attempt found .sent)

def redeliveredMail : Message := ⟨onePhotoBuild {1}, (pick onePhotoBuild found (photosOf onePhoto)).attachments⟩

theorem photos_kept_of_repeats_onePhoto : redelivered.handed = [redeliveredMail, redeliveredMail] ∧
    Complete onePhoto onePhotoLinked redeliveredMail ∧ WithinBudget redeliveredMail := by
  have hhanded : redelivered.handed = [redeliveredMail, redeliveredMail] := by decide +kernel
  refine ⟨hhanded, (photos_kept_of_repeats onePhoto_links (by decide)).1 redelivered (.step (.step .start _ ?_) _ ?_) _
    (hhanded ▸ List.mem_cons_self)⟩
  · intro packet hstored
    cases hstored
  · intro packet hstored _ before photo after hsplit
    have hpacket : packet = onePhotoBuild {1} := by
      have heq : (step onePhoto onePhotoBuild ⟨none, []⟩ (.attempt found .failed)).stored =
          some (onePhotoBuild {1}, false) := by decide +kernel
      exact (Prod.mk.inj (Option.some.inj (hstored.symm.trans heq))).1
    have hone : before = [] ∧ photo = ⟨1, .image, 10⟩ := by
      cases before with
      | nil => exact ⟨rfl, (List.cons.inj hsplit).1.symm⟩
      | cons b before => exact absurd (List.cons.inj hsplit).2 (by simp)
    rw [hone.1, hone.2, hpacket]
    exact iff_of_true (by decide +kernel) ⟨[1, 2, 3], rfl, by decide +kernel⟩

/-- The photo is attached to the mail that fails, and its object is gone at the second try. -/
theorem photo_lost_on_redelivery :
    LinksTheRest onePhoto onePhotoBuild onePhotoLinked ∧
    ∃ msg ∈ (step onePhoto onePhotoBuild (step onePhoto onePhotoBuild ⟨none, []⟩ (.attempt found .failed))
      (.attempt (fun _ => none) .sent)).handed, ¬ Complete onePhoto onePhotoLinked msg := by
  refine ⟨onePhoto_links, ⟨onePhotoBuild {1}, []⟩, by decide +kernel, fun hcomplete => ?_⟩
  rcases hcomplete ⟨1, .image, 10⟩ List.mem_cons_self with hlinked | ⟨a, ha, -⟩
  · exact absurd hlinked (by decide +kernel)
  · cases ha

end Civfix.FilingMail
