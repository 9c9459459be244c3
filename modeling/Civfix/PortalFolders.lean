import Civfix.CodeUnits
import Civfix.PrefixCodes
import Mathlib.Data.List.Sort
import Mathlib.Data.List.Perm.Basic

/-! # The folder of a portal

`portals/<host>/` is written by the `filer` user and read by the wrapper without trust. A folder has a fingerprint if it
holds nothing but regular files and directories, within the limits; two folders with the same fingerprint hold the same
entries. Nothing changes between the listing of a folder and the reads of its files, which are one read here. -/
namespace Civfix.CityFiler

open CodeUnits PrefixCodes

abbrev Host := String

abbrev Bytes := List UInt8

/-- The bytes of an ASCII text. -/
def ascii (s : String) : Bytes := s.toList.map fun c => UInt8.ofNat c.toNat

def SCRIPT_MAX_BYTES : ℕ := 1024 * 1024

def FOLDER_MAX_ENTRIES : ℕ := 500

def FOLDER_MAX_BYTES : ℕ := 20 * 1024 * 1024

/-- `/^[a-z0-9-]+(\.[a-z0-9-]+)*$/i` -/
def isPortalHost (host : String) : Bool :=
  ((text host).splitOn 46).all fun label => !label.isEmpty && label.all fun c => isAlnum c || decide (c = 45)

/-! ## Folders -/

/-- What a directory lists, in the order of the listing. The last kind stands for symlinks and special files. -/
inductive Listing where
  | nil
  | file (name bytes : Bytes) (rest : Listing)
  | dir (name : Bytes) (inner rest : Listing)
  | other (name : Bytes) (rest : Listing)

inductive Content where
  | directory
  | file (bytes : Bytes)
  | other

structure FolderEntry where
  path : Bytes
  content : Content

/-- The path of an entry of the directory at `rel`. -/
def child (rel name : Bytes) : Bytes := if rel = [] then name else rel ++ 47 :: name

/-- Every entry below the directory at `rel`. -/
def Listing.tree (rel : Bytes) : Listing → List FolderEntry
  | .nil => []
  | .file name bytes rest => ⟨child rel name, .file bytes⟩ :: rest.tree rel
  | .dir name inner rest => ⟨child rel name, .directory⟩ :: (inner.tree (child rel name) ++ rest.tree rel)
  | .other name rest => ⟨child rel name, .other⟩ :: rest.tree rel

/-- No name is empty or has a slash. -/
def Listing.named : Listing → Bool
  | .nil => true
  | .file name _ rest | .other name rest => decide (name ≠ [] ∧ 47 ∉ name) && rest.named
  | .dir name inner rest => decide (name ≠ [] ∧ 47 ∉ name) && inner.named && rest.named

/-- A directory in which no two entries have one path. -/
structure Folder where
  listing : Listing
  named : listing.named = true
  distinct : ((listing.tree []).map FolderEntry.path).Nodup

def Folder.entries (f : Folder) : List FolderEntry := f.listing.tree []

/-- What stands at `portals/<host>`. -/
inductive HostEntry where
  | missing
  | folder (f : Folder)
  | other

/-- The two hold the same entries, in whatever order. -/
def HostEntry.Same : HostEntry → HostEntry → Prop
  | .missing, .missing | .other, .other => True
  | .folder f, .folder g => f.entries.Perm g.entries
  | _, _ => False

/-! ## The script -/

/-- The script as it was read; a symlink, a directory or a script that is too large is rejected. -/
inductive PortalScript where
  | missing
  | rejected
  | ok (bytes : Bytes)

/-- What stands under a name. -/
def Listing.find (name : Bytes) : Listing → Option Content
  | .nil => none
  | .file found bytes rest => if found = name then some (.file bytes) else rest.find name
  | .dir found _ rest => if found = name then some .directory else rest.find name
  | .other found rest => if found = name then some .other else rest.find name

def readPortalScript : HostEntry → PortalScript
  | .missing => .missing
  | .other => .rejected
  | .folder f =>
    match f.listing.find (ascii "script.mjs") with
    | none => .missing
    | some (.file bytes) => if bytes.length ≤ SCRIPT_MAX_BYTES then .ok bytes else .rejected
    | some _ => .rejected

/-! ## The fingerprint -/

/-- Why a folder was rejected. -/
inductive Rejection where
  | notUtf8
  | entries
  | bytes
  | odd (path : Bytes)
  | notDirectory
  | failed

/-- A name that is decoded and encoded again is the same. -/
def isUtf8 (name : Bytes) : Bool := ByteArray.validateUTF8 ⟨name.toArray⟩

/-- The entries so far, their bytes, and the directories that are still to be listed, the next one first. -/
structure Walk where
  entries : List FolderEntry
  bytes : ℕ
  dirs : List (Bytes × Listing)

namespace Walk

variable (w : Walk)

/-- What is checked before an entry is looked at. -/
def admitEntry (name : Bytes) : Except Rejection Unit :=
  if isUtf8 name = false then .error .notUtf8
  else if w.entries.length = FOLDER_MAX_ENTRIES then .error .entries
  else .ok ()

/-- The entries of one directory. -/
def list (rel : Bytes) : Listing → Walk → Except Rejection Walk
  | .nil, w => .ok w
  | .file name bytes rest, w => (w.admitEntry name).bind fun _ =>
    if FOLDER_MAX_BYTES < w.bytes + bytes.length then .error .bytes
    else list rel rest { w with entries := w.entries ++ [⟨child rel name, .file bytes⟩], bytes := w.bytes + bytes.length }
  | .dir name inner rest, w => (w.admitEntry name).bind fun _ => list rel rest
    { w with entries := w.entries ++ [⟨child rel name, .directory⟩], dirs := (child rel name, inner) :: w.dirs }
  | .other name _, w => (w.admitEntry name).bind fun _ => .error (.odd (child rel name))

/-- One directory after the other; `none` when the fuel is used up. -/
def run : ℕ → Walk → Option (Except Rejection (List FolderEntry))
  | n, w =>
    match w.dirs, n with
    | [], _ => some (.ok w.entries)
    | _ :: _, 0 => none
    | (rel, l) :: dirs, n + 1 =>
      match list rel l { w with dirs := dirs } with
      | .error e => some (.error e)
      | .ok w' => run n w'

end Walk

/-- No folder within the limits has more directories than the fuel. -/
def folderEntries (f : Folder) : Except Rejection (List FolderEntry) :=
  match Walk.run (FOLDER_MAX_ENTRIES + 1) ⟨[], 0, [([], f.listing)]⟩ with
  | none => .error .entries
  | some (.error e) => .error e
  | some (.ok entries) => .ok (entries.mergeSort fun a b => decide (a.path ≤ b.path))

/-- An entry as it goes into the hash. -/
def FolderEntry.encode (e : FolderEntry) : Option Bytes :=
  match e.content with
  | .directory => (framed 8 e.path).map (100 :: ·)
  | .file bytes => (framed 8 e.path).bind fun path => (framed 8 bytes).map fun bytes => 102 :: (path ++ bytes)
  | .other => none

/-- A hash without collisions, in hexadecimal digits. -/
structure Sha256 where
  hex : Bytes → Text
  injective : Function.Injective hex
  hexadecimal : ∀ bytes, ∀ c ∈ hex bytes, isDigit c = true ∨ (97 ≤ c ∧ c ≤ 102)

def fingerprintPortal (sha256 : Sha256) : HostEntry → Except Rejection Text
  | .missing => .error .failed
  | .other => .error .notDirectory
  | .folder f => (folderEntries f).bind fun entries =>
    match concat FolderEntry.encode entries with
    | none => .error .failed
    | some bytes => .ok (sha256.hex bytes)

variable {f g : Folder} {a b : HostEntry} {l : Listing} {rel name : Bytes} {e : FolderEntry} {w w' : Walk}

theorem HostEntry.Same.refl (a : HostEntry) : a.Same a := by
  cases a with
  | missing | other => trivial
  | folder f => exact List.Perm.refl _

theorem HostEntry.Same.trans {c : HostEntry} (h : a.Same b) (h' : b.Same c) : a.Same c := by
  cases a <;> cases b <;> cases c
  case folder.folder.folder => exact List.Perm.trans h h'
  all_goals first | exact h.elim | exact h'.elim | trivial

/-! ## What the script of a folder is -/

theorem mem_tree_of_find {c : Content} (h : l.find name = some c) : ⟨name, c⟩ ∈ l.tree [] := by
  induction l with
  | nil => cases h
  | file found bytes rest ih =>
    simp only [Listing.find] at h
    split at h
    · next hname =>
      cases h
      exact hname ▸ List.mem_cons_self
    · exact List.mem_cons_of_mem _ (ih h)
  | dir found inner rest _ ih =>
    simp only [Listing.find] at h
    split at h
    · next hname =>
      cases h
      exact hname ▸ List.mem_cons_self
    · exact List.mem_cons_of_mem _ (List.mem_append_right _ (ih h))
  | other found rest ih =>
    simp only [Listing.find] at h
    split at h
    · next hname =>
      cases h
      exact hname ▸ List.mem_cons_self
    · exact List.mem_cons_of_mem _ (ih h)

/-- The paths of entries below a directory have a slash. -/
theorem slash_of_mem_tree (hrel : rel ≠ []) (he : e ∈ l.tree rel) : 47 ∈ e.path := by
  have hchild : ∀ name, 47 ∈ child rel name := by
    intro name
    rw [child, if_neg hrel]
    exact List.mem_append_right _ List.mem_cons_self
  induction l generalizing rel with
  | nil => cases he
  | file name bytes rest ih =>
    rcases List.mem_cons.mp he with rfl | he
    · exact hchild name
    · exact ih hrel he hchild
  | dir name inner rest ihi ih =>
    rcases List.mem_cons.mp he with rfl | he
    · exact hchild name
    rcases List.mem_append.mp he with he | he
    · have hne : child rel name ≠ [] := List.ne_nil_of_mem (hchild name)
      refine ihi hne he fun inner => ?_
      rw [child, if_neg hne]
      exact List.mem_append_right _ List.mem_cons_self
    · exact ih hrel he hchild
  | other name rest ih =>
    rcases List.mem_cons.mp he with rfl | he
    · exact hchild name
    · exact ih hrel he hchild

theorem find_of_mem_tree (hn : l.named = true) (he : e ∈ l.tree []) (hslash : 47 ∉ e.path) :
    ∃ c, l.find e.path = some c := by
  have hskip : ∀ {found : Bytes} {c : Content} {o : Option Content}, (∃ c, o = some c) →
      ∃ c', (if found = e.path then some c else o) = some c' := by
    intro found c o ho
    split
    · exact ⟨c, rfl⟩
    · exact ho
  induction l with
  | nil => cases he
  | file name bytes rest ih =>
    simp only [Listing.named, Bool.and_eq_true] at hn
    rcases List.mem_cons.mp he with rfl | he
    · exact ⟨_, if_pos rfl⟩
    · exact hskip (ih hn.2 he)
  | dir name inner rest _ ih =>
    simp only [Listing.named, Bool.and_eq_true, decide_eq_true_eq] at hn
    rcases List.mem_cons.mp he with rfl | he
    · exact ⟨_, if_pos rfl⟩
    rcases List.mem_append.mp he with he | he
    · exact absurd (slash_of_mem_tree hn.1.1.1 he) hslash
    · exact hskip (ih hn.2 he)
  | other name rest ih =>
    simp only [Listing.named, Bool.and_eq_true] at hn
    rcases List.mem_cons.mp he with rfl | he
    · exact ⟨_, if_pos rfl⟩
    · exact hskip (ih hn.2 he)

theorem find_of_perm (h : f.entries.Perm g.entries) (hslash : 47 ∉ name) {c : Content}
    (hf : f.listing.find name = some c) : g.listing.find name = some c := by
  have hmem : ⟨name, c⟩ ∈ g.entries := h.mem_iff.mp (mem_tree_of_find hf)
  obtain ⟨c', hc'⟩ := find_of_mem_tree g.named hmem hslash
  have hsame := List.inj_on_of_nodup_map g.distinct hmem (mem_tree_of_find hc') rfl
  cases hsame
  exact hc'

/-- Folders with the same entries have the same script. -/
theorem readPortalScript_of_same (h : a.Same b) {bytes : Bytes} (ha : readPortalScript a = .ok bytes) :
    readPortalScript b = .ok bytes := by
  cases a with
  | missing | other => cases ha
  | folder f =>
    cases b with
    | missing | other => exact h.elim
    | folder g =>
      simp only [readPortalScript] at ha ⊢
      split at ha
      · cases ha
      · next hfind =>
        rw [find_of_perm h (by decide) hfind]
        exact ha
      · cases ha

/-! ## What the walk collects -/

theorem bind_ok {α β : Type} {x : Except Rejection α} {f : α → Except Rejection β} {y : β} (h : x.bind f = .ok y) :
    ∃ z, x = .ok z ∧ f z = .ok y := by
  cases x with
  | error r => cases h
  | ok z => exact ⟨z, rfl, h⟩

namespace Walk

theorem length_of_admitEntry {u : Unit} (h : w.admitEntry name = .ok u) (hlen : w.entries.length ≤ FOLDER_MAX_ENTRIES)
    (e : FolderEntry) : (w.entries ++ [e]).length ≤ FOLDER_MAX_ENTRIES := by
  unfold admitEntry at h
  split at h
  · cases h
  split at h
  · cases h
  · rw [List.length_append, List.length_singleton]
    omega

/-- The listing of one directory: its entries are collected, and its directories are still to be listed. -/
theorem list_collects (h : list rel l w = .ok w') (hlen : w.entries.length ≤ FOLDER_MAX_ENTRIES) :
    ∃ es ds, w'.entries = w.entries ++ es ∧ w'.dirs = ds ++ w.dirs ∧ ds.length ≤ es.length ∧
      w'.entries.length ≤ FOLDER_MAX_ENTRIES ∧ (es ++ ds.flatMap fun d => d.2.tree d.1).Perm (l.tree rel) := by
  induction l generalizing w with
  | nil =>
    cases h
    exact ⟨[], [], by simp, rfl, Nat.le_refl _, hlen, .refl _⟩
  | file name bytes rest ih =>
    obtain ⟨_, hadmit, h⟩ := bind_ok h
    split at h
    · cases h
    obtain ⟨es, ds, hes, hds, hle, hlen', hperm⟩ := ih h (length_of_admitEntry hadmit hlen _)
    exact ⟨_ :: es, ds, by rw [hes, List.append_assoc]; rfl, hds, Nat.le_succ_of_le hle, hlen', hperm.cons _⟩
  | dir name inner rest _ ih =>
    obtain ⟨_, hadmit, h⟩ := bind_ok h
    obtain ⟨es, ds, hes, hds, hle, hlen', hperm⟩ := ih h (length_of_admitEntry hadmit hlen _)
    refine ⟨_ :: es, ds ++ [(child rel name, inner)], by rw [hes, List.append_assoc]; rfl, by rw [hds]; simp, ?_, hlen',
      ?_⟩
    · rw [List.length_append]
      exact Nat.succ_le_succ hle
    · rw [List.flatMap_append, List.cons_append, ← List.append_assoc]
      refine List.Perm.cons _ (List.perm_append_comm.trans ?_)
      simp only [List.flatMap_cons, List.flatMap_nil, List.append_nil]
      exact hperm.append_left _
  | other name rest ih =>
    obtain ⟨_, -, h⟩ := bind_ok h
    cases h

theorem run_collects {n : ℕ} {es : List FolderEntry} (h : run n w = some (.ok es))
    (hlen : w.entries.length ≤ FOLDER_MAX_ENTRIES) :
    es.Perm (w.entries ++ w.dirs.flatMap fun d => d.2.tree d.1) := by
  induction n generalizing w with
  | zero =>
    obtain ⟨entries, bytes, dirs⟩ := w
    cases dirs with
    | nil =>
      cases h
      exact .of_eq (by simp)
    | cons d dirs => cases h
  | succ n ih =>
    obtain ⟨entries, bytes, dirs⟩ := w
    cases dirs with
    | nil =>
      cases h
      exact .of_eq (by simp)
    | cons d dirs =>
      simp only [run] at h
      split at h
      · cases h
      next w' hlist =>
      obtain ⟨es', ds, hes, hds, -, hlen', hperm⟩ := list_collects hlist hlen
      refine (ih h hlen').trans ?_
      rw [hes, hds, List.append_assoc, List.flatMap_append, List.flatMap_cons, ← List.append_assoc es']
      exact (hperm.append_right _).append_left _

end Walk

theorem folderEntries_perm {es : List FolderEntry} (h : folderEntries f = .ok es) : es.Perm f.entries := by
  unfold folderEntries at h
  split at h
  · cases h
  · cases h
  · next entries hrun =>
    cases h
    refine (List.mergeSort_perm _ _).trans ((Walk.run_collects hrun (Nat.zero_le _)).trans ?_)
    exact .of_eq (by simp [Folder.entries])

/-! ## What a fingerprint says -/

theorem separates_encode : Separates FolderEntry.encode := by
  intro e e' x y u v hx hy heq
  obtain ⟨path, content⟩ := e
  obtain ⟨path', content'⟩ := e'
  cases content with
  | other => cases hx
  | directory =>
    obtain ⟨p, hp, rfl⟩ := Option.map_eq_some_iff.mp hx
    cases content' with
    | other => cases hy
    | directory =>
      obtain ⟨q, hq, rfl⟩ := Option.map_eq_some_iff.mp hy
      obtain ⟨rfl, hrest⟩ := separates_framed 8 _ _ _ _ _ _ hp hq (List.cons.inj heq).2
      exact ⟨rfl, hrest⟩
    | file bytes' =>
      obtain ⟨q, -, hy⟩ := Option.bind_eq_some_iff.mp hy
      obtain ⟨c, -, rfl⟩ := Option.map_eq_some_iff.mp hy
      exact absurd (List.cons.inj heq).1 (by decide)
  | file bytes =>
    obtain ⟨p, hp, hx⟩ := Option.bind_eq_some_iff.mp hx
    obtain ⟨c, hc, rfl⟩ := Option.map_eq_some_iff.mp hx
    cases content' with
    | other => cases hy
    | directory =>
      obtain ⟨q, -, rfl⟩ := Option.map_eq_some_iff.mp hy
      exact absurd (List.cons.inj heq).1 (by decide)
    | file bytes' =>
      obtain ⟨q, hq, hy⟩ := Option.bind_eq_some_iff.mp hy
      obtain ⟨d, hd, rfl⟩ := Option.map_eq_some_iff.mp hy
      have hrest : p ++ c ++ u = q ++ d ++ v := (List.cons.inj heq).2
      rw [List.append_assoc, List.append_assoc] at hrest
      obtain ⟨rfl, hrest⟩ := separates_framed 8 _ _ _ _ _ _ hp hq hrest
      obtain ⟨rfl, hrest⟩ := separates_framed 8 _ _ _ _ _ _ hc hd hrest
      exact ⟨rfl, hrest⟩

theorem encode_ne_nil {x : Bytes} (h : e.encode = some x) : x ≠ [] := by
  unfold FolderEntry.encode at h
  split at h
  · obtain ⟨p, -, rfl⟩ := Option.map_eq_some_iff.mp h
    exact List.cons_ne_nil _ _
  · obtain ⟨p, -, h⟩ := Option.bind_eq_some_iff.mp h
    obtain ⟨c, -, rfl⟩ := Option.map_eq_some_iff.mp h
    exact List.cons_ne_nil _ _
  · cases h

/-- The hash of a folder's entries. -/
theorem exists_entries_of_fingerprint {sha256 : Sha256} {x : Text} (h : fingerprintPortal sha256 a = .ok x) :
    ∃ f es bytes, a = .folder f ∧ es.Perm f.entries ∧ concat FolderEntry.encode es = some bytes ∧ x = sha256.hex bytes := by
  cases a with
  | missing | other => cases h
  | folder f =>
    obtain ⟨es, hes, h⟩ := bind_ok h
    split at h
    · cases h
    · next bytes hbytes =>
      cases h
      exact ⟨f, es, bytes, rfl, folderEntries_perm hes, hbytes, rfl⟩

theorem same_of_fingerprint {sha256 : Sha256} {x : Text} (ha : fingerprintPortal sha256 a = .ok x)
    (hb : fingerprintPortal sha256 b = .ok x) : a.Same b := by
  obtain ⟨f, es, bytes, rfl, hperm, hbytes, rfl⟩ := exists_entries_of_fingerprint ha
  obtain ⟨g, es', bytes', rfl, hperm', hbytes', heq⟩ := exists_entries_of_fingerprint hb
  obtain rfl := sha256.injective heq
  obtain rfl := concat_injective separates_encode (fun _ _ => encode_ne_nil) hbytes hbytes'
  exact hperm.symm.trans hperm'

end Civfix.CityFiler
