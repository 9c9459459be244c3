import Civfix.PostRepository

/-! # The counts of a post

A transaction that changes a row changes one tally, and then the count that stands for it. In between
the two are off by one; `OffBy` says by how much for every count of every post, so that each write is
one change of it and a transaction is exact when the changes cancel. The floor at zero is never reached,
because a row that goes away was counted. -/
namespace Civfix.Posts

open KeyedTables LockedTransactions RelationalStores

/-- What a row of `posts` adds to a count of a post. -/
def Post.adds (x : Post) (c : Counter) (p : PostId) : ℕ :=
  match c with
  | .likes | .saves => 0
  | .replies => if x.Live ∧ x.replyToId = some p then 1 else 0
  | .reposts => if x.Live ∧ x.kind = .repost ∧ x.repostOfId = some p then 1 else 0

/-- The rows that a count of a post stands for. -/
def tally (s : Db) (c : Counter) (p : PostId) : ℕ :=
  match c with
  | .likes => (s TableName.likes).total (fun m => if m.postId = p then 1 else 0)
  | .saves => (s TableName.saves).total (fun m => if m.postId = p then 1 else 0)
  | .replies => (s TableName.posts).total (fun x => x.adds .replies p)
  | .reposts => (s TableName.posts).total (fun x => x.adds .reposts p)

/-- The count that a post carries; a post that is not there has none. -/
def countOf (s : Db) (c : Counter) (p : PostId) : ℕ := (findPost s p).elim 0 (fun x => x.count c)

/-- How far every tally is from its count. -/
def OffBy (s : Db) (e : Counter → PostId → ℤ) : Prop := ∀ c p, (tally s c p : ℤ) = countOf s c p + e c p

theorem OffBy.congr {s : Db} {e e' : Counter → PostId → ℤ} (h : OffBy s e) (he : ∀ c p, e c p = e' c p) :
    OffBy s e' :=
  fun c p => (he c p) ▸ h c p

/-- One more, or one less, for one count of one post. -/
def one (c : Counter) (p : PostId) (c' : Counter) (p' : PostId) : ℤ := if c' = c ∧ p' = p then 1 else 0

/-! ## Writes -/

/-- The rows that a post is a reply to, or a repost or a quote of, are there. -/
def Referenced (s : Db) : Prop :=
  ∀ p, ∀ x ∈ findPost s p, Db.Exists s x.replyToId ∧ Db.Exists s x.repostOfId

/-- What every transaction relies on beside the counts. -/
structure Sound (s : Db) : Prop where
  referenced : Referenced s
  noReply : ∀ p, ∀ x ∈ findPost s p, x.kind = .repost → x.replyToId = none
  unique : Schema.Db.UniqueAt (S := schema) TableName.posts s

theorem exists_apply (s : Db) (w : Write) {p : Option PostId} (h : Db.Exists s p) : Db.Exists (s.apply w) p :=
  fun q hq => s.evolves_write w TableName.posts q (h q hq)

theorem sound_of_table {s : Db} {w : Write} (h : Sound s) (hw : w.name ≠ TableName.posts) : Sound (s.apply w) := by
  have hsame : s.apply w TableName.posts = s TableName.posts := s.apply_of_ne w hw.symm
  have hfind : ∀ p, findPost (s.apply w) p = findPost s p := fun p => by rw [findPost, hsame, findPost]
  refine ⟨fun p x hx => ?_, fun p x hx => h.noReply p x (hfind p ▸ hx), h.unique.of_same hsame⟩
  rw [hfind] at hx
  exact ⟨exists_apply s w (h.referenced p x hx).1, exists_apply s w (h.referenced p x hx).2⟩

/-- An update of one post that leaves what it refers to. -/
theorem Sound.update {s : Db} {w : Write} (h : Sound s) {p : PostId} {f : Post → Post}
    (hw : ∀ k, findPost (s.apply w) k = if k = p then (findPost s p).map f else findPost s k)
    (hf : ∀ x, (f x).replyToId = x.replyToId ∧ (f x).repostOfId = x.repostOfId ∧ (f x).kind = x.kind)
    (hu : Schema.Db.UniqueAt (S := schema) TableName.posts (s.apply w)) : Sound (s.apply w) := by
  have hold : ∀ k, ∀ x ∈ findPost (s.apply w) k, ∃ y k', y ∈ findPost s k' ∧ x.replyToId = y.replyToId ∧
      x.repostOfId = y.repostOfId ∧ x.kind = y.kind := by
    intro k x hx
    rw [hw] at hx
    split at hx
    · obtain ⟨y, hy, rfl⟩ := Option.map_eq_some_iff.mp hx
      exact ⟨y, p, hy, hf y⟩
    · exact ⟨x, k, hx, rfl, rfl, rfl⟩
  refine ⟨fun k x hx => ?_, fun k x hx hkind => ?_, hu⟩
  · obtain ⟨y, k', hy, hreply, hrepost, -⟩ := hold k x hx
    rw [hreply, hrepost]
    exact ⟨exists_apply s w (h.referenced k' y hy).1, exists_apply s w (h.referenced k' y hy).2⟩
  · obtain ⟨y, k', hy, hreply, -, hyk⟩ := hold k x hx
    rw [hreply]
    exact h.noReply k' y hy (hyk ▸ hkind)

theorem findPost_setCount (s : Db) (p : PostId) (c : Counter) (f : ℕ → ℕ) (k : PostId) :
    findPost (s.apply (setCount p c f)) k = if k = p then (findPost s p).map (fun x => x.setCount (f (x.count c)) c)
      else findPost s k := s.find?_apply (setCount p c f) k

theorem findPost_tombstone (s : Db) (p : PostId) (now : Instant) (k : PostId) :
    findPost (s.apply (tombstone p now)) k =
      if k = p then (findPost s p).map (fun x => { x with deletedAt := some now }) else findPost s k :=
  s.find?_apply (tombstone p now) k

theorem findPost_revive (s : Db) (p : PostId) (user : UserId) (target k : PostId) :
    findPost (s.apply (revive p user target)) k = if k = p then (findPost s p).map (fun x =>
      if x.Reposts user target then { x with deletedAt := none } else x) else findPost s k :=
  s.find?_apply (revive p user target) k

theorem findPost_insertPost (s : Db) (x : Post) (k : PostId) :
    findPost (s.apply (insertPost x)) k = if k = x.id then some ((findPost s x.id).getD x) else findPost s k :=
  s.find?_apply (insertPost x) k

theorem sound_setCount {s : Db} (h : Sound s) (p : PostId) (c : Counter) (f : ℕ → ℕ) :
    Sound (s.apply (setCount p c f)) :=
  h.update (findPost_setCount s p c f) (fun x => by cases c <;> exact ⟨rfl, rfl, rfl⟩)
    (Schema.Db.unique_apply (setCount p c f) h.unique (Schema.Db.freeFor_nil s _ _))

theorem sound_tombstone {s : Db} (h : Sound s) (p : PostId) (now : Instant) : Sound (s.apply (tombstone p now)) :=
  h.update (findPost_tombstone s p now) (fun _ => ⟨rfl, rfl, rfl⟩)
    (Schema.Db.unique_apply (tombstone p now) h.unique (Schema.Db.freeFor_nil s _ _))

theorem sound_revive {s : Db} (h : Sound s) {p : PostId} {user : UserId} {target : PostId}
    (hfree : s.FreeFor TableName.posts p [(user, target)]) : Sound (s.apply (revive p user target)) :=
  h.update (findPost_revive s p user target) (fun _ => by split <;> exact ⟨rfl, rfl, rfl⟩)
    (Schema.Db.unique_apply (revive p user target) h.unique hfree)

theorem sound_insertPost {s : Db} (h : Sound s) {x : Post} (hnone : findPost s x.id = none)
    (href : Db.Exists s x.replyToId ∧ Db.Exists s x.repostOfId) (hkind : x.kind = .repost → x.replyToId = none)
    (hfree : s.FreeFor TableName.posts x.id x.entries) :
    Sound (s.apply (insertPost x)) := by
  refine ⟨fun k y hy => ?_, fun k y hy => ?_, Schema.Db.unique_apply (insertPost x) h.unique hfree⟩
  · rw [findPost_insertPost, hnone] at hy
    split at hy
    · obtain rfl := Option.some.inj hy
      exact ⟨exists_apply s _ href.1, exists_apply s _ href.2⟩
    · exact ⟨exists_apply s _ (h.referenced k y hy).1, exists_apply s _ (h.referenced k y hy).2⟩
  · rw [findPost_insertPost, hnone] at hy
    split at hy
    · obtain rfl := Option.some.inj hy
      exact hkind
    · exact h.noReply k y hy

/-! ## Counts and tallies -/

theorem count_setCount (x : Post) (n : ℕ) (c c' : Counter) :
    (x.setCount n c).count c' = if c' = c then n else x.count c' := by
  cases c <;> cases c' <;> rfl

theorem adds_setCount (x : Post) (n : ℕ) (c c' : Counter) (p : PostId) :
    (x.setCount n c).adds c' p = x.adds c' p := by
  cases c <;> cases c' <;> rfl

theorem tally_posts_eq {s s' : Db} (hlikes : s' TableName.likes = s TableName.likes)
    (hsaves : s' TableName.saves = s TableName.saves) {n m : Counter → PostId → ℕ}
    (h : ∀ c p, (s' TableName.posts).total (fun x => x.adds c p) + n c p =
    (s TableName.posts).total (fun x => x.adds c p) + m c p)
    (hn : ∀ p, n .likes p = 0 ∧ m .likes p = 0 ∧ n .saves p = 0 ∧ m .saves p = 0) (c : Counter) (p : PostId) :
    tally s' c p + n c p = tally s c p + m c p := by
  obtain ⟨h1, h2, h3, h4⟩ := hn p
  cases c with
  | likes => rw [tally, tally, hlikes, h1, h2]
  | saves => rw [tally, tally, hsaves, h3, h4]
  | replies => exact h .replies p
  | reposts => exact h .reposts p

/-- A tally moves by what the written post was and is. -/
theorem tally_apply {s : Db} {w : Write} (old new : Option Post) (hl : w.name ≠ TableName.likes)
    (hs : w.name ≠ TableName.saves)
    (htotal : ∀ g : Post → ℕ, (s.apply w TableName.posts).total g + old.elim 0 g =
    (s TableName.posts).total g + new.elim 0 g)
    (c : Counter) (p : PostId) :
    tally (s.apply w) c p + old.elim 0 (fun x => x.adds c p) = tally s c p + new.elim 0 (fun x => x.adds c p) := by
  refine tally_posts_eq (s.apply_of_ne w hl.symm) (s.apply_of_ne w hs.symm) (fun c p => htotal (fun x => x.adds c p))
    (fun p => ⟨?_, ?_, ?_, ?_⟩) c p
  · cases old <;> rfl
  · cases new <;> rfl
  · cases old <;> rfl
  · cases new <;> rfl

theorem tally_setCount (s : Db) (p : PostId) (c : Counter) (f : ℕ → ℕ) (c' : Counter) (p' : PostId) :
    tally (s.apply (setCount p c f)) c' p' = tally s c' p' := by
  have h := tally_apply (findPost s p) ((findPost s p).map (fun x => x.setCount (f (x.count c)) c)) (by rintro ⟨⟩)
    (by rintro ⟨⟩)
    (fun g => s.total_apply (setCount p c f) g) c' p'
  have hsame : ((findPost s p).map (fun x => x.setCount (f (x.count c)) c)).elim 0 (fun x => x.adds c' p') =
      (findPost s p).elim 0 (fun x => x.adds c' p') := by
    cases findPost s p with
    | none => rfl
    | some x => exact adds_setCount x _ c c' p'
  exact Nat.add_right_cancel (h.trans (congrArg _ hsame))

theorem countOf_setCount (s : Db) {p : PostId} {x : Post} (hx : findPost s p = some x) (c : Counter) (f : ℕ → ℕ)
    (c' : Counter)
    (p' : PostId) :
    countOf (s.apply (setCount p c f)) c' p' = if c' = c ∧ p' = p then f (countOf s c p) else countOf s c' p' := by
  unfold countOf
  rw [findPost_setCount]
  by_cases hp : p' = p
  · subst hp
    rw [if_pos rfl, hx]
    simp only [Option.map_some, Option.elim_some, count_setCount, and_true]
  · rw [if_neg hp, if_neg (fun h => hp h.2)]

/-- A count that goes up comes closer to its tally by one. -/
theorem OffBy.up {s : Db} {e : Counter → PostId → ℤ} (h : OffBy s e) {p : PostId} (hp : (findPost s p).isSome)
    (c : Counter) :
    OffBy (s.apply (addOne p c)) (fun c' p' => e c' p' - one c p c' p') := by
  obtain ⟨x, hx⟩ := Option.isSome_iff_exists.mp hp
  intro c' p'
  have htally : tally (s.apply (addOne p c)) c' p' = tally s c' p' := tally_setCount s p c _ c' p'
  have hcount : countOf (s.apply (addOne p c)) c' p' =
    if c' = c ∧ p' = p then countOf s c p + 1 else countOf s c' p' :=
    countOf_setCount s hx c _ c' p'
  show (tally (s.apply (addOne p c)) c' p' : ℤ) = countOf (s.apply (addOne p c)) c' p' + (e c' p' - one c p c' p')
  rw [htally, hcount, h c' p']
  unfold one
  by_cases hcp : c' = c ∧ p' = p
  · obtain ⟨rfl, rfl⟩ := hcp
    simp only [and_self, if_true]
    omega
  · simp only [hcp, if_false]
    omega

/-- A count above its tally is not zero, so it goes down. -/
theorem OffBy.down {s : Db} {e : Counter → PostId → ℤ} (h : OffBy s e) {p : PostId} {c : Counter} (hneg : e c p < 0) :
    OffBy (s.apply (dropOne p c)) (fun c' p' => e c' p' + one c p c' p') := by
  have hpos : 0 < countOf s c p := by
    have hcp := h c p
    omega
  obtain ⟨x, hx⟩ : ∃ x, findPost s p = some x := by
    rcases hfind : findPost s p with _ | x
    · rw [countOf, hfind] at hpos
      exact absurd hpos (Nat.lt_irrefl 0)
    · exact ⟨x, rfl⟩
  intro c' p'
  have htally : tally (s.apply (dropOne p c)) c' p' = tally s c' p' := tally_setCount s p c _ c' p'
  have hcount : countOf (s.apply (dropOne p c)) c' p' =
    if c' = c ∧ p' = p then countOf s c p - 1 else countOf s c' p' :=
    countOf_setCount s hx c _ c' p'
  show (tally (s.apply (dropOne p c)) c' p' : ℤ) = countOf (s.apply (dropOne p c)) c' p' + (e c' p' + one c p c' p')
  rw [htally, hcount, h c' p']
  unfold one
  by_cases hcp : c' = c ∧ p' = p
  · obtain ⟨rfl, rfl⟩ := hcp
    simp only [and_self, if_true]
    omega
  · simp only [hcp, if_false]
    omega

/-- A post written without a change of its counts. -/
theorem OffBy.write {s : Db} {e : Counter → PostId → ℤ} (h : OffBy s e) {w : Write} (old new : Option Post)
    {d : Counter → PostId → ℤ} (hl : w.name ≠ TableName.likes) (hs : w.name ≠ TableName.saves)
    (htotal : ∀ g : Post → ℕ, (s.apply w TableName.posts).total g + old.elim 0 g =
    (s TableName.posts).total g + new.elim 0 g)
    (hcount : ∀ c p, countOf (s.apply w) c p = countOf s c p)
    (hd : ∀ c p, (new.elim 0 (fun x => x.adds c p) : ℤ) = old.elim 0 (fun x => (x.adds c p : ℤ)) + d c p) :
    OffBy (s.apply w) (fun c p => e c p + d c p) := by
  intro c p
  have hmoved := tally_apply old new hl hs htotal c p
  have hbefore := h c p
  have hdiff := hd c p
  show (tally (s.apply w) c p : ℤ) = countOf (s.apply w) c p + (e c p + d c p)
  rw [hcount]
  cases old <;> cases new <;> simp only [Option.elim_some, Option.elim_none] at hmoved hdiff <;> omega

theorem offBy_tombstone {s : Db} {e : Counter → PostId → ℤ} (h : OffBy s e) {p : PostId} {x : Post}
    (hx : findPost s p = some x)
    (now : Instant) : OffBy (s.apply (tombstone p now)) (fun c q => e c q + -(x.adds c q : ℤ)) := by
  refine h.write (some x) (some { x with deletedAt := some now }) (by rintro ⟨⟩) (by rintro ⟨⟩) (fun g => ?_)
    (fun c q => ?_)
    (fun c q => ?_)
  · have htotal := s.total_apply (tombstone p now) g
    have hrow : (s (tombstone p now).name).find? (tombstone p now).key = some x := hx
    rw [hrow] at htotal
    exact htotal
  · unfold countOf
    rw [findPost_tombstone, hx]
    split
    · next hq =>
      subst hq
      rw [hx]
      cases c <;> rfl
    · rfl
  · have hgone : ({ x with deletedAt := some now } : Post).adds c q = 0 := by cases c <;> simp [Post.adds, Post.Live]
    simp only [Option.elim_some, hgone]
    omega

theorem offBy_revive {s : Db} {e : Counter → PostId → ℤ} (h : OffBy s e) {p : PostId} {user : UserId}
    {target : PostId} {x : Post}
    (hx : findPost s p = some x) (hrepost : x.Reposts user target) (hdel : ¬ x.Live) (hreply : x.replyToId = none) :
    OffBy (s.apply (revive p user target)) (fun c q => e c q + one .reposts target c q) := by
  refine h.write (some x) (some { x with deletedAt := none }) (by rintro ⟨⟩) (by rintro ⟨⟩) (fun g => ?_)
    (fun c q => ?_)
    (fun c q => ?_)
  · have htotal := s.total_apply (revive p user target) g
    have hrow : (s (revive p user target).name).find? (revive p user target).key = some x := hx
    rw [hrow] at htotal
    have hrow' : (s.apply (revive p user target) TableName.posts).total g + g x =
        (s TableName.posts).total g + g (if x.Reposts user target then { x with deletedAt := none } else x) := htotal
    rw [if_pos hrepost] at hrow'
    exact hrow'
  · unfold countOf
    rw [findPost_revive, hx, Option.map_some, if_pos hrepost]
    split
    · next hq =>
      subst hq
      rw [hx]
      cases c <;> rfl
    · rfl
  · have hold : x.adds c q = 0 := by cases c <;> simp [Post.adds, hdel]
    simp only [Option.elim_some, hold]
    unfold one
    by_cases hq : q = target
    · subst hq
      cases c <;> simp [Post.adds, Post.Live, hreply, hrepost.2.1, hrepost.2.2]
    · have hq' : ¬ target = q := fun he => hq he.symm
      cases c <;> simp [Post.adds, Post.Live, hreply, hrepost.2.1, hrepost.2.2, hq, hq']

/-- A new post, whose counts are zero. -/
theorem offBy_insertPost {s : Db} {e : Counter → PostId → ℤ} (h : OffBy s e) {x : Post}
    (hnone : findPost s x.id = none)
    (hzero : ∀ c, x.count c = 0) :
    OffBy (s.apply (insertPost x)) (fun c q => e c q + x.adds c q) := by
  refine h.write none (some x) (by rintro ⟨⟩) (by rintro ⟨⟩) (fun g => ?_) (fun c q => ?_) (fun c q => ?_)
  · have htotal := s.total_apply (insertPost x) g
    have hrow : (s (insertPost x).name).find? (insertPost x).key = none := hnone
    rw [hrow] at htotal
    exact htotal
  · unfold countOf
    rw [findPost_insertPost, hnone]
    split
    · next hq =>
      subst hq
      rw [hnone]
      exact hzero c
    · rfl
  · simp

theorem tally_congr {s s' : Db} {c : Counter} (hposts : s' TableName.posts = s TableName.posts)
    (hlikes : c = .likes → s' TableName.likes = s TableName.likes)
    (hsaves : c = .saves → s' TableName.saves = s TableName.saves)
    (p : PostId) : tally s' c p = tally s c p := by
  cases c with
  | likes => rw [tally, tally, hlikes rfl]
  | saves => rw [tally, tally, hsaves rfl]
  | replies => rw [tally, tally, hposts]
  | reposts => rw [tally, tally, hposts]

/-- A row of one post comes to a table of marks, or goes. -/
theorem OffBy.marked {s : Db} {e : Counter → PostId → ℤ} (h : OffBy s e) {w : Write} (c₀ : Counter) (p₀ : PostId)
    (n m : ℕ)
    (hposts : w.name ≠ TableName.posts) (hlikes : c₀ ≠ .likes → w.name ≠ TableName.likes)
    (hsaves : c₀ ≠ .saves → w.name ≠ TableName.saves)
    (htally : ∀ p, tally (s.apply w) c₀ p + (if p₀ = p then n else 0) = tally s c₀ p + if p₀ = p then m else 0) :
    OffBy (s.apply w) (fun c p => e c p + if c = c₀ ∧ p = p₀ then (m : ℤ) - n else 0) := by
  intro c p
  have hcount : countOf (s.apply w) c p = countOf s c p := by
    rw [countOf, findPost, s.apply_of_ne w hposts.symm, countOf, findPost]
  have hbefore := h c p
  show (tally (s.apply w) c p : ℤ) = countOf (s.apply w) c p + (e c p + _)
  rw [hcount]
  by_cases hc : c = c₀
  · subst hc
    have hmoved := htally p
    by_cases hp : p = p₀
    · subst hp
      simp only [if_true, and_self] at hmoved ⊢
      omega
    · have hp' : ¬ p₀ = p := fun he => hp he.symm
      simp only [hp, hp', and_false, if_false] at hmoved ⊢
      omega
  · rw [tally_congr (s.apply_of_ne w hposts.symm) (fun hl => s.apply_of_ne w (hlikes (hl ▸ Ne.symm hc)).symm)
      (fun hs => s.apply_of_ne w (hsaves (hs ▸ Ne.symm hc)).symm), if_neg (fun hcp => hc hcp.1)]
    omega

theorem offBy_insertLike {s : Db} {e : Counter → PostId → ℤ} (h : OffBy s e) {p : PostId} {user : UserId}
    (hnone : (s TableName.likes).find? (p, user) = none) :
    OffBy (s.apply (insertLike p user))
      (fun c q => e c q + if c = .likes ∧ q = p then ((1 : ℕ) : ℤ) - (0 : ℕ) else 0) := by
  refine h.marked .likes p 0 1 (by rintro ⟨⟩) ?_ ?_ (fun q => ?_)
  · exact fun hne => absurd rfl hne
  · exact fun _ => by rintro ⟨⟩
  · have htotal := s.total_apply (insertLike p user) (fun m => if m.postId = q then 1 else 0)
    have hrow : (s (insertLike p user).name).find? (insertLike p user).key = none := hnone
    rw [hrow] at htotal
    rw [ite_self]
    exact htotal

theorem offBy_deleteLike {s : Db} {e : Counter → PostId → ℤ} (h : OffBy s e) {p : PostId} {user : UserId} {m : Mark}
    (hm : (s TableName.likes).find? (p, user) = some m) :
    OffBy (s.apply (deleteLike p user))
      (fun c q => e c q + if c = .likes ∧ q = p then ((0 : ℕ) : ℤ) - (1 : ℕ) else 0) := by
  refine h.marked .likes p 1 0 (by rintro ⟨⟩) ?_ ?_ (fun q => ?_)
  · exact fun hne => absurd rfl hne
  · exact fun _ => by rintro ⟨⟩
  · have htotal := s.total_apply (deleteLike p user) (fun m => if m.postId = q then 1 else 0)
    have hrow : (s (deleteLike p user).name).find? (deleteLike p user).key = some m := hm
    obtain rfl : m.postId = p := congrArg Prod.fst (Table.key_of_find? hm)
    rw [hrow] at htotal
    rw [ite_self]
    exact htotal

theorem offBy_insertSave {s : Db} {e : Counter → PostId → ℤ} (h : OffBy s e) {p : PostId} {user : UserId}
    (hnone : (s TableName.saves).find? (p, user) = none) :
    OffBy (s.apply (insertSave p user))
      (fun c q => e c q + if c = .saves ∧ q = p then ((1 : ℕ) : ℤ) - (0 : ℕ) else 0) := by
  refine h.marked .saves p 0 1 (by rintro ⟨⟩) ?_ ?_ (fun q => ?_)
  · exact fun _ => by rintro ⟨⟩
  · exact fun hne => absurd rfl hne
  · have htotal := s.total_apply (insertSave p user) (fun m => if m.postId = q then 1 else 0)
    have hrow : (s (insertSave p user).name).find? (insertSave p user).key = none := hnone
    rw [hrow] at htotal
    rw [ite_self]
    exact htotal

theorem offBy_deleteSave {s : Db} {e : Counter → PostId → ℤ} (h : OffBy s e) {p : PostId} {user : UserId} {m : Mark}
    (hm : (s TableName.saves).find? (p, user) = some m) :
    OffBy (s.apply (deleteSave p user))
      (fun c q => e c q + if c = .saves ∧ q = p then ((0 : ℕ) : ℤ) - (1 : ℕ) else 0) := by
  refine h.marked .saves p 1 0 (by rintro ⟨⟩) ?_ ?_ (fun q => ?_)
  · exact fun _ => by rintro ⟨⟩
  · exact fun hne => absurd rfl hne
  · have htotal := s.total_apply (deleteSave p user) (fun m => if m.postId = q then 1 else 0)
    have hrow : (s (deleteSave p user).name).find? (deleteSave p user).key = some m := hm
    obtain rfl : m.postId = p := congrArg Prod.fst (Table.key_of_find? hm)
    rw [hrow] at htotal
    rw [ite_self]
    exact htotal

/-! ## Operations -/

/-- Every count is the number of rows it stands for. -/
structure Exact (s : Db) : Prop where
  counts : OffBy s (fun _ _ => 0)
  sound : Sound s

section Statements

variable {held : List schema.Lock} {s : Db}

theorem wlp_updateCount {w : Write} {Q : List schema.Lock → Unit → Db → Prop} (h : ∀ held', Q held' () (s.apply w)) :
    schema.engine.wlp schema.engine.Agree held s (updateCount w) Q :=
  Schema.wlp_dml (fun _ _ => ⟨fun _ _ _ hg => absurd hg List.not_mem_nil, h _⟩)

theorem exists_of_agree {v : Db} (h : schema.engine.Agree held v s) {p : Option PostId} (hp : Db.Exists v p) :
    Db.Exists s p :=
  fun q hq => Schema.follows_of_agree h TableName.posts q (hp q hq)

theorem wlp_resolveOriginalTarget (p : PostId) {Q : List schema.Lock → Option PostId → Db → Prop}
    (h : ∀ t, Q held t s) :
    schema.engine.wlp schema.engine.Agree held s (resolveOriginalTarget p) Q := Engine.wlp_select _ (fun _ _ => h _)

theorem wlp_resolveLiveTarget (p : Option PostId) {Q : List schema.Lock → Option PostId → Db → Prop}
    (h : ∀ t, Q held t s) :
    schema.engine.wlp schema.engine.Agree held s (resolveLiveTarget p) Q := by
  cases p with
  | none => exact h none
  | some q =>
    unfold resolveLiveTarget
    rw [Engine.wlp_bind]
    refine wlp_resolveOriginalTarget q (fun t => ?_)
    cases t with
    | none => trivial
    | some t => exact h (some t)

/-- INSERT INTO posts refuses a row that refers to nothing, a taken id and a second live repost. -/
theorem wlp_insertPostRow (h : Sound s) {x : Post} (hkind : x.kind = .repost → x.replyToId = none)
    {Q : List schema.Lock → Bool → Db → Prop} (hfalse : ∀ held', Q held' false s)
    (htrue : ∀ held', findPost s x.id = none → Db.Exists s x.replyToId → Db.Exists s x.repostOfId →
      Sound (s.apply (insertPost x)) → Q held' true (s.apply (insertPost x))) :
    schema.engine.wlp schema.engine.Agree held s (insertPostRow x) Q := by
  unfold insertPostRow
  rw [Engine.wlp_bind]
  refine Engine.wlp_select _ (fun v hv => ?_)
  by_cases href : Db.Exists v x.replyToId ∧ Db.Exists v x.repostOfId
  · rw [decide_eq_true href, if_pos rfl]
    have href' := And.intro (exists_of_agree hv href.1) (exists_of_agree hv href.2)
    exact Schema.wlp_insertRow (fun _ hg => absurd hg List.not_mem_nil) (hfalse _)
      (fun hnone hfree => htrue _ hnone href'.1 href'.2 (sound_insertPost h hnone href' hkind hfree))
  · rw [decide_eq_false href, if_neg Bool.false_ne_true]
    trivial

/-- A reply is counted on a post that is live until the commit. -/
theorem wlp_countReply {p : Option PostId} {Q : List schema.Lock → Unit → Db → Prop} (hnone : p = none → Q held () s)
    (hsome : ∀ held' q y, p = some q → findPost s q = some y → y.Live → Q held' () (s.apply (addOne q .replies))) :
    schema.engine.wlp schema.engine.Agree held s (countReply p) Q := by
  cases p with
  | none => exact hnone rfl
  | some q =>
    unfold countReply
    rw [Engine.wlp_bind]
    refine Schema.wlp_updateFound (fun _ _ _ => trivial) (fun v y hv hy => ?_)
    obtain ⟨hfind, hlive⟩ := Option.filter_eq_some_iff.mp hy
    obtain rfl : y.id = q := Table.key_of_find? hfind
    have hrow : findPost s y.id = some y :=
      (Schema.row_of_held hv (List.mem_append_right _ (List.mem_cons_self ..))).trans hfind
    refine ⟨fun _ hg => absurd hg List.not_mem_nil, fun hclash => absurd (Schema.Db.freeFor_nil v _ _) hclash,
      fun _ => ?_⟩
    exact hsome _ y.id y rfl hrow (of_decide_eq_true hlive)

/-- The one deleted repost comes back, where there is one. -/
theorem wlp_reviveReposts (user : UserId) (target : PostId) {Q : List schema.Lock → Bool → Db → Prop}
    (hfalse : ∀ held', Q held' false s)
    (htrue : ∀ held' x, findPost s x.id = some x → x.Reposts user target → ¬ x.Live →
      s.FreeFor TableName.posts x.id [(user, target)] → Q held' true (s.apply (revive x.id user target))) :
    schema.engine.wlp schema.engine.Agree held s (reviveReposts user target) Q := by
  unfold reviveReposts
  rw [Engine.wlp_bind]
  refine Schema.wlp_updateFound (fun _ _ _ => hfalse _) (fun v x hv hx => ?_)
  obtain ⟨y, hy, rfl⟩ := Option.map_eq_some_iff.mp hx
  obtain ⟨hmem, hmatch⟩ := List.mem_filter.mp (List.mem_of_head? hy)
  obtain ⟨hrepost, hdel⟩ := of_decide_eq_true hmatch
  have hrow : findPost s y.id = some y :=
    (Schema.row_of_held hv (List.mem_append_right _ (List.mem_cons_self ..))).trans (Table.mem_rows_iff.mp hmem)
  refine ⟨fun _ hg => absurd hg List.not_mem_nil, fun _ => trivial, fun hfree => ?_⟩
  simp only
  split
  · exact htrue _ y hrow hrepost hdel hfree
  · trivial

theorem entry_of_live {x : Post} {user : UserId} {target : PostId} (h : x.Reposts user target) (hl : x.Live) :
    x.entries = [(user, target)] := by
  simp [Post.entries, h.1, h.2.1, h.2.2, hl]

/-- At most one live repost of the target is found, and it is locked. -/
theorem wlp_tombstoneReposts (h : Sound s) (user : UserId) (target : PostId) (now : Instant)
    {Q : List schema.Lock → Bool → Db → Prop} (hfalse : ∀ held', Q held' false s)
    (htrue : ∀ held' x, findPost s x.id = some x → x.Reposts user target → x.Live →
    Q held' true (s.apply (tombstone x.id now))) :
    schema.engine.wlp schema.engine.Agree held s
      (Schema.dml (fun s => (liveReposts s user target).map (fun x => tombstone x.id now))
        (fun s => decide (liveReposts s user target ≠ [])) : Transaction Bool) Q := by
  refine Schema.wlp_dml (fun v hv => ⟨fun _ _ _ hg => absurd hg List.not_mem_nil, ?_⟩)
  have hrow : ∀ x ∈ liveReposts v user target, findPost s x.id = some x ∧ x.Reposts user target ∧ x.Live := by
    intro x hx
    obtain ⟨hmem, hmatch⟩ := List.mem_filter.mp hx
    refine ⟨(Schema.row_of_held hv (List.mem_append_right _ ?_)).trans (Table.mem_rows_iff.mp hmem),
      of_decide_eq_true hmatch⟩
    exact List.mem_flatMap.mpr ⟨_, List.mem_map_of_mem hx, List.mem_cons_self ..⟩
  have hnodup : ((liveReposts v user target).map Post.id).Nodup :=
    (List.filter_sublist.map Post.id).nodup (v TableName.posts).nodup
  revert hrow hnodup hv
  cases liveReposts v user target with
  | nil => exact fun _ _ _ => hfalse _
  | cons x xs =>
    intro hv hrow hnodup
    obtain ⟨hx, hrepost, hlive⟩ := hrow x (List.mem_cons_self ..)
    cases xs with
    | nil => exact htrue _ x hx hrepost hlive
    | cons y ys =>
      obtain ⟨hy, hrepost', hlive'⟩ := hrow y (by simp)
      have hid : x.id = y.id := h.unique x.id y.id x hx y hy (user, target)
        (by simp [entriesOf, entry_of_live hrepost hlive]) (by simp [entriesOf, entry_of_live hrepost' hlive'])
      simp [hid] at hnodup

end Statements

/-- A new reply stands under a post that is live when it commits. -/
def Under (id : PostId) (s s' : Db) : Prop :=
  ∃ x ∈ findPost s' id, ∀ q ∈ x.replyToId, ∃ y ∈ findPost s q, y.Live

section Operations

variable {s : Db}

theorem adds_newPost (id : PostId) (author : UserId) (kind : PostKind) (replyTo repostOf : Option PostId)
    (c : Counter)
    (q : PostId) :
    (newPost id author kind replyTo repostOf).adds c q =
      (if c = .replies ∧ replyTo = some q then 1 else 0) +
        if c = .reposts ∧ kind = .repost ∧ repostOf = some q then 1 else 0 := by
  cases c <;> simp [Post.adds, newPost, Post.Live]

/-- A reply moves the tally that its parent's count stands for. -/
theorem adds_reply {kind : PostKind} (hkind : kind ≠ .repost) (id : PostId) (author : UserId) (p : PostId)
    (repostOf : Option PostId) (c : Counter) (q : PostId) :
    ((newPost id author kind (some p) repostOf).adds c q : ℤ) = one .replies p c q := by
  have hnone : ¬ (c = .reposts ∧ kind = .repost ∧ repostOf = some q) := fun h => hkind h.2.1
  have hcomm : (c = .replies ∧ some p = some q) ↔ (c = .replies ∧ q = p) :=
    and_congr_right' (Option.some.injEq p q ▸ eq_comm)
  rw [adds_newPost, if_neg hnone]
  unfold one
  simp only [hcomm]
  split <;> rfl

theorem createPost_keeps (id : PostId) (author : UserId) (kind : ComposeKind) (replyTo repostOf : Option PostId)
    (h : Exact s) :
    schema.engine.wlp schema.engine.Agree [] s (createPost id author kind replyTo repostOf)
      (fun _ _ s' => Exact s' ∧ Under id s s') := by
  have hkind : kind.toKind ≠ .repost := by cases kind <;> exact fun hk => PostKind.noConfusion hk
  unfold createPost
  rw [Engine.wlp_bind]
  refine wlp_resolveLiveTarget replyTo (fun replyToId => ?_)
  rw [Engine.wlp_bind]
  refine wlp_resolveLiveTarget repostOf (fun repostOfId => ?_)
  rw [Engine.wlp_bind]
  refine wlp_insertPostRow h.sound (fun hk => absurd hk hkind) (fun _ => trivial)
    (fun held' hnone hreply hrepost hsound => ?_)
  have hcounts := offBy_insertPost h.counts hnone (fun c => by cases c <;> rfl)
  have hnew : ∀ k, findPost (s.apply (insertPost (newPost id author kind.toKind replyToId repostOfId))) k =
      if k = id then some (newPost id author kind.toKind replyToId repostOfId) else findPost s k := by
    intro k
    rw [findPost_insertPost, hnone]
    rfl
  simp only [if_true]
  rw [Engine.wlp_bind]
  refine wlp_countReply (fun hp => ?_) (fun held'' q y hp hy hlive => ?_)
  · subst hp
    refine ⟨⟨hcounts.congr (fun c q => ?_), hsound⟩, ?_⟩
    · have hreplies : ¬ (c = .replies ∧ (none : Option PostId) = some q) := by simp
      have hreposts : ¬ (c = .reposts ∧ kind.toKind = .repost ∧ repostOfId = some q) := fun h => hkind h.2.1
      rw [adds_newPost, if_neg hreplies, if_neg hreposts]
      rfl
    · exact ⟨_, (hnew id).trans (if_pos rfl), fun q hq => absurd hq (Option.not_mem_none q)⟩
  · subst hp
    have hcounted := hcounts.up (Option.isSome_iff_exists.mpr ⟨y, hy⟩) .replies
    have hold : q ≠ id := by
      rintro rfl
      have hex := hreply q rfl
      rw [show findPost s q = none from hnone] at hex
      exact absurd hex Bool.false_ne_true
    refine ⟨⟨hcounted.congr (fun c q' => ?_), sound_setCount hsound _ _ _⟩, ?_⟩
    · rw [adds_reply hkind]
      omega
    · refine ⟨newPost id author kind.toKind (some q) repostOfId, ?_, fun q' hq' => ?_⟩
      · exact (findPost_setCount _ q _ _ id).trans ((if_neg (Ne.symm hold)).trans ((hnew id).trans (if_pos rfl)))
      · obtain rfl := Option.some.inj hq'
        refine ⟨y, ?_, hlive⟩
        have hy' := hy
        rw [hnew, if_neg hold] at hy'
        exact hy'

/-- A mark that is new is counted once. -/
theorem mark_keeps {w : Write} {p : PostId} {c : Counter} (h : Exact s) (hw : w.name ≠ TableName.posts)
    (hcounts : (s w.name).find? w.key = none → OffBy (s.apply w) (one c p)) :
    schema.engine.wlp schema.engine.Agree [] s (mark w p c) (fun _ _ s' => Exact s') := by
  unfold mark
  rw [Engine.wlp_bind]
  refine Engine.wlp_select _ (fun v hv => ?_)
  cases hp : (findPost v p).isSome with
  | false => trivial
  | true =>
    have hexists : (findPost s p).isSome := Schema.follows_of_agree hv TableName.posts p hp
    simp only [if_true]
    rw [Engine.wlp_bind]
    refine Schema.wlp_insertRow (fun _ hg => absurd hg List.not_mem_nil) h (fun hnone _ => ?_)
    simp only [if_true]
    rw [Engine.wlp_bind]
    refine wlp_updateCount (fun held' => ⟨?_, sound_setCount (sound_of_table h.sound hw) _ _ _⟩)
    have hthere : (findPost (s.apply w) p).isSome := s.evolves_write w TableName.posts p hexists
    exact ((hcounts hnone).up hthere c).congr (fun c' q => Int.sub_self _)

/-- A mark that is taken back was counted. -/
theorem unmark_keeps {find : Db → Option Mark} {w : Write} {p : PostId} {c : Counter} (h : Exact s)
    (hw : w.name ≠ TableName.posts) (hmoves : w.moves = [])
    (hcounts : ∀ v m, schema.engine.Agree ([] ++ w.locks) v s → find v = some m →
      OffBy (s.apply w) (fun c' q => - one c p c' q)) :
    schema.engine.wlp schema.engine.Agree [] s (unmark find w p c) (fun _ _ s' => Exact s') := by
  unfold unmark
  rw [Engine.wlp_bind]
  refine Schema.wlp_updateFound (fun _ _ _ => h) (fun v m hv hm => ?_)
  refine ⟨fun _ hg => absurd hg List.not_mem_nil, fun hclash => ?_, fun _ => ?_⟩
  · rw [hmoves] at hclash
    exact absurd (Schema.Db.freeFor_nil v _ _) hclash
  · simp only
    rw [Engine.wlp_bind]
    refine wlp_updateCount (fun held' => ⟨?_, sound_setCount (sound_of_table h.sound hw) _ _ _⟩)
    have hdrop := hcounts v m hv hm
    have hneg : - one c p c p < 0 := by
      unfold one
      rw [if_pos ⟨rfl, rfl⟩]
      omega
    exact (hdrop.down hneg).congr (fun c' q => by omega)

theorem like_keeps (p : PostId) (user : UserId) (h : Exact s) :
    schema.engine.wlp schema.engine.Agree [] s (like p user) (fun _ _ s' => Exact s') := by
  refine mark_keeps h (by rintro ⟨⟩) (fun hnone => (offBy_insertLike h.counts hnone).congr (fun c q => ?_))
  unfold one
  split <;> omega

theorem save_keeps (p : PostId) (user : UserId) (h : Exact s) :
    schema.engine.wlp schema.engine.Agree [] s (save p user) (fun _ _ s' => Exact s') := by
  refine mark_keeps h (by rintro ⟨⟩) (fun hnone => (offBy_insertSave h.counts hnone).congr (fun c q => ?_))
  unfold one
  split <;> omega

theorem unlike_keeps (p : PostId) (user : UserId) (h : Exact s) :
    schema.engine.wlp schema.engine.Agree [] s (unlike p user) (fun _ _ s' => Exact s') := by
  refine unmark_keeps h (by rintro ⟨⟩) rfl (fun v m hv hm => ?_)
  have hrow : (s TableName.likes).find? (p, user) = some m :=
    (Schema.row_of_held hv (List.mem_append_right _ (List.mem_cons_self ..))).trans hm
  refine (offBy_deleteLike h.counts hrow).congr (fun c q => ?_)
  unfold one
  split <;> omega

theorem unsave_keeps (p : PostId) (user : UserId) (h : Exact s) :
    schema.engine.wlp schema.engine.Agree [] s (unsave p user) (fun _ _ s' => Exact s') := by
  refine unmark_keeps h (by rintro ⟨⟩) rfl (fun v m hv hm => ?_)
  have hrow : (s TableName.saves).find? (p, user) = some m :=
    (Schema.row_of_held hv (List.mem_append_right _ (List.mem_cons_self ..))).trans hm
  refine (offBy_deleteSave h.counts hrow).congr (fun c q => ?_)
  unfold one
  split <;> omega

/-- The target of a repost is a post, and a new or revived repost counts for it once. -/
theorem repost_keeps (p : PostId) (user : UserId) (newId : PostId) (h : Exact s) :
    schema.engine.wlp schema.engine.Agree [] s (repost p user newId) (fun _ _ s' => Exact s') := by
  unfold repost
  rw [Engine.wlp_bind]
  refine wlp_resolveOriginalTarget p (fun t => ?_)
  cases t with
  | none => exact h
  | some target =>
    simp only
    rw [Engine.wlp_bind]
    refine wlp_reviveReposts user target (fun held' => ?_) (fun held' x hx hrepost hdel hfree => ?_)
    · simp only [Bool.false_eq_true, if_false]
      rw [Engine.wlp_bind]
      refine wlp_insertPostRow h.sound (fun _ => rfl) (fun _ => h) (fun held'' hnone _ hreposted hsound => ?_)
      simp only [if_true]
      rw [Engine.wlp_bind]
      have hcounts := offBy_insertPost h.counts hnone (fun c => by cases c <;> rfl)
      have hthere := exists_apply s (insertPost (newPost newId user .repost none (some target))) hreposted target rfl
      refine wlp_updateCount (fun _ => ⟨(hcounts.up hthere .reposts).congr (fun c q => ?_),
        sound_setCount hsound _ _ _⟩)
      have hadds : (newPost newId user .repost none (some target)).adds c q =
        if c = .reposts ∧ q = target then 1 else 0 := by
        rw [adds_newPost]
        simp [eq_comm]
      rw [hadds]
      unfold one
      split <;> rfl
    · simp only [if_true]
      rw [Engine.wlp_bind]
      have hreply := h.sound.noReply x.id x hx hrepost.2.1
      have hcounts := offBy_revive h.counts hx hrepost hdel hreply
      have hthere := (exists_apply s (revive x.id user target) (h.sound.referenced x.id x hx).2) target hrepost.2.2
      refine wlp_updateCount (fun _ => ⟨(hcounts.up hthere .reposts).congr (fun c q => ?_),
        sound_setCount (sound_revive h.sound hfree) _ _ _⟩)
      omega

theorem cast_one_if (P : Prop) [Decidable P] : ((if P then 1 else 0 : ℕ) : ℤ) = if P then 1 else 0 := by
  split <;> rfl

theorem adds_repost {x : Post} {user : UserId} {target : PostId} (hrepost : x.Reposts user target) (hlive : x.Live)
    (hreply : x.replyToId = none) (c : Counter) (q : PostId) : (x.adds c q : ℤ) = one .reposts target c q := by
  unfold one
  cases c with
  | likes | saves | replies => simp [Post.adds, hreply]
  | reposts =>
    have hadds : x.adds .reposts q = if q = target then 1 else 0 := by
      simp [Post.adds, hlive, hrepost.2.1, hrepost.2.2, eq_comm]
    rw [hadds, cast_one_if]
    simp

theorem unrepost_keeps (p : PostId) (user : UserId) (now : Instant) (h : Exact s) :
    schema.engine.wlp schema.engine.Agree [] s (unrepost p user now) (fun _ _ s' => Exact s') := by
  unfold unrepost
  rw [Engine.wlp_bind]
  refine wlp_resolveOriginalTarget p (fun t => ?_)
  cases t with
  | none => exact h
  | some target =>
    simp only
    rw [Engine.wlp_bind]
    refine wlp_tombstoneReposts h.sound user target now (fun _ => h) (fun held' x hx hrepost hlive => ?_)
    simp only [if_true]
    rw [Engine.wlp_bind]
    have hadds := adds_repost hrepost hlive (h.sound.noReply x.id x hx hrepost.2.1)
    have hcounts := offBy_tombstone h.counts hx now
    have hneg : (0 : ℤ) + -((x.adds .reposts target : ℕ) : ℤ) < 0 := by
      rw [hadds, one, if_pos ⟨rfl, rfl⟩]
      omega
    refine wlp_updateCount (fun _ => ⟨(hcounts.down hneg).congr (fun c q => ?_),
      sound_setCount (sound_tombstone h.sound x.id now) _ _ _⟩)
    rw [hadds]
    omega

/-- A count that a tombstoned row stood in goes down. -/
theorem wlp_dropCount {held : List schema.Lock} {e : Counter → PostId → ℤ} (c : Counter) (p : Option PostId)
    (h : OffBy s e) (hsound : Sound s) (hneg : ∀ q ∈ p, e c q < 0) {Q : List schema.Lock → Unit → Db → Prop}
    (hQ : ∀ held' s', OffBy s' (fun c' q => e c' q + if c' = c ∧ p = some q then 1 else 0) → Sound s' →
    Q held' () s') :
    schema.engine.wlp schema.engine.Agree held s (dropCount c p) Q := by
  cases p with
  | none => exact hQ held s (h.congr (fun c' q => by simp)) hsound
  | some q =>
    refine wlp_updateCount (fun held' => hQ held' _ ((h.down (hneg q rfl)).congr (fun c' q' => ?_))
      (sound_setCount hsound _ _ _))
    unfold one
    simp [eq_comm]

theorem tombstonePostInTx_keeps (p : PostId) (now : Instant) (h : Exact s) :
    schema.engine.wlp schema.engine.Agree [] s (tombstonePostInTx p now) (fun _ _ s' => Exact s') := by
  unfold tombstonePostInTx
  rw [Engine.wlp_bind]
  refine Schema.wlp_updateFound (fun _ _ _ => h) (fun v x hv hx => ?_)
  obtain ⟨hfind, hlive⟩ := Option.filter_eq_some_iff.mp hx
  replace hlive : x.Live := of_decide_eq_true hlive
  obtain rfl : x.id = p := Table.key_of_find? hfind
  have hrow : findPost s x.id = some x :=
    (Schema.row_of_held hv (List.mem_append_right _ (List.mem_cons_self ..))).trans hfind
  refine ⟨fun _ hg => absurd hg List.not_mem_nil, fun hclash => absurd (Schema.Db.freeFor_nil v _ _) hclash,
    fun _ => ?_⟩
  simp only
  rw [Engine.wlp_bind]
  have hreplies : ∀ q, (x.adds .replies q : ℤ) = if x.replyToId = some q then 1 else 0 := by
    intro q
    rw [← cast_one_if]
    simp [Post.adds, hlive]
  refine wlp_dropCount .replies x.replyToId (offBy_tombstone h.counts hrow now) (sound_tombstone h.sound x.id now)
    (fun q hq => ?_) (fun held' s' hcounts hsound => ?_)
  · rw [hreplies, if_pos (Option.mem_def.mp hq)]
    omega
  by_cases hkind : x.kind = .repost
  · have hreposts : ∀ q, (x.adds .reposts q : ℤ) = if x.repostOfId = some q then 1 else 0 := by
      intro q
      rw [← cast_one_if]
      simp [Post.adds, hlive, hkind]
    rw [if_pos hkind, Engine.wlp_bind]
    refine wlp_dropCount .reposts x.repostOfId hcounts hsound (fun q hq => ?_) (fun held'' s'' hcounts' hsound' => ?_)
    · rw [hreposts, if_pos (Option.mem_def.mp hq)]
      simp
    · refine ⟨hcounts'.congr (fun c q => ?_), hsound'⟩
      cases c with
      | likes => rfl
      | saves => rfl
      | replies => rw [hreplies]; simp
      | reposts => rw [hreposts]; simp
  · rw [if_neg hkind]
    refine ⟨hcounts.congr (fun c q => ?_), hsound⟩
    cases c with
    | likes => rfl
    | saves => rfl
    | replies => rw [hreplies]; simp
    | reposts => simp [Post.adds, hkind]

end Operations

theorem program_keeps : schema.engine.Keeps program Exact := by
  intro o s h
  cases o with
  | createPost id author kind replyTo repostOf =>
    exact schema.engine.wlp_mono (fun _ _ _ hs => hs.1) (createPost_keeps id author kind replyTo repostOf h)
  | like p user => exact like_keeps p user h
  | unlike p user => exact unlike_keeps p user h
  | save p user => exact save_keeps p user h
  | unsave p user => exact unsave_keeps p user h
  | repost p user newId => exact repost_keeps p user newId h
  | unrepost p user now => exact unrepost_keeps p user now h
  | remove p now => exact tombstonePostInTx_keeps p now h

theorem exact_noRows {s : Db} (hs : s = noRows) : Exact s := by
  subst hs
  have hfind : ∀ p, findPost noRows p = none := fun p => Table.find?_empty p
  have hempty : ∀ c p, tally noRows c p = 0 := by
    intro c p
    cases c <;> rfl
  refine ⟨fun c p => ?_, fun p x hx => ?_, fun p x hx => ?_, fun k _ x hx => ?_⟩
  · rw [hempty, countOf, hfind]
    rfl
  · exact absurd hx (hfind p ▸ Option.not_mem_none x)
  · exact absurd hx (hfind p ▸ Option.not_mem_none x)
  · exact absurd ((hfind k).symm.trans hx) (by rintro ⟨⟩)

theorem length_rows (s : Db) (t : TableName) (P : RowOf t → Prop) [DecidablePred P] :
    ((s t).rows.filter (fun r => decide (P r))).length = (s t).total (fun r => if P r then 1 else 0) := by
  rw [← Table.sum_filter]
  simp

/-- In every interleaving from the empty database, the four counts of every post are the numbers of its
likes, its saves, its live replies and its live reposts; and the post that a creation commits is a reply
only to a post that is live at that commit. -/
theorem counters_are_exact {w : World} (h : Reachable w) :
    (∀ p, ∀ x ∈ findPost w.db p,
      x.likeCount = ((w.db TableName.likes).rows.filter (fun m => decide (m.postId = p))).length ∧
      x.saveCount = ((w.db TableName.saves).rows.filter (fun m => decide (m.postId = p))).length ∧
      x.replyCount = ((w.db TableName.posts).rows.filter (fun y => decide (y.Live ∧ y.replyToId = some p))).length ∧
      x.repostCount = ((w.db TableName.posts).rows.filter
        (fun y => decide (y.Live ∧ y.kind = .repost ∧ y.repostOfId = some p))).length) ∧
    ∀ i id author kind replyTo repostOf a ws held,
      w.sessions i = some ⟨.createPost id author kind replyTo repostOf, .commit a, ws, held⟩ →
      ∃ x ∈ findPost (schema.engine.applyAll w.db ws) id, ∀ q ∈ x.replyToId, ∃ y ∈ findPost w.db q, y.Live := by
  have hexact : Exact w.db := Engine.Reachable.invariant (fun _ => exact_noRows) program_keeps h
  refine ⟨fun p x hx => ?_, fun i id author kind replyTo repostOf a ws held hi => ?_⟩
  · have hcount : ∀ c, x.count c = tally w.db c p := by
      intro c
      have hc := hexact.counts c p
      rw [countOf, hx] at hc
      simp only [Option.elim_some] at hc
      omega
    refine ⟨(hcount .likes).trans ?_, (hcount .saves).trans ?_, (hcount .replies).trans ?_,
      (hcount .reposts).trans ?_⟩
    · exact (length_rows w.db .likes (fun m => m.postId = p)).symm
    · exact (length_rows w.db .saves (fun m => m.postId = p)).symm
    · exact (length_rows w.db .posts (fun y => y.Live ∧ y.replyToId = some p)).symm
    · exact (length_rows w.db .posts (fun y => y.Live ∧ y.kind = .repost ∧ y.repostOfId = some p)).symm
  · exact Engine.Reachable.finished (fun _ => exact_noRows) program_keeps h hi (fun s hs =>
      schema.engine.wlp_mono (fun _ _ _ hk => hk.2) (createPost_keeps id author kind replyTo repostOf hs))

/-- A post with a like, a save, a removed reply, a reply through its repost, and a repost that was taken
back and brought to life again. -/
def discussed : List Operation :=
  [.createPost 1 7 .post none none, .createPost 2 8 .reply (some 1) none, .like 1 8, .save 1 9, .repost 1 9 3,
    .createPost 4 8 .reply (some 3) none, .unrepost 1 9 50, .repost 1 9 5, .remove 2 60]

/-- Each of its counts is one. -/
theorem discussed_counts :
    ∃ (w : World) (x : Post), findPost w.db 1 = some x ∧ (∀ c, x.count c = 1) ∧
      x.likeCount = ((w.db TableName.likes).rows.filter (fun m => decide (m.postId = 1))).length ∧
      x.saveCount = ((w.db TableName.saves).rows.filter (fun m => decide (m.postId = 1))).length ∧
      x.replyCount = ((w.db TableName.posts).rows.filter (fun y => decide (y.Live ∧ y.replyToId = some 1))).length ∧
      x.repostCount = ((w.db TableName.posts).rows.filter
        (fun y => decide (y.Live ∧ y.kind = .repost ∧ y.repostOfId = some 1))).length := by
  have hrun : (findPost (afterAll discussed) 1).any (fun x => decide (x.count .likes = 1 ∧ x.count .saves = 1 ∧
      x.count .replies = 1 ∧ x.count .reposts = 1)) = true := by decide +kernel
  have hw := reachable_afterAll discussed
  generalize afterAll discussed = d at hrun hw
  obtain ⟨x, hx, hP⟩ := Option.any_eq_true _ _ |>.mp hrun
  obtain ⟨hl, hs, hr, hp⟩ := of_decide_eq_true hP
  refine ⟨.quiet d, x, hx, fun c => ?_, (counters_are_exact hw).1 1 x hx⟩
  cases c with
  | likes => exact hl
  | saves => exact hs
  | replies => exact hr
  | reposts => exact hp

end Civfix.Posts
