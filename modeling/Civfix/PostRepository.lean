import Civfix.RelationalStores

/-! # Posts, likes and saves

The tables behind the community posts and the transactions that write them: `createPost`, `like`,
`unlike`, `save`, `unsave`, `repost`, `unrepost` and `tombstonePostInTx`, which both the author's deletion
and the moderator's removal run. A post keeps four denormalized counts, and a deleted post keeps its row.

What a post says and what it attaches is left out; a claim of media that fails rolls the creation back. -/
namespace Civfix.Posts

open KeyedTables LockedTransactions RelationalStores

abbrev PostId := ℕ
abbrev UserId := ℕ
abbrev Instant := ℕ

inductive PostKind | post | reply | quote | repost deriving DecidableEq

/-- `ComposeKind`: what `createPost` is given. -/
inductive ComposeKind | post | reply | quote

def ComposeKind.toKind : ComposeKind → PostKind
  | .post => .post
  | .reply => .reply
  | .quote => .quote

structure Post where
  id : PostId
  authorId : UserId
  kind : PostKind
  replyToId : Option PostId
  repostOfId : Option PostId
  deletedAt : Option Instant
  likeCount : ℕ
  replyCount : ℕ
  repostCount : ℕ
  saveCount : ℕ

/-- A row of `post_likes` or of `post_saves`. -/
structure Mark where
  postId : PostId
  userId : UserId

/-! ## Tables -/

inductive TableName | posts | likes | saves deriving DecidableEq

@[reducible] def RowOf : TableName → Type
  | .posts => Post
  | .likes => Mark
  | .saves => Mark

@[reducible] def KeyOf : TableName → Type
  | .posts => PostId
  | .likes => PostId × UserId
  | .saves => PostId × UserId

def keyOf : ∀ t, RowOf t → KeyOf t
  | .posts, p => Post.id p
  | .likes, m => (Mark.postId m, Mark.userId m)
  | .saves, m => (Mark.postId m, Mark.userId m)

instance : ∀ t, DecidableEq (KeyOf t)
  | .posts => inferInstanceAs (DecidableEq ℕ)
  | .likes | .saves => inferInstanceAs (DecidableEq (ℕ × ℕ))

/-- `posts_repost_unique_idx`: the author and the target of a live repost. -/
abbrev RepostEntry := UserId × PostId

def Post.Live (p : Post) : Prop := p.deletedAt = none

instance (p : Post) : Decidable p.Live := inferInstanceAs (Decidable (_ = _))

/-- The row is a repost of the target by the account, live or deleted. -/
def Post.Reposts (user : UserId) (target : PostId) (p : Post) : Prop :=
  p.authorId = user ∧ p.kind = .repost ∧ p.repostOfId = some target

instance (user : UserId) (target : PostId) (p : Post) : Decidable (p.Reposts user target) :=
  inferInstanceAs (Decidable (_ ∧ _ ∧ _))

def Post.entries (p : Post) : List RepostEntry :=
  if p.kind = .repost ∧ p.Live then p.repostOfId.toList.map (fun t => (p.authorId, t)) else []

def entriesOf : ∀ t, RowOf t → List RepostEntry
  | .posts, p => Post.entries p
  | .likes, _ | .saves, _ => []

/-- A row of `posts` is never removed. -/
def Follows : ∀ t, Option (RowOf t) → Option (RowOf t) → Prop
  | .posts, x, y => x.isSome → y.isSome
  | .likes, _, _ | .saves, _, _ => True

theorem follows_refl : ∀ t x, Follows t x x
  | .posts, _ => id
  | .likes, _ | .saves, _ => trivial

theorem follows_trans : ∀ t x y z, Follows t x y → Follows t y z → Follows t x z
  | .posts, _, _, _ => fun h h' hx => h' (h hx)
  | .likes, _, _, _ | .saves, _, _, _ => fun _ _ => trivial

@[reducible] def schema : Schema where
  Name := TableName
  Key := KeyOf
  Row := RowOf
  key := keyOf
  Entry := RepostEntry
  entries := entriesOf
  guards := fun _ _ => []
  Follows := Follows
  follows_refl := follows_refl
  follows_trans := follows_trans
  decName := inferInstance
  decKey := inferInstance
  decEntry := inferInstance

abbrev Db := schema.Db
abbrev Write := schema.Write

def noRows : Db := fun t => Table.empty (keyOf t)

/-! ## Writes -/

inductive Counter | likes | saves | replies | reposts deriving DecidableEq

def Post.count (p : Post) : Counter → ℕ
  | .likes => p.likeCount
  | .saves => p.saveCount
  | .replies => p.replyCount
  | .reposts => p.repostCount

def Post.setCount (p : Post) (n : ℕ) : Counter → Post
  | .likes => { p with likeCount := n }
  | .saves => { p with saveCount := n }
  | .replies => { p with replyCount := n }
  | .reposts => { p with repostCount := n }

theorem setCount_id (p : Post) (n : ℕ) (c : Counter) : (p.setCount n c).id = p.id := by cases c <;> rfl

theorem setCount_entries (p : Post) (n : ℕ) (c : Counter) : (p.setCount n c).entries = p.entries := by cases c <;> rfl

/-- `SET count = f(count) WHERE id = ...`. -/
def setCount (p : PostId) (c : Counter) (f : ℕ → ℕ) : Write :=
  .update TableName.posts p (fun x : Post => x.setCount (f (x.count c)) c) [] (fun x => setCount_id x _ c)
    (fun _ h => h)
    (fun x e he => .inr (by
      simp only [entriesOf, setCount_entries] at he
      exact he))

def addOne (p : PostId) (c : Counter) : Write := setCount p c (fun n => n + 1)

/-- `GREATEST(count - 1, 0)`. -/
def dropOne (p : PostId) (c : Counter) : Write := setCount p c (fun n => n - 1)

def insertPost (p : Post) : Write := .insert TableName.posts p (fun _ => rfl)

/-- `SET deleted_at = now()`. -/
def tombstone (p : PostId) (now : Instant) : Write :=
  .update TableName.posts p (fun x : Post => { x with deletedAt := some now }) [] (fun _ => rfl) (fun _ h => h)
    (fun x e he => absurd he (by simp [entriesOf, Post.entries, Post.Live]))

/-- `SET deleted_at = NULL`, of a repost of the target by the account. -/
def revive (p : PostId) (user : UserId) (target : PostId) : Write :=
  .update TableName.posts p (fun x : Post => if x.Reposts user target then { x with deletedAt := none } else x)
    [(user, target)] (fun x => by split <;> rfl) (fun _ h => h) (by
      intro x e he
      simp only [entriesOf] at he ⊢
      split at he
      · next hx =>
        refine .inl ?_
        simp only [Post.entries, hx.2.1, hx.2.2, Post.Live, true_and, if_true, Option.toList_some, List.map_cons,
          List.map_nil,
          hx.1] at he
        exact he
      · exact .inr he)

def insertLike (p : PostId) (user : UserId) : Write := .insert TableName.likes (⟨p, user⟩ : Mark) trivial

def deleteLike (p : PostId) (user : UserId) : Write := .delete TableName.likes (p, user) (fun _ => trivial)

def insertSave (p : PostId) (user : UserId) : Write := .insert TableName.saves (⟨p, user⟩ : Mark) trivial

def deleteSave (p : PostId) (user : UserId) : Write := .delete TableName.saves (p, user) (fun _ => trivial)

/-! ## Transactions -/

inductive Refusal | notFound | foreignKey | uniqueViolation

inductive Outcome
  | created (id : PostId)
  /-- Whether the call changed anything. -/
  | applied (changed : Bool)
  | target (id : PostId) (changed : Bool)

abbrev Transaction := schema.Transaction Refusal

def findPost (s : Db) (p : PostId) : Option Post := (s TableName.posts).find? p

def Db.Exists (s : Db) (p : Option PostId) : Prop := ∀ q ∈ p, (findPost s q).isSome

instance (s : Db) (p : Option PostId) : Decidable (Db.Exists s p) := inferInstanceAs (Decidable (∀ q ∈ p, _))

/-- `UPDATE posts SET count = ... WHERE id = ...`. -/
def updateCount (w : Write) : Transaction Unit := Schema.dml (fun _ => [w]) (fun _ => ())

/-- The original of a repost, or the post itself; none when the post is deleted. -/
def resolveOriginalTarget (p : PostId) : Transaction (Option PostId) :=
  Tx.select (fun s => ((findPost s p).filter (fun x => decide x.Live)).map
    (fun x => if x.kind = .repost then x.repostOfId.getD x.id else x.id))

def resolveLiveTarget : Option PostId → Transaction (Option PostId)
  | none => pure none
  | some p => do
    match ← resolveOriginalTarget p with
    | none => .abort .notFound
    | some t => pure (some t)

/-- INSERT INTO posts: the posts that the row names must exist. -/
def insertPostRow (p : Post) : Transaction Bool := do
  if ← Tx.select (fun s => decide (Db.Exists s p.replyToId ∧ Db.Exists s p.repostOfId)) then
    Schema.insertRow (insertPost p)
  else .abort .foreignKey

/-- `UPDATE posts SET reply_count = reply_count + 1 WHERE id = ... AND deleted_at IS NULL`. -/
def countReply : Option PostId → Transaction Unit
  | none => pure ()
  | some p => do
    let bumped ← Schema.updateFound (fun s => (findPost s p).filter (fun x => decide x.Live))
      (fun x => addOne x.id .replies)
    if bumped.isSome then pure () else .abort .notFound

def newPost (id : PostId) (author : UserId) (kind : PostKind) (replyTo repostOf : Option PostId) : Post :=
  ⟨id, author, kind, replyTo, repostOf, none, 0, 0, 0, 0⟩

def createPost (id : PostId) (author : UserId) (kind : ComposeKind) (replyTo repostOf : Option PostId) :
    Transaction Outcome := do
  let replyToId ← resolveLiveTarget replyTo
  let repostOfId ← resolveLiveTarget repostOf
  if ← insertPostRow (newPost id author kind.toKind replyToId repostOfId) then
    countReply replyToId
    pure (.created id)
  else .abort .uniqueViolation

/-- `like` and `save`: INSERT ... ON CONFLICT DO NOTHING, then the count. -/
def mark (insert : Write) (p : PostId) (c : Counter) : Transaction Outcome := do
  if ← Tx.select (fun s => (findPost s p).isSome) then
    if ← Schema.insertRow insert then
      updateCount (addOne p c)
      pure (.applied true)
    else pure (.applied false)
  else .abort .foreignKey

/-- `unlike` and `unsave`: DELETE ... RETURNING, then the count. -/
def unmark (find : Db → Option Mark) (delete : Write) (p : PostId) (c : Counter) : Transaction Outcome := do
  match ← Schema.updateFound find (fun _ => delete) with
  | none => pure (.applied false)
  | some _ =>
    updateCount (dropOne p c)
    pure (.applied true)

def like (p : PostId) (user : UserId) : Transaction Outcome := mark (insertLike p user) p .likes

def unlike (p : PostId) (user : UserId) : Transaction Outcome :=
  unmark (fun s => (s TableName.likes).find? (p, user)) (deleteLike p user) p .likes

def save (p : PostId) (user : UserId) : Transaction Outcome := mark (insertSave p user) p .saves

def unsave (p : PostId) (user : UserId) : Transaction Outcome :=
  unmark (fun s => (s TableName.saves).find? (p, user)) (deleteSave p user) p .saves

def deletedReposts (s : Db) (user : UserId) (target : PostId) : List Post :=
  (s TableName.posts).rows.filter (fun x => decide (x.Reposts user target ∧ ¬ x.Live))

def liveReposts (s : Db) (user : UserId) (target : PostId) : List Post :=
  (s TableName.posts).rows.filter (fun x => decide (x.Reposts user target ∧ x.Live))

/-- `SET deleted_at = NULL WHERE ... AND deleted_at IS NOT NULL`: true when it revives a row. The unique
index refuses a second live row, so that two matches fail as one match beside a live row does. -/
def reviveReposts (user : UserId) (target : PostId) : Transaction Bool := do
  match ← Schema.updateFound
      (fun s => (deletedReposts s user target).head?.map (fun x => (x, (deletedReposts s user target).length)))
      (fun x => revive x.1.id user target) with
  | none => pure false
  | some ((_, matched), fits) => if fits ∧ matched = 1 then pure true else .abort .uniqueViolation

def repost (p : PostId) (user : UserId) (newId : PostId) : Transaction Outcome := do
  match ← resolveOriginalTarget p with
  | none => pure (.target p false)
  | some target =>
    if ← reviveReposts user target then
      updateCount (addOne target .reposts)
      pure (.target target true)
    else if ← insertPostRow (newPost newId user .repost none (some target)) then
      updateCount (addOne target .reposts)
      pure (.target target true)
    else pure (.target target false)

def unrepost (p : PostId) (user : UserId) (now : Instant) : Transaction Outcome := do
  match ← resolveOriginalTarget p with
  | none => pure (.target p false)
  | some target =>
    let removed ← Schema.dml (fun s => (liveReposts s user target).map (fun x => tombstone x.id now))
      (fun s => decide (liveReposts s user target ≠ []))
    if removed then
      updateCount (dropOne target .reposts)
      pure (.target target true)
    else pure (.target target false)

def dropCount (c : Counter) : Option PostId → Transaction Unit
  | none => pure ()
  | some p => updateCount (dropOne p c)

def tombstonePostInTx (p : PostId) (now : Instant) : Transaction Outcome := do
  match ← Schema.updateFound (fun s => (findPost s p).filter (fun x => decide x.Live))
    (fun x => tombstone x.id now) with
  | none => pure (.applied false)
  | some (x, _) =>
    dropCount .replies x.replyToId
    if x.kind = .repost then dropCount .reposts x.repostOfId
    pure (.applied true)

inductive Operation
  | createPost (id : PostId) (author : UserId) (kind : ComposeKind) (replyTo repostOf : Option PostId)
  | like (p : PostId) (user : UserId)
  | unlike (p : PostId) (user : UserId)
  | save (p : PostId) (user : UserId)
  | unsave (p : PostId) (user : UserId)
  | repost (p : PostId) (user : UserId) (newId : PostId)
  | unrepost (p : PostId) (user : UserId) (now : Instant)
  | remove (p : PostId) (now : Instant)

def program : Operation → Transaction Outcome
  | .createPost id author kind replyTo repostOf => createPost id author kind replyTo repostOf
  | .like p user => like p user
  | .unlike p user => unlike p user
  | .save p user => save p user
  | .unsave p user => unsave p user
  | .repost p user newId => repost p user newId
  | .unrepost p user now => unrepost p user now
  | .remove p now => tombstonePostInTx p now

abbrev World := Engine.World Db Write schema.Lock Refusal Operation Outcome

/-- The databases of every interleaving from the empty one. -/
def Reachable (w : World) : Prop := Engine.Reachable schema.engine program (fun s => s = noRows) w

/-- What the operations leave when they run one after the other. -/
def afterAll (os : List Operation) : Db := os.foldl (fun s o => (schema.engine.exec (program o) s).2) noRows

theorem reachable_afterAll (os : List Operation) : Reachable (.quiet (afterAll os)) := by
  have hinit : Reachable (.quiet noRows) := .init noRows rfl
  exact Engine.Reachable.serial hinit os

end Civfix.Posts
