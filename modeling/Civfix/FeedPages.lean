import Mathlib.Data.Rat.Lemmas
import Mathlib.Algebra.Order.Field.Rat
import Mathlib.Logic.Function.Basic
import Civfix.FeedRanking
import Civfix.JsonTexts
import Civfix.KeysetPages

/-! # The pages of a ranked feed

The first page of a feed is taken of a fresh ranking, which is stored; a later page is taken of the stored ranking,
after the entry that its cursor names. -/
namespace Civfix.FeedPages

open FeedRanking KeysetPages

variable {K : Type}

structure FeedSnapshotEntry (K : Type) where
  id : Text
  score : K

structure FeedScoreCursor (K : Type) where
  score : K
  postId : Text

/-- The cursors of the contract, and `String.prototype.toLowerCase`. -/
structure Contract (K : Type) where
  formatFeedScoreCursor : FeedScoreCursor K → Text
  parseFeedScoreCursor : Text → Option (FeedScoreCursor K)
  isAfterFeedScoreCursor : FeedScoreCursor K → FeedScoreCursor K → Bool
  toLowerCase : Text → Text

/-- The value of a JSON text, as far as a snapshot has any. -/
inductive Json (K : Type) where
  | string (t : Text)
  | number (n : K)
  | array (values : List (Json K))
  | other

/-- What is known of the cache in a request: whether there is one for snapshots, and whether it answers. -/
structure Cache where
  snapshotsAvailable : Bool
  reads : Bool
  writes : Bool

structure FeedPage where
  requested : List Text
  nextCursor : Option Text

/-! ## Snapshots -/

def snapshotEntry : Json K → Option (FeedSnapshotEntry K)
  | .array [.string id, .number score] => some ⟨id, score⟩
  | _ => none

def readSnapshot (cache : Cache) (stored : Option (Json K)) : Option (List (FeedSnapshotEntry K)) :=
  if cache.reads then
    match stored with
    | some (.array values) => values.mapM snapshotEntry
    | _ => none
  else none

/-- What is stored, if the write goes through. -/
def writeSnapshot (cfg : FeedRankingConfig K) (cache : Cache) (ranked : List (RankedCandidate K)) : Option (Json K) :=
  if cache.writes then
    some (.array ((ranked.take cfg.candidateCap).map fun entry => .array [.string entry.id, .number entry.score]))
  else none

/-! ## Pages -/

def normalizeScoreCursor (contract : Contract K) (cursor : FeedScoreCursor K) : FeedScoreCursor K :=
  ⟨cursor.score, contract.toLowerCase cursor.postId⟩

def sliceAfterCursor (contract : Contract K) (entries : List (FeedSnapshotEntry K)) (cursor : FeedScoreCursor K) :
    List (FeedSnapshotEntry K) :=
  match entries.findIdx? fun entry => decide (entry.id = cursor.postId) with
  | some anchor => entries.drop (anchor + 1)
  | none => entries.filter fun entry => contract.isAfterFeedScoreCursor ⟨entry.score, entry.id⟩ cursor

def pageFrom (contract : Contract K) (entries : List (FeedSnapshotEntry K)) (limit : ℕ) : FeedPage :=
  let pageEntries := entries.take limit
  let hasMore := decide (pageEntries.length < entries.length)
  { requested := pageEntries.map FeedSnapshotEntry.id
    nextCursor :=
      if hasMore then pageEntries.getLast?.map fun last => contract.formatFeedScoreCursor ⟨last.score,
        last.id⟩ else none }

def entryOf (entry : RankedCandidate K) : FeedSnapshotEntry K := ⟨entry.id, entry.score⟩

/-- What the rows of a request rank to: as they were seen, and as they would rank again. -/
structure RankedSet (K : Type) where
  ranked : List (RankedCandidate K)
  recomputable : List (RankedCandidate K)

/-- `feedCandidates` answers with no more than `candidateCap` rows. -/
def rankWith {σ : Type} [Field K] [LinearOrder K] (cfg : FeedRankingConfig K) (s : Scoring K σ)
    (rows : List (FeedCandidate σ)) : List (RankedCandidate K) :=
  applyCutoff (rankCandidates (rows.take cfg.candidateCap) cfg s) cfg

def continueRankedPage (contract : Contract K) (cfg : FeedRankingConfig K) (cache : Cache) (set : RankedSet K)
    (cursor : FeedScoreCursor K) (limit : ℕ) (stored : Option (Json K)) : FeedPage × Option (Json K) :=
  match if cache.snapshotsAvailable then readSnapshot cache stored else none with
  | some snapshot => (pageFrom contract (sliceAfterCursor contract snapshot cursor) limit, stored)
  | none =>
    (pageFrom contract (sliceAfterCursor contract (set.ranked.map entryOf) cursor) limit,
      if cache.snapshotsAvailable then (writeSnapshot cfg cache set.ranked).or stored else stored)

def rankedFeed (contract : Contract K) (cfg : FeedRankingConfig K) (cache : Cache) (set : RankedSet K)
    (cursor : Option Text) (limit : ℕ) (stored : Option (Json K)) : FeedPage × Option (Json K) :=
  match (cursor.bind contract.parseFeedScoreCursor).map (normalizeScoreCursor contract) with
  | some cursor => continueRankedPage contract cfg cache set cursor limit stored
  | none =>
    if cache.snapshotsAvailable then
      match writeSnapshot cfg cache set.ranked with
      | some payload => (pageFrom contract (set.ranked.map entryOf) limit, some payload)
      | none => (pageFrom contract (set.recomputable.map entryOf) limit, stored)
    else (pageFrom contract (set.ranked.map entryOf) limit, stored)

/-! ## The stored ranking -/

section

variable {contract : Contract K} {cfg : FeedRankingConfig K} {cache : Cache} {ranked : List (RankedCandidate K)}
  {entries : List (FeedSnapshotEntry K)} {limit : ℕ}

theorem mapM_snapshotEntry (ranked : List (RankedCandidate K)) :
    (ranked.map fun entry => Json.array [.string entry.id, .number entry.score]).mapM snapshotEntry =
      some (ranked.map entryOf) := by
  induction ranked with
  | nil => rfl
  | cons entry ranked ih =>
    rw [List.map_cons, List.mapM_cons, ih]
    rfl

/-- A ranking that is no longer than the cap is read back. -/
theorem readSnapshot_writeSnapshot (hcap : ranked.length ≤ cfg.candidateCap) (hreads : cache.reads = true)
    {payload : Json K} (h : writeSnapshot cfg cache ranked = some payload) :
    readSnapshot cache (some payload) = some (ranked.map entryOf) := by
  unfold writeSnapshot at h
  split at h
  · rw [List.take_of_length_le hcap] at h
    obtain rfl := Option.some.inj h
    rw [readSnapshot, if_pos hreads]
    exact mapM_snapshotEntry ranked
  · cases h

/-- The cursor of an entry. -/
def placeOf (contract : Contract K) (entry : FeedSnapshotEntry K) : Text :=
  contract.formatFeedScoreCursor ⟨entry.score, entry.id⟩

theorem pageFrom_eq (contract : Contract K) (entries : List (FeedSnapshotEntry K)) (limit : ℕ) :
    pageFrom contract entries limit =
      ⟨(firstPage limit entries (placeOf contract)).1.map FeedSnapshotEntry.id,
        (firstPage limit entries (placeOf contract)).2⟩ := by
  have hmore : (entries.take limit).length < entries.length ↔ limit < entries.length := by
    rw [List.length_take]
    omega
  rw [pageFrom, firstPage]
  simp only [hmore, decide_eq_true_eq]
  rfl

/-- The entry of a cursor is found by its id, wherever it stands. -/
theorem sliceAfterCursor_split {pre post : List (FeedSnapshotEntry K)} {entry : FeedSnapshotEntry K}
    (hids : ((pre ++ entry :: post).map FeedSnapshotEntry.id).Nodup) (score : K) :
    sliceAfterCursor contract (pre ++ entry :: post) ⟨score, entry.id⟩ = post := by
  have hfresh : ∀ e ∈ pre, e.id ≠ entry.id := by
    intro e he heq
    rw [List.map_append, List.map_cons, List.nodup_append] at hids
    exact hids.2.2 _ (List.mem_map_of_mem he) _ List.mem_cons_self heq
  have hfind : (pre ++ entry :: post).findIdx? (fun e => decide (e.id = entry.id)) = some pre.length := by
    rw [List.findIdx?_append, List.findIdx?_eq_none_iff.2 fun e he => decide_eq_false (hfresh e he), List.findIdx?_cons]
    simp
  rw [sliceAfterCursor, hfind]
  dsimp only
  rw [List.append_cons]
  exact List.drop_left' (by rw [List.length_append, List.length_singleton])

/-- The pages as one reader gets them: the first request stores the ranking, the later ones find it stored. -/
def served (contract : Contract K) (cfg : FeedRankingConfig K) (cache : Cache) (first later : RankedSet K) (limit : ℕ)
    (stored : Option (Json K)) (cursor : Option Text) : List Text × Option Text :=
  let page :=
    if cursor.isNone then (rankedFeed contract cfg cache first cursor limit stored).1
    else (rankedFeed contract cfg cache later cursor limit (rankedFeed contract cfg cache first none limit stored).2).1
  (page.requested, page.nextCursor)

/-- A cursor of an entry goes on after that entry in the stored ranking, which stays as it is. -/
theorem rankedFeed_continue {set : RankedSet K} {pre post : List (FeedSnapshotEntry K)} {entry : FeedSnapshotEntry K}
    {stored : Option (Json K)} (hparse : ∀ c, contract.parseFeedScoreCursor (contract.formatFeedScoreCursor c) = some c)
    (havailable : cache.snapshotsAvailable = true)
    (hstored : readSnapshot cache stored = some (pre ++ entry :: post))
    (hids : ((pre ++ entry :: post).map FeedSnapshotEntry.id).Nodup)
    (hlower : contract.toLowerCase entry.id = entry.id) :
    rankedFeed contract cfg cache set (some (placeOf contract entry)) limit stored =
      (pageFrom contract post limit, stored) := by
  have hcursor : ((some (placeOf contract entry)).bind contract.parseFeedScoreCursor).map
    (normalizeScoreCursor contract) =
      some ⟨entry.score, entry.id⟩ := by
    rw [Option.bind_some, placeOf, hparse, Option.map_some, normalizeScoreCursor, hlower]
  rw [rankedFeed, hcursor]
  dsimp only
  rw [continueRankedPage, if_pos havailable, hstored]
  dsimp only
  rw [sliceAfterCursor_split hids]

/-- Following the pages asks for the ranking, each entry once and in order. -/
theorem served_follows {first later : RankedSet K} {stored : Option (Json K)}
    (hparse : ∀ c, contract.parseFeedScoreCursor (contract.formatFeedScoreCursor c) = some c)
    (havailable : cache.snapshotsAvailable = true) (hreads : cache.reads = true) (hwrites : cache.writes = true)
    (hcap : first.ranked.length ≤ cfg.candidateCap) (hids : (first.ranked.map RankedCandidate.id).Nodup)
    (hlower : ∀ entry ∈ first.ranked, contract.toLowerCase entry.id = entry.id) (hpos : 0 < limit) :
    Follows (served contract cfg cache first later limit stored) none (first.ranked.map RankedCandidate.id) := by
  obtain ⟨payload, hpayload⟩ : ∃ payload, writeSnapshot cfg cache first.ranked = some payload := by
    rw [writeSnapshot, if_pos hwrites]
    exact ⟨_, rfl⟩
  have hstored := readSnapshot_writeSnapshot hcap hreads hpayload
  have hfirst : rankedFeed contract cfg cache first none limit stored =
      (pageFrom contract (first.ranked.map entryOf) limit, some payload) := by
    rw [rankedFeed, Option.bind_none, Option.map_none]
    dsimp only
    rw [if_pos havailable, hpayload]
  have hentryIds : ((first.ranked.map entryOf).map FeedSnapshotEntry.id).Nodup := by
    rw [List.map_map]
    exact hids
  have hids' : first.ranked.map RankedCandidate.id = (first.ranked.map entryOf).map FeedSnapshotEntry.id := by
    rw [List.map_map]
    rfl
  rw [hids']
  have hslices : ∀ pre entry post, first.ranked.map entryOf = pre ++ entry :: post →
      served contract cfg cache first later limit stored (some (placeOf contract entry)) =
        ((firstPage limit post (placeOf contract)).1.map FeedSnapshotEntry.id,
          (firstPage limit post (placeOf contract)).2) := by
    intro pre entry post hsplit
    have hmem : entry ∈ first.ranked.map entryOf := by
      rw [hsplit]
      exact List.mem_append_right pre List.mem_cons_self
    obtain ⟨x, hx, rfl⟩ := List.mem_map.1 hmem
    rw [hsplit] at hstored hentryIds
    have hcontinue : rankedFeed contract cfg cache later (some (placeOf contract (entryOf x))) limit (some payload) =
        (pageFrom contract post limit, some payload) :=
          rankedFeed_continue hparse havailable hstored hentryIds (hlower x hx)
    rw [served, if_neg (by simp), hfirst, hcontinue, pageFrom_eq]
  have hpage : served contract cfg cache first later limit stored none =
      ((firstPage limit (first.ranked.map entryOf) (placeOf contract)).1.map FeedSnapshotEntry.id,
        (firstPage limit (first.ranked.map entryOf) (placeOf contract)).2) := by
    rw [served, if_pos Option.isNone_none, hfirst, pageFrom_eq]
  exact follows_of_slices FeedSnapshotEntry.id hpos hslices hpage (List.nil_append _).symm

/-- The ranking holds every candidate once, in the order of the final scores and then the ids, whatever order the
candidates come in; the cut leaves a beginning of it; and the pages of any size ask for what was stored of it, once
and in order. -/
theorem feed_tiles_ranking {σ : Type} [Field K] [LinearOrder K] [IsStrictOrderedRing K] (contract : Contract K)
    (cfg : FeedRankingConfig K) (s : Scoring K σ)
    (hparse : ∀ c, contract.parseFeedScoreCursor (contract.formatFeedScoreCursor c) = some c)
    (candidates : List (FeedCandidate σ)) (hids : (candidates.map FeedCandidate.id).Nodup)
    (hlower : ∀ c ∈ candidates, contract.toLowerCase c.id = c.id) :
    ((rankCandidates candidates cfg s).map RankedCandidate.post).Perm (candidates.map fun c => (c.id, c.authorId)) ∧
    (rankCandidates candidates cfg s).Pairwise Precedes ∧
    (∀ candidates', candidates.Perm candidates' → rankCandidates candidates' cfg s = rankCandidates candidates cfg s) ∧
    applyCutoff (rankCandidates candidates cfg s) cfg <+: rankCandidates candidates cfg s ∧
    ∀ (cache : Cache) (first later : RankedSet K) (limit : ℕ) (stored : Option (Json K)),
      cache.snapshotsAvailable = true → cache.reads = true → cache.writes = true →
      first.ranked = rankWith cfg s candidates → 0 < limit →
        Follows (served contract cfg cache first later limit stored) none (first.ranked.map RankedCandidate.id) := by
  refine ⟨rankCandidates_posts candidates cfg s, rankCandidates_pairwise hids,
    fun candidates' hperm => (rankCandidates_perm hids hperm).symm,
      applyCutoff_prefix (rankCandidates_pairwise hids), ?_⟩
  intro cache first later limit stored havailable hreads hwrites hfirst hpos
  have htaken : ((candidates.take cfg.candidateCap).map FeedCandidate.id).Nodup := by
    rw [List.map_take]
    exact hids.take
  have hfront : first.ranked <+: rankCandidates (candidates.take cfg.candidateCap) cfg s := by
    rw [hfirst]
    exact applyCutoff_prefix (rankCandidates_pairwise htaken)
  have hposts := rankCandidates_posts (candidates.take cfg.candidateCap) cfg s
  refine served_follows hparse havailable hreads hwrites ?_ ?_ (fun entry hentry => ?_) hpos
  · have hlength := hposts.length_eq
    rw [List.length_map, List.length_map] at hlength
    exact hfront.length_le.trans (hlength.le.trans (List.length_take_le _ _))
  · have hranked : ((rankCandidates (candidates.take cfg.candidateCap) cfg s).map RankedCandidate.id).Nodup := by
      rw [ids_eq]
      refine (hposts.map Prod.fst).nodup_iff.2 ?_
      rw [List.map_map]
      exact htaken
    exact (hfront.map RankedCandidate.id).sublist.nodup hranked
  · have hmem : entry.post ∈ (candidates.take cfg.candidateCap).map fun c => (c.id, c.authorId) :=
      hposts.mem_iff.1 (List.mem_map_of_mem (hfront.subset hentry))
    obtain ⟨c, hc, hpost⟩ := List.mem_map.1 hmem
    have hid : c.id = entry.id := congrArg Prod.fst hpost
    rw [← hid]
    exact hlower c (List.mem_of_mem_take hc)

/-! ## Two posts of one author -/

def scoreText (c : FeedScoreCursor ℚ) : Text :=
  JsonTexts.integerText c.score.num ++ 47 :: (CodeUnits.decimal c.score.den ++ 124 :: c.postId)

theorem scoreText_injective : Function.Injective scoreText := by
  rintro ⟨score, postId⟩ ⟨score', postId'⟩ h
  obtain ⟨hnum, hrest⟩ := JsonTexts.integerText_append rfl rfl h
  obtain ⟨hden, hid⟩ := JsonTexts.decimal_append rfl rfl (List.cons.inj hrest).2
  have hscore : score = score' := Rat.ext hnum hden
  have hpost : postId = postId' := (List.cons.inj hid).2
  rw [hscore, hpost]

noncomputable def sampleContract : Contract ℚ where
  formatFeedScoreCursor := scoreText
  parseFeedScoreCursor := Function.partialInv scoreText
  isAfterFeedScoreCursor a b := decide (a.score < b.score ∨ a.score = b.score ∧ a.postId < b.postId)
  toLowerCase t := t.map CodeUnits.lower

def sampleConfig : FeedRankingConfig ℚ := ⟨1 / 2, 1 / 2, 0, 0, 10⟩

def sampleScoring : Scoring ℚ ℚ := ⟨FeedCandidate.signals, fun score => score⟩

def samplePosts : List (FeedCandidate ℚ) := [⟨[97], [117], 4⟩, ⟨[98], [117], 4⟩, ⟨[99], [118], 3⟩]

/-- The second post of the author falls to the score of the other author's post and stays behind it. -/
theorem samplePosts_follow : Follows
    (served sampleContract sampleConfig ⟨true, true, true⟩ ⟨rankWith sampleConfig sampleScoring samplePosts, []⟩
      ⟨[], []⟩ 1 none)
    none [[98], [99], [97]] := by
  have hranked : (rankWith sampleConfig sampleScoring samplePosts).map RankedCandidate.id = [[98], [99], [97]] := by
    decide +kernel
  rw [← hranked]
  exact (feed_tiles_ranking sampleContract sampleConfig sampleScoring (Function.partialInv_left scoreText_injective)
    samplePosts (by decide) (by decide)).2.2.2.2 ⟨true, true, true⟩
      ⟨rankWith sampleConfig sampleScoring samplePosts, []⟩ ⟨[], []⟩ 1 none rfl rfl rfl rfl Nat.one_pos

end

end Civfix.FeedPages
