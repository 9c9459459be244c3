import Mathlib.Algebra.Order.Field.Basic
import Mathlib.Data.List.Sort
import Mathlib.Order.Lex
import Mathlib.Data.List.Lex
import Civfix.CodeUnits

/-! # The ranking of a feed

Candidates are sorted by their scores, the scores of an author's later posts are lowered in that order, and the
candidates are sorted again. The scores themselves are any function of the candidates. -/
namespace Civfix.FeedRanking

variable {K : Type} [Field K] [LinearOrder K] {σ : Type}

abbrev Text := CodeUnits.Text

/-- `signals` is what the scoring reads of a candidate beside its author. -/
structure FeedCandidate (σ : Type) where
  id : Text
  authorId : Text
  signals : σ

structure RankedCandidate (K : Type) where
  id : Text
  authorId : Text
  score : K

structure FeedRankingConfig (K : Type) where
  diversityFloor : K
  diversityDecay : K
  minScore : K
  minPageItems : ℕ
  candidateCap : ℕ

/-- The scoring of one call, whose configuration, clock, seed and boosts are fixed, and `quantizeFeedScore`. -/
structure Scoring (K σ : Type) where
  scoreCandidate : FeedCandidate σ → K
  quantizeFeedScore : K → K

def diversityMultiplier (authorRank : ℕ) (cfg : FeedRankingConfig K) : K :=
  cfg.diversityFloor + (1 - cfg.diversityFloor) * cfg.diversityDecay ^ authorRank

def byScoreThenId (a b : RankedCandidate K) : K :=
  if a.score ≠ b.score then b.score - a.score else if a.id < b.id then 1 else if b.id < a.id then -1 else 0

/-- The sort keeps the order of what it finds equal. -/
def sort (l : List (RankedCandidate K)) : List (RankedCandidate K) :=
  l.insertionSort fun a b => byScoreThenId a b ≤ 0

/-- `seenPerAuthor` counts the entries of each author so far. -/
def diversify (cfg : FeedRankingConfig K) (s : Scoring K σ) :
    (Text → ℕ) → List (RankedCandidate K) → List (RankedCandidate K)
  | _, [] => []
  | seenPerAuthor, entry :: rest =>
    let rank := seenPerAuthor entry.authorId
    { entry with score := s.quantizeFeedScore (entry.score * diversityMultiplier rank cfg) } ::
      diversify cfg s (Function.update seenPerAuthor entry.authorId (rank + 1)) rest

def scored (s : Scoring K σ) (candidate : FeedCandidate σ) : RankedCandidate K :=
  ⟨candidate.id, candidate.authorId, s.quantizeFeedScore (s.scoreCandidate candidate)⟩

def rankCandidates (candidates : List (FeedCandidate σ)) (cfg : FeedRankingConfig K) (s : Scoring K σ) :
    List (RankedCandidate K) :=
  sort (diversify cfg s (fun _ => 0) (sort (candidates.map (scored s))))

def applyCutoff (ranked : List (RankedCandidate K)) (cfg : FeedRankingConfig K) : List (RankedCandidate K) :=
  let kept := ranked.filter fun entry => decide (cfg.minScore ≤ entry.score)
  if kept.length < cfg.minPageItems then ranked else kept

/-! ## The order -/

/-- A higher score comes first, and of equal scores the greater id. -/
def Precedes (a b : RankedCandidate K) : Prop := b.score < a.score ∨ a.score = b.score ∧ b.id < a.id

section

variable {a b c : RankedCandidate K} {l l' : List (RankedCandidate K)} {cfg : FeedRankingConfig K} {s : Scoring K σ}

theorem sort_perm (l : List (RankedCandidate K)) : (sort l).Perm l := List.perm_insertionSort _ l

variable [IsStrictOrderedRing K]

theorem byScoreThenId_le_zero : byScoreThenId a b ≤ 0 ↔ b.score < a.score ∨ a.score = b.score ∧ b.id ≤ a.id := by
  unfold byScoreThenId
  split
  · next hne =>
    have hcases := lt_or_gt_of_ne hne
    rw [sub_nonpos]
    constructor
    · exact fun hle => Or.inl (lt_of_le_of_ne hle (Ne.symm hne))
    · rintro (hlt | ⟨heq, -⟩)
      · exact hlt.le
      · exact absurd heq hne
  · next heq =>
    have heq' : a.score = b.score := not_not.1 heq
    have hirrefl : ¬b.score < a.score := by rw [heq']; exact lt_irrefl _
    split
    · next hlt =>
      refine iff_of_false (not_le.2 one_pos) ?_
      rintro (h | ⟨-, hle⟩)
      · exact hirrefl h
      · exact absurd hlt (not_lt.2 hle)
    · next hge =>
      have hle : b.id ≤ a.id := not_lt.1 hge
      split
      · exact iff_of_true (neg_nonpos.2 zero_le_one) (Or.inr ⟨heq', hle⟩)
      · exact iff_of_true le_rfl (Or.inr ⟨heq', hle⟩)

instance : Std.Total fun a b : RankedCandidate K => byScoreThenId a b ≤ 0 where
  total a b := by
    rw [byScoreThenId_le_zero, byScoreThenId_le_zero]
    rcases lt_trichotomy a.score b.score with hlt | heq | hlt
    · exact Or.inr (Or.inl hlt)
    · rcases le_total b.id a.id with hle | hle
      · exact Or.inl (Or.inr ⟨heq, hle⟩)
      · exact Or.inr (Or.inr ⟨heq.symm, hle⟩)
    · exact Or.inl (Or.inl hlt)

instance : IsTrans (RankedCandidate K) fun a b => byScoreThenId a b ≤ 0 where
  trans a b c := by
    rw [byScoreThenId_le_zero, byScoreThenId_le_zero, byScoreThenId_le_zero]
    rintro (hab | ⟨hab, hidab⟩) (hbc | ⟨hbc, hidbc⟩)
    · exact Or.inl (hbc.trans hab)
    · exact Or.inl (hbc ▸ hab)
    · exact Or.inl (hab ▸ hbc)
    · exact Or.inr ⟨hab.trans hbc, hidbc.trans hidab⟩

theorem sort_pairwise (h : (l.map RankedCandidate.id).Nodup) : (sort l).Pairwise Precedes := by
  have hids : ((sort l).map RankedCandidate.id).Nodup := ((sort_perm l).map _).nodup_iff.2 h
  have hsorted := List.pairwise_insertionSort (fun a b : RankedCandidate K => byScoreThenId a b ≤ 0) l
  rw [List.Nodup, List.pairwise_map] at hids
  refine hsorted.imp₂ (fun a b hle hne => ?_) hids
  rcases byScoreThenId_le_zero.1 hle with hlt | ⟨heq, hid⟩
  · exact Or.inl hlt
  · exact Or.inr ⟨heq, lt_of_le_of_ne hid (Ne.symm hne)⟩

/-- Distinct ids leave the sort no choice. -/
theorem sort_eq_of_perm (h : l.Perm l') (hids : (l.map RankedCandidate.id).Nodup) : sort l = sort l' := by
  have hperm : (sort l).Perm (sort l') := (sort_perm l).trans (h.trans (sort_perm l').symm)
  have hids' : (l'.map RankedCandidate.id).Nodup := (h.map _).nodup_iff.1 hids
  refine hperm.eq_of_pairwise (fun a b _ _ hab hba => ?_) (sort_pairwise hids) (sort_pairwise hids')
  rcases hab with hab | ⟨hab, hidab⟩
  · rcases hba with hba | ⟨hba, -⟩
    · exact absurd hba (lt_asymm hab)
    · exact absurd hab (by rw [hba]; exact lt_irrefl _)
  · rcases hba with hba | ⟨-, hidba⟩
    · exact absurd hba (by rw [hab]; exact lt_irrefl _)
    · exact absurd hidba (lt_asymm hidab)

/-! ## The ranking -/

/-- An entry without its score. -/
def RankedCandidate.post (a : RankedCandidate K) : Text × Text := (a.id, a.authorId)

omit [LinearOrder K] [IsStrictOrderedRing K] in
theorem diversify_posts (seenPerAuthor : Text → ℕ) (l : List (RankedCandidate K)) :
    (diversify cfg s seenPerAuthor l).map RankedCandidate.post = l.map RankedCandidate.post := by
  induction l generalizing seenPerAuthor with
  | nil => rfl
  | cons entry rest ih =>
    rw [diversify, List.map_cons, ih]
    rfl

omit [Field K] [LinearOrder K] [IsStrictOrderedRing K] in
theorem ids_eq (l : List (RankedCandidate K)) :
    l.map RankedCandidate.id = (l.map RankedCandidate.post).map Prod.fst := by
  rw [List.map_map]
  rfl

omit [IsStrictOrderedRing K] in
theorem rankCandidates_posts (candidates : List (FeedCandidate σ)) (cfg : FeedRankingConfig K) (s : Scoring K σ) :
    ((rankCandidates candidates cfg s).map RankedCandidate.post).Perm (candidates.map fun c => (c.id, c.authorId)) := by
  have hfirst := (sort_perm (candidates.map (scored s))).map RankedCandidate.post
  have hsecond := (sort_perm (diversify cfg s (fun _ => 0) (sort (candidates.map (scored s))))).map RankedCandidate.post
  rw [diversify_posts] at hsecond
  rw [List.map_map] at hfirst
  exact hsecond.trans hfirst

omit [IsStrictOrderedRing K] in
theorem diversify_ids_nodup {candidates : List (FeedCandidate σ)} (h : (candidates.map FeedCandidate.id).Nodup) :
    ((diversify cfg s (fun _ => 0) (sort (candidates.map (scored s)))).map RankedCandidate.id).Nodup := by
  rw [ids_eq, diversify_posts, ← ids_eq]
  refine ((sort_perm _).map _).nodup_iff.2 ?_
  rw [List.map_map]
  exact h

theorem rankCandidates_pairwise {candidates : List (FeedCandidate σ)} (h : (candidates.map FeedCandidate.id).Nodup) :
    (rankCandidates candidates cfg s).Pairwise Precedes := sort_pairwise (diversify_ids_nodup h)

theorem rankCandidates_perm {candidates candidates' : List (FeedCandidate σ)}
    (h : (candidates.map FeedCandidate.id).Nodup)
    (hperm : candidates.Perm candidates') : rankCandidates candidates cfg s = rankCandidates candidates' cfg s := by
  have hids : ((candidates.map (scored s)).map RankedCandidate.id).Nodup := by
    rw [List.map_map]
    exact h
  rw [rankCandidates, rankCandidates, sort_eq_of_perm (hperm.map (scored s)) hids]

omit [Field K] [IsStrictOrderedRing K] in
/-- In a sorted list, what passes a lower bound of the score stands first. -/
theorem filter_prefix {minScore : K} (h : l.Pairwise Precedes) :
    (l.filter fun entry => decide (minScore ≤ entry.score)) <+: l := by
  induction l with
  | nil => exact List.prefix_rfl
  | cons a l ih =>
    obtain ⟨hhead, htail⟩ := List.pairwise_cons.1 h
    by_cases ha : minScore ≤ a.score
    · rw [List.filter_cons, if_pos (decide_eq_true ha)]
      exact List.cons_prefix_cons.2 ⟨rfl, ih htail⟩
    · have hnone : (a :: l).filter (fun entry => decide (minScore ≤ entry.score)) = [] := by
        refine List.filter_eq_nil_iff.2 fun b hb => ?_
        rcases List.mem_cons.1 hb with rfl | hb
        · simpa using ha
        · have hle : b.score ≤ a.score := by
            rcases hhead b hb with hlt | ⟨heq, -⟩
            · exact hlt.le
            · exact heq.ge
          simpa using lt_of_le_of_lt hle (not_le.1 ha)
      rw [hnone]
      exact List.nil_prefix

omit [Field K] [IsStrictOrderedRing K] in
theorem applyCutoff_prefix (h : l.Pairwise Precedes) : applyCutoff l cfg <+: l := by
  unfold applyCutoff
  dsimp only
  split
  · exact List.prefix_rfl
  · exact filter_prefix h

end

end Civfix.FeedRanking
