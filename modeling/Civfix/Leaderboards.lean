import Civfix.KeysetPages
import Civfix.CursorPages
import Civfix.VolunteerHoursTables
import Mathlib.Data.Rat.Floor

/-! # The leaderboard of a jurisdiction

Volunteers are listed by their total hours, and an entry has the number of its place as its rank. The viewer is told a rank
of their own, which counts the volunteers with more hours, so that a tie shares a rank. -/
namespace Civfix.Leaderboards

open CodeUnits CursorPages KeyedTables KeysetPages VolunteerHours

/-- The columns of a user that the board reads. -/
structure Volunteer where
  id : Id
  deletedAt : Option Instant
  showVolunteerHours : Option Bool

structure LeaderboardEntry where
  rank : ℕ
  userId : Id
  hours : ℤ
  deriving DecidableEq

structure LeaderboardPage where
  entries : List LeaderboardEntry
  nextOffset : Option ℕ
  participantCount : Option ℕ
  viewerRank : Option ℕ
  viewerHours : Option ℤ

structure LeaderboardQuery where
  limit : Option ℚ
  offset : Option ℚ

structure LeaderboardResponse where
  entries : List LeaderboardEntry
  nextOffset : Option ℕ
  participantCount : Option ℕ
  viewerRank : Option (Option ℕ)
  viewerHours : Option (Option ℤ)

def LEADERBOARD_DEFAULT_LIMIT : ℕ := 20
def LEADERBOARD_MAX_LIMIT : ℕ := 50
def LEADERBOARD_MAX_OFFSET : ℕ := 500
def LEADERBOARD_EXTRAS_MIN_LIMIT : ℕ := 25
def MORE_PAGES : Text := text "more"

variable (s : Db) (users : Table Volunteer.id) (geoid : Geoid)

/-- The WHERE clause that the queries share. -/
def shown (row : JurisdictionHours) : Bool :=
  decide (row.jurisdictionGeoid = geoid) && decide (0 < row.totalHours) &&
    (users.find? row.userId).any fun u => u.deletedAt.isNone && u.showVolunteerHours ≠ some false

def participants : List JurisdictionHours := s.jurisdictionHours.rows.filter (shown users geoid)

/-- `ORDER BY total_hours DESC, user_id`. -/
def Ranked (a b : JurisdictionHours) : Prop :=
  b.totalHours < a.totalHours ∨ (a.totalHours = b.totalHours ∧ a.userId ≤ b.userId)

instance : DecidableRel Ranked := fun a b =>
  inferInstanceAs (Decidable (b.totalHours < a.totalHours ∨ (a.totalHours = b.totalHours ∧ a.userId ≤ b.userId)))

def board : List JurisdictionHours := (participants s users geoid).insertionSort Ranked

def entryOf (offset : ℕ) (row : JurisdictionHours) (i : ℕ) : LeaderboardEntry :=
  ⟨offset + i + 1, row.userId, row.totalHours⟩

def me (viewerId : Id) : Option JurisdictionHours := (participants s users geoid).find? fun row => row.userId = viewerId

def repoLeaderboard (limit offset : ℕ) (viewerId : Option Id) (withExtras : Bool) : LeaderboardPage :=
  let rows := ((board s users geoid).drop offset).take (limit + 1)
  let meRow := if withExtras then viewerId.bind (me s users geoid) else none
  let page := pageWith rows limit fun _ => some MORE_PAGES
  { entries := page.1.mapIdx fun i row => entryOf offset row i
    nextOffset := page.2.map fun _ => offset + limit
    participantCount := if withExtras && offset = 0 then some (participants s users geoid).length else none
    viewerRank := meRow.map fun m =>
      ((participants s users geoid).filter fun o => m.totalHours < o.totalHours).length + 1
    viewerHours := meRow.map JurisdictionHours.totalHours }

def clampPageLimit (limit : Option ℚ) (fallback max : ℕ) : ℕ :=
  limit.elim fallback fun n => min (Max.max 1 ⌊n⌋).toNat max

def clampOffset (offset : Option ℚ) : ℕ := offset.elim 0 fun n => min (max 0 ⌊n⌋).toNat LEADERBOARD_MAX_OFFSET

def reachableNextOffset (next : Option ℕ) : Option ℕ := next.filter (· ≤ LEADERBOARD_MAX_OFFSET)

/-- Whether the viewer is told their own rank. -/
def extras (query : LeaderboardQuery) : Bool :=
  query.limit.isNone ||
    decide (LEADERBOARD_EXTRAS_MIN_LIMIT ≤ clampPageLimit query.limit LEADERBOARD_DEFAULT_LIMIT LEADERBOARD_MAX_LIMIT)

def leaderboard (query : LeaderboardQuery) (viewerId : Option Id) : LeaderboardResponse :=
  let limit := clampPageLimit query.limit LEADERBOARD_DEFAULT_LIMIT LEADERBOARD_MAX_LIMIT
  let page := repoLeaderboard s users geoid limit (clampOffset query.offset) viewerId (extras query)
  { entries := page.entries
    nextOffset := reachableNextOffset page.nextOffset
    participantCount := page.participantCount
    viewerRank := if viewerId.isSome && extras query then some page.viewerRank else none
    viewerHours := if viewerId.isSome && extras query then some page.viewerHours else none }

/-- The volunteers with as many hours whose id comes before. -/
def tiedBefore (hours : ℤ) (userId : Id) : ℕ :=
  ((participants s users geoid).filter fun o => o.totalHours = hours && o.userId < userId).length

variable {s users geoid} {row a b : JurisdictionHours}

instance : Std.Total Ranked where
  total a b := by
    have h : ∀ (c d : ℤ) (i j : ℕ), (d < c ∨ (c = d ∧ i ≤ j)) ∨ c < d ∨ (d = c ∧ j ≤ i) := by omega
    exact h _ _ _ _

instance : IsTrans JurisdictionHours Ranked where
  trans a b c hab hbc := by
    have h : ∀ (x y z : ℤ) (i j k : ℕ), y < x ∨ (x = y ∧ i ≤ j) → z < y ∨ (y = z ∧ j ≤ k) →
        z < x ∨ (x = z ∧ i ≤ k) := by omega
    exact h _ _ _ _ _ _ hab hbc

/-- The order of volunteers that are told apart. -/
def Above (a b : JurisdictionHours) : Prop :=
  b.totalHours < a.totalHours ∨ (a.totalHours = b.totalHours ∧ a.userId < b.userId)

instance : DecidableRel Above := fun a b =>
  inferInstanceAs (Decidable (b.totalHours < a.totalHours ∨ (a.totalHours = b.totalHours ∧ a.userId < b.userId)))

theorem above_asymm (a b : JurisdictionHours) (hab : Above a b) : ¬Above b a := by
  have h : ∀ (c d : ℤ) (i j : ℕ), d < c ∨ (c = d ∧ i < j) → ¬(c < d ∨ (d = c ∧ j < i)) := by omega
  exact h _ _ _ _ hab

theorem above_of_ranked (hab : Ranked a b) (hne : a.userId ≠ b.userId) : Above a b :=
  hab.imp_right fun h => ⟨h.1, Nat.lt_of_le_of_ne h.2 hne⟩

theorem nodup_participants (s : Db) (users : Table Volunteer.id) (geoid : Geoid) :
    ((participants s users geoid).map JurisdictionHours.userId).Nodup := by
  have hkeys := List.pairwise_map.mp s.jurisdictionHours.nodup
  refine List.pairwise_map.mpr ((hkeys.filter _).imp_of_mem fun ha hb hne heq => hne ?_)
  have hgeoid : ∀ {x : JurisdictionHours}, x ∈ participants s users geoid → x.jurisdictionGeoid = geoid := fun hx =>
    of_decide_eq_true (Bool.and_eq_true_iff.mp (Bool.and_eq_true_iff.mp (List.mem_filter.mp hx).2).1).1
  exact Prod.ext heq ((hgeoid ha).trans (hgeoid hb).symm)

theorem board_above (s : Db) (users : Table Volunteer.id) (geoid : Geoid) : (board s users geoid).Pairwise Above := by
  have hids : ((board s users geoid).map JurisdictionHours.userId).Nodup :=
    ((List.perm_insertionSort Ranked _).map _).nodup_iff.mpr (nodup_participants s users geoid)
  exact ((List.pairwise_insertionSort Ranked _).and (List.pairwise_map.mp hids)).imp fun h => above_of_ranked h.1 h.2

theorem mem_board : row ∈ board s users geoid ↔ row ∈ participants s users geoid := List.mem_insertionSort Ranked

/-- The place of a volunteer: those with more hours come before, and of those with as many the ones with a smaller id.
-/
theorem place_eq {i : ℕ} (hi : (board s users geoid)[i]? = some row) :
    i = ((participants s users geoid).filter fun o => row.totalHours < o.totalHours).length +
      tiedBefore s users geoid row.totalHours row.userId := by
  have hbefore := ((List.perm_insertionSort Ranked (participants s users geoid)).filter
    fun o => decide (Above o row)).length_eq
  rw [index_eq_length_filter above_asymm (board_above s users geoid) hi]
  change ((board s users geoid).filter fun o => decide (Above o row)).length = _
  rw [board, hbefore, tiedBefore]
  induction participants s users geoid with
  | nil => rfl
  | cons o os ih =>
    simp only [List.filter_cons, Bool.and_eq_true, decide_eq_true_eq] at ih ⊢
    rcases lt_trichotomy row.totalHours o.totalHours with hlt | heq | hgt
    · have habove : Above o row := .inl hlt
      have hne : ¬(o.totalHours = row.totalHours ∧ o.userId < row.userId) := fun h => absurd h.1 hlt.ne'
      rw [if_pos habove, if_pos hlt, if_neg hne, List.length_cons, List.length_cons, ih]
      omega
    · have hnot : ¬row.totalHours < o.totalHours := heq.not_lt
      rw [if_neg hnot]
      by_cases hid : o.userId < row.userId
      · have habove : Above o row := .inr ⟨heq.symm, hid⟩
        rw [if_pos habove, if_pos ⟨heq.symm, hid⟩, List.length_cons, List.length_cons, ih]
        omega
      · have habove : ¬Above o row := fun h => h.elim hnot fun h => hid h.2
        rw [if_neg habove, if_neg fun h => hid h.2, ih]
    · have hnot : ¬row.totalHours < o.totalHours := hgt.not_gt
      have hne : ¬(o.totalHours = row.totalHours ∧ o.userId < row.userId) := fun h => absurd h.1 hgt.ne
      have habove : ¬Above o row := fun h => h.elim hnot hne
      rw [if_neg habove, if_neg hnot, if_neg hne, ih]

theorem pageWith_fst {α : Type} (rows : List α) (limit : ℕ) (encode : α → Option Text) :
    (pageWith rows limit encode).1 = rows.take limit := by
  unfold pageWith
  split
  · next hle => exact (List.take_of_length_le hle).symm
  · dsimp only
    split <;> rfl

/-- An entry stands on the board where its rank says, whichever page it is on. -/
theorem mem_entries {limit offset : ℕ} {viewerId : Option Id} {withExtras : Bool} {e : LeaderboardEntry}
    (he : e ∈ (repoLeaderboard s users geoid limit offset viewerId withExtras).entries) :
    ∃ i row, (board s users geoid)[i]? = some row ∧ e = ⟨i + 1, row.userId, row.totalHours⟩ := by
  unfold repoLeaderboard at he
  dsimp only at he
  rw [pageWith_fst, List.mem_mapIdx] at he
  obtain ⟨i, hi, rfl⟩ := he
  refine ⟨offset + i, _, ?_, rfl⟩
  rw [← List.getElem?_drop, ← List.getElem?_eq_getElem hi, List.take_take, List.getElem?_take_of_lt]
  rw [List.length_take, List.length_take] at hi
  omega

theorem me_eq (hrow : row ∈ participants s users geoid) : me s users geoid row.userId = some row := by
  have hids := nodup_participants s users geoid
  cases h : me s users geoid row.userId with
  | none => exact absurd (decide_eq_true rfl) (List.find?_eq_none.mp h row hrow)
  | some m =>
    have hid := List.find?_some (p := fun o : JurisdictionHours => decide (o.userId = row.userId)) h
    exact congrArg some (List.inj_on_of_nodup_map hids (List.mem_of_find?_eq_some h) hrow (of_decide_eq_true hid))

/-- The viewer is told the rank that their entry has, less the volunteers they are tied with whose id comes before. -/
theorem viewerRank_of_entry (s : Db) (users : Table Volunteer.id) (geoid : Geoid) (query : LeaderboardQuery)
    (limit offset : ℕ) (viewerId : Option Id) (withExtras : Bool) (e : LeaderboardEntry)
    (hextras : extras query = true)
    (he : e ∈ (repoLeaderboard s users geoid limit offset viewerId withExtras).entries) :
    ∃ rank, (leaderboard s users geoid query (some e.userId)).viewerRank = some (some rank) ∧
      rank + tiedBefore s users geoid e.hours e.userId = e.rank := by
  obtain ⟨i, row, hi, rfl⟩ := mem_entries he
  have hrow : row ∈ participants s users geoid := mem_board.mp (List.mem_of_getElem? hi)
  refine ⟨((participants s users geoid).filter fun o => row.totalHours < o.totalHours).length + 1, ?_, ?_⟩
  · simp only [leaderboard, repoLeaderboard, hextras, Option.isSome_some, Bool.and_self, if_true, Option.bind_some,
      me_eq hrow, Option.map_some]
  · rw [Nat.add_right_comm, ← place_eq hi]

/-- Two volunteers with five hours each. -/
def tie : Db where
  entries := Table.empty _
  jurisdictionHours := ⟨[⟨2, "0644000", 500⟩, ⟨1, "0644000", 500⟩], by decide⟩
  audit := []

def tiedVolunteers : Table Volunteer.id := ⟨[⟨1, none, none⟩, ⟨2, none, none⟩], by decide⟩

theorem viewerRank_of_second :
    ∃ rank, (leaderboard tie tiedVolunteers "0644000" ⟨none, none⟩ (some 2)).viewerRank = some (some rank) ∧
      rank + tiedBefore tie tiedVolunteers "0644000" 500 2 = 2 :=
  viewerRank_of_entry tie tiedVolunteers "0644000" ⟨none, none⟩ 20 0 none true ⟨2, 2, 500⟩ (by decide)
    (by decide +kernel)

/-- The second entry of the tie has the rank 2, and its volunteer is told the rank 1. -/
theorem tie_shares_rank : ¬∀ e ∈ (leaderboard tie tiedVolunteers "0644000" ⟨none, none⟩ (some 2)).entries,
    e.userId = 2 → (leaderboard tie tiedVolunteers "0644000" ⟨none, none⟩ (some 2)).viewerRank =
      some (some e.rank) := by
  intro h
  have hrank := h ⟨2, 2, 500⟩ (by decide +kernel) rfl
  have hone : (leaderboard tie tiedVolunteers "0644000" ⟨none, none⟩ (some 2)).viewerRank = some (some 1) := by
    decide +kernel
  rw [hone] at hrank
  cases hrank

end Civfix.Leaderboards
