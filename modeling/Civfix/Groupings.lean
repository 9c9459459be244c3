import Mathlib.Data.List.Induction
import Mathlib.Data.List.Nodup
import Mathlib.Data.List.Perm.Basic

/-! # Groups of a list by a key

The keys of a list in the order in which they first appear, and the items of each key in the order of the list. -/
namespace Groupings

variable {α κ μ : Type} [DecidableEq κ] [DecidableEq μ] {key : α → κ} {l l' : List α} {k : κ}

def group (key : α → κ) (l : List α) (k : κ) : List α := l.filter fun a => decide (key a = k)

def keys (key : α → κ) (l : List α) : List κ := l.foldl (fun ks a => if key a ∈ ks then ks else ks ++ [key a]) []

theorem group_append (key : α → κ) (l l' : List α) (k : κ) : group key (l ++ l') k = group key l k ++ group key l' k :=
  List.filter_append _ _

theorem mem_group {a : α} : a ∈ group key l k ↔ a ∈ l ∧ key a = k := by
  rw [group, List.mem_filter, decide_eq_true_eq]

theorem group_ne_nil : group key l k ≠ [] ↔ ∃ a ∈ l, key a = k := by
  rw [Ne, List.eq_nil_iff_forall_not_mem, not_forall]
  simp only [mem_group, not_not]

theorem group_perm (h : l.Perm l') (key : α → κ) (k : κ) : (group key l k).Perm (group key l' k) := h.filter _

/-- One more item brings its key, if that is new. -/
theorem keys_concat (key : α → κ) (l : List α) (a : α) :
    keys key (l ++ [a]) = if key a ∈ keys key l then keys key l else keys key l ++ [key a] := by
  rw [keys, List.foldl_append]
  rfl

theorem mem_keys : k ∈ keys key l ↔ ∃ a ∈ l, key a = k := by
  induction l using List.reverseRecOn with
  | nil => simp only [keys, List.foldl_nil, List.not_mem_nil, false_and, exists_false]
  | append_singleton l a ih =>
    rw [keys_concat]
    simp only [List.mem_append, List.mem_singleton, or_and_right, exists_or, exists_eq_left]
    by_cases ha : key a ∈ keys key l
    · rw [if_pos ha, ih]
      refine ⟨Or.inl, fun h => ?_⟩
      rcases h with h | rfl
      · exact h
      · exact ih.1 ha
    · rw [if_neg ha, List.mem_append, ih, List.mem_singleton, eq_comm (a := k)]

theorem nodup_keys (key : α → κ) (l : List α) : (keys key l).Nodup := by
  induction l using List.reverseRecOn with
  | nil => exact List.nodup_nil
  | append_singleton l a ih =>
    rw [keys_concat]
    split
    · exact ih
    · next ha =>
      refine List.nodup_append.2 ⟨ih, List.nodup_singleton _, fun k hk k' hk' => ?_⟩
      rw [List.mem_singleton.1 hk']
      rintro rfl
      exact ha hk

theorem keys_perm (h : l.Perm l') (key : α → κ) : (keys key l).Perm (keys key l') := by
  refine (List.perm_ext_iff_of_nodup (nodup_keys key l) (nodup_keys key l')).2 fun k => ?_
  simp only [mem_keys, h.mem_iff]

/-- The groups of all keys are the list. -/
theorem perm_flatMap_group {ks : List κ} (hn : ks.Nodup) (hmem : ∀ a ∈ l, key a ∈ ks) :
    (ks.flatMap (group key l)).Perm l := by
  induction ks generalizing l with
  | nil =>
    cases l with
    | nil => exact List.Perm.refl _
    | cons a l => exact absurd (hmem a List.mem_cons_self) List.not_mem_nil
  | cons k ks ih =>
    obtain ⟨hk, hn⟩ := List.nodup_cons.1 hn
    have hrest : ∀ a ∈ l.filter (fun a => !decide (key a = k)), key a ∈ ks := by
      intro a ha
      obtain ⟨hal, hne⟩ := List.mem_filter.1 ha
      rcases List.mem_cons.1 (hmem a hal) with heq | hks
      · exact absurd heq (by simpa using hne)
      · exact hks
    have hgroups : ks.flatMap (group key (l.filter fun a => !decide (key a = k))) = ks.flatMap (group key l) := by
      refine List.flatMap_congr fun k' hk' => ?_
      rw [group, group, List.filter_filter]
      refine List.filter_congr fun a _ => ?_
      by_cases ha : key a = k'
      · have hne : ¬key a = k := fun heq => hk (by rw [← heq, ha]; exact hk')
        simp only [ha, decide_true, Bool.true_and]
        rw [← ha]
        simp only [hne, decide_false, Bool.not_false]
      · simp only [ha, decide_false, Bool.false_and]
    have hperm := ih hn hrest
    rw [hgroups] at hperm
    rw [List.flatMap_cons]
    exact (hperm.append_left (group key l k)).trans (List.filter_append_perm (fun a => decide (key a = k)) l)

/-- A group of a coarser key is made of the groups of the finer keys that belong to it. -/
theorem group_perm_flatMap {coarse : α → μ} {parent : κ → μ} (h : ∀ a ∈ l, coarse a = parent (key a)) (c : μ) :
    (((keys key l).filter fun k => decide (parent k = c)).flatMap (group key l)).Perm (group coarse l c) := by
  have hn : ((keys key l).filter fun k => decide (parent k = c)).Nodup := (nodup_keys key l).filter _
  have hmem : ∀ a ∈ group coarse l c, key a ∈ (keys key l).filter fun k => decide (parent k = c) := by
    intro a ha
    obtain ⟨hal, hc⟩ := mem_group.1 ha
    rw [List.mem_filter, decide_eq_true_eq, ← h a hal]
    exact ⟨mem_keys.2 ⟨a, hal, rfl⟩, hc⟩
  have hgroups : ((keys key l).filter fun k => decide (parent k = c)).flatMap (group key (group coarse l c)) =
      ((keys key l).filter fun k => decide (parent k = c)).flatMap (group key l) := by
    refine List.flatMap_congr fun k hk => ?_
    have hparent : parent k = c := by simpa using (List.mem_filter.1 hk).2
    rw [group, group, group, List.filter_filter]
    refine List.filter_congr fun a ha => ?_
    by_cases hkey : key a = k
    · simp only [h a ha, hkey, hparent, decide_true, Bool.and_self]
    · simp only [hkey, decide_false, Bool.false_and]
  rw [← hgroups]
  exact perm_flatMap_group hn hmem

end Groupings
