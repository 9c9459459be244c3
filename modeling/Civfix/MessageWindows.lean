import Civfix.MessageHistory

/-! # Windows, and the repository in memory

The window around a message is a part, in one piece, of the undeleted messages with the target. The repository in
memory counts indexes where the database compares keys, and answers the same. -/
namespace Civfix.MessageHistory

open CodeUnits KeysetPages

variable {room : Room} {deleted : Text → Bool} {limit : ℕ} {pre post : List Message} {a : Message}

theorem NewerFirst.of_older {a b : Message} (h : Older a b) : NewerFirst b a :=
  (Std.Total.total (r := NewerFirst) b a).resolve_right (older_iff.mp h)

theorem exists_split (ha : a ∈ room.rows) : ∃ pre post, room.newestFirst = pre ++ a :: post :=
  List.append_of_mem (mem_newestFirst.mpr ha)

/-- The undeleted messages together with a target. -/
def shown (room : Room) (deleted : Text → Bool) (target : Message) : List Message :=
  room.newestFirst.filter fun m => !deleted m.id || decide (m.id = target.id)

theorem id_ne_of_split (h : room.newestFirst = pre ++ a :: post) : ∀ m, m ∈ pre ∨ m ∈ post → m.id ≠ a.id := by
  have hids := nodup_newestFirst room
  rw [h, List.map_append, List.map_cons, List.nodup_append, List.nodup_cons] at hids
  rintro m (hm | hm) heq
  · exact hids.2.2 m.id (List.mem_map_of_mem hm) a.id List.mem_cons_self heq
  · exact hids.2.1.1 (heq ▸ List.mem_map_of_mem hm)

theorem filter_shown (l : List Message) (h : ∀ m ∈ l, m.id ≠ a.id) :
    (l.filter fun m => !deleted m.id || decide (m.id = a.id)) = l.filter fun m => !deleted m.id :=
  List.filter_congr fun m hm => by rw [decide_eq_false (h m hm), Bool.or_false]

theorem shown_eq (h : room.newestFirst = pre ++ a :: post) :
    shown room deleted a = (pre.filter fun m => !deleted m.id) ++ a :: post.filter fun m => !deleted m.id := by
  have hne := id_ne_of_split h
  rw [shown, h, List.filter_append, List.filter_cons_of_pos (by simp), filter_shown pre fun m hm => hne m (Or.inl hm),
    filter_shown post fun m hm => hne m (Or.inr hm)]

/-! ## The window of the database -/

theorem olderDesc_eq (h : room.newestFirst = pre ++ a :: post) :
    ((room.rows.filter fun m => (!deleted m.id || decide (m.id = a.id)) && decide (¬ Older a m)).insertionSort
      NewerFirst) = a :: post.filter fun m => !deleted m.id := by
  obtain ⟨hnewer, holder⟩ := newer_of_split h
  have hne := id_ne_of_split h
  have hlist : room.rows.insertionSort NewerFirst = pre ++ a :: post := h
  have hpre : (pre.filter fun m => (!deleted m.id || decide (m.id = a.id)) && decide (¬ Older a m)) = [] :=
    List.filter_eq_nil_iff.mpr fun m hm => by simp [hnewer m hm]
  have hpost : (post.filter fun m => (!deleted m.id || decide (m.id = a.id)) && decide (¬ Older a m)) =
      post.filter fun m => !deleted m.id := by
    refine List.filter_congr fun m hm => ?_
    rw [decide_eq_false (hne m (Or.inr hm)), decide_eq_true (holder m hm).asymm, Bool.or_false, Bool.and_true]
  rw [insertionSort_filter NewerFirst.antisymm, hlist, List.filter_append, hpre, List.nil_append,
    List.filter_cons_of_pos (by simp [Older.irrefl]), hpost]

theorem newerAsc_eq (h : room.newestFirst = pre ++ a :: post) :
    ((room.rows.filter fun m => !deleted m.id && decide (Older a m)).insertionSort OlderFirst) =
      (pre.filter fun m => !deleted m.id).reverse := by
  obtain ⟨hnewer, holder⟩ := newer_of_split h
  have hlist : room.rows.insertionSort NewerFirst = pre ++ a :: post := h
  have hpre : (pre.filter fun m => !deleted m.id && decide (Older a m)) = pre.filter fun m => !deleted m.id :=
    List.filter_congr fun m hm => by rw [decide_eq_true (hnewer m hm), Bool.and_true]
  have hpost : (post.filter fun m => !deleted m.id && decide (Older a m)) = [] :=
    List.filter_eq_nil_iff.mpr fun m hm => by simp [(holder m hm).asymm]
  rw [insertionSort_swap (r := NewerFirst) (s := OlderFirst) (fun a b hab hba => NewerFirst.antisymm a b hba hab)
    (fun a b hab => hab),
    insertionSort_filter NewerFirst.antisymm, hlist, List.filter_append, hpre,
    List.filter_cons_of_neg (by simp [Older.irrefl]), hpost, List.append_nil]

/-- What both repositories answer, by the place of the target. -/
def windowPage (a : Message) (newer older : List Message) (limits : AroundLimits) : ChatHistoryPage :=
  let items := window newer (a :: older) limits.newerLimit limits.olderLimit
  ⟨items, if limits.olderLimit < older.length + 1 then items.getLast?.map Message.id else none,
    if limits.newerLimit < newer.length then items.head?.map Message.id else none⟩

theorem historyAround_eq {id : Text} (hanchor : anchor room id = some a) (h : room.newestFirst = pre ++ a :: post) :
    historyAround room deleted id limit = .ok (windowPage a (pre.filter fun m => !deleted m.id)
      (post.filter fun m => !deleted m.id) (aroundLimits limit)) := by
  rw [historyAround, hanchor]
  simp only [olderDesc_eq h, newerAsc_eq h, mergeAroundWindow, page_take, lt_length_take]
  simp only [reverse_take_reverse, List.length_reverse, List.length_cons, windowPage, window, decide_eq_true_eq]

theorem ne_none_iff_of_nonempty {c : Prop} [Decidable c] {o : Option Text} (h : o ≠ none) :
    (if c then o else none) ≠ none ↔ c := by
  split
  · next hc => exact iff_of_true h hc
  · next hc => exact iff_of_false (fun hne => hne rfl) hc

theorem getLast?_map_ne_none {l : List Message} (h : l ≠ []) : l.getLast?.map Message.id ≠ none := by
  rw [ne_eq, Option.map_eq_none_iff, List.getLast?_eq_none_iff]
  exact h

theorem head?_map_ne_none {l : List Message} (h : l ≠ []) : l.head?.map Message.id ≠ none := by
  rw [ne_eq, Option.map_eq_none_iff, List.head?_eq_none_iff]
  exact h

/-- A page that follows a window starts at the next older undeleted message. -/
theorem head_history_after (h : room.newestFirst = pre ++ a :: post) {n : ℕ} (hpos : 0 < n)
    (hmore : n < (a :: post.filter fun m => !deleted m.id).length) {c : Text}
    (hc : ((a :: post.filter fun m => !deleted m.id).take n).getLast?.map Message.id = some c) {limit : ℕ}
    (hlimit : 0 < limit) :
    (history room deleted (some c) limit).items.head? = ((a :: post.filter fun m => !deleted m.id).drop n).head? := by
  have hne := id_ne_of_split h
  -- The target passes, deleted or not.
  have hshown : ((a :: post).filter fun m => !deleted m.id || decide (m.id = a.id)) =
      a :: post.filter fun m => !deleted m.id := by
    rw [List.filter_cons_of_pos (by simp), filter_shown post fun m hm => hne m (Or.inr hm)]
  rw [← hshown] at hmore hc ⊢
  obtain ⟨mid, e, rest, hsplit, he, htake, hdrop⟩ := exists_split_of_lt hpos hmore
  have hone : [e].filter (fun m => !deleted m.id || decide (m.id = a.id)) = [e] := List.filter_cons_of_pos he
  rw [← htake, List.filter_append, hone, List.getLast?_concat] at hc
  obtain rfl : e.id = c := Option.some.inj hc
  have hlist : room.newestFirst = (pre ++ mid) ++ e :: rest := by
    rw [h, hsplit, List.append_assoc]
  have hemem : e ∈ room.rows := by
    rw [← mem_newestFirst, hlist]
    exact List.mem_append_right _ List.mem_cons_self
  have hfrom : From room (some e.id) rest := by
    rw [From, Option.bind_some, anchor_id hemem]
    exact ⟨pre ++ mid, hlist⟩
  have hrest : ∀ m ∈ rest, m.id ≠ a.id := by
    intro m hm
    cases mid with
    | nil =>
      obtain ⟨rfl, rfl⟩ := List.cons.inj hsplit
      exact hne m (Or.inr hm)
    | cons b mid =>
      refine hne m (Or.inr ?_)
      rw [(List.cons.inj hsplit).2]
      exact List.mem_append_right _ (List.mem_cons_of_mem e hm)
  rw [history_eq hfrom, ← hdrop, filter_shown rest hrest]
  simp only [List.head?_take, if_neg (Nat.pos_iff_ne_zero.mp hlimit)]

/-- A window is one piece of what is shown around its target. -/
theorem historyAround_spec (deleted : Text → Bool) (ha : a ∈ room.rows) (hpos : 0 < limit) :
    ∃ page newer older, historyAround room deleted a.id limit = .ok page ∧
      shown room deleted a = newer ++ page.items ++ older ∧ page.items.length ≤ limit ∧ a ∈ page.items ∧
      (∀ m ∈ newer ++ older, deleted m.id = false) ∧
      (page.nextCursor ≠ none ↔ older ≠ []) ∧ (page.prevCursor ≠ none ↔ newer ≠ []) ∧
      ∀ c, page.nextCursor = some c → ∀ n, 0 < n → (history room deleted (some c) n).items.head? = older.head? := by
  obtain ⟨pre, post, h⟩ := exists_split ha
  obtain ⟨k, hk⟩ : ∃ k, (aroundLimits limit).olderLimit = k + 1 :=
    Nat.exists_eq_succ_of_ne_zero (by simp only [aroundLimits]; omega)
  have hsum : (aroundLimits limit).newerLimit + (aroundLimits limit).olderLimit = limit := by
    simp only [aroundLimits]
    omega
  generalize hP : (pre.filter fun m => !deleted m.id) = P
  generalize hQ : (post.filter fun m => !deleted m.id) = Q
  have hmem : a ∈ window P (a :: Q) (aroundLimits limit).newerLimit (aroundLimits limit).olderLimit := by
    rw [window, hk, List.take_succ_cons]
    exact List.mem_append_right _ List.mem_cons_self
  have hmore : (a :: Q).drop (aroundLimits limit).olderLimit ≠ [] ↔ (aroundLimits limit).olderLimit < Q.length + 1 := by
    rw [ne_eq, List.drop_eq_nil_iff, List.length_cons, Nat.not_le]
  refine ⟨windowPage a P Q (aroundLimits limit), P.take (P.length - (aroundLimits limit).newerLimit),
    (a :: Q).drop (aroundLimits limit).olderLimit, ?_, ?_, ?_, hmem, fun m hm => ?_, ?_, ?_, fun c hc n hn => ?_⟩
  · rw [← hP, ← hQ]
    exact historyAround_eq (anchor_id ha) h
  · rw [shown_eq h, hP, hQ]
    exact window_spec P (a :: Q) _ _
  · exact (length_window _ _ _ _).trans hsum.le
  · rw [hk, List.drop_succ_cons, ← hP, ← hQ] at hm
    rcases List.mem_append.mp hm with hm | hm
    · exact (Bool.not_eq_true' _).mp (List.mem_filter.mp (List.mem_of_mem_take hm)).2
    · exact (Bool.not_eq_true' _).mp (List.mem_filter.mp (List.mem_of_mem_drop hm)).2
  · exact (ne_none_iff_of_nonempty (getLast?_map_ne_none (List.ne_nil_of_mem hmem))).trans hmore.symm
  · refine (ne_none_iff_of_nonempty (head?_map_ne_none (List.ne_nil_of_mem hmem))).trans ?_
    rw [ne_eq, List.take_eq_nil_iff, not_or, ← List.length_eq_zero_iff]
    omega
  · have hlt : (aroundLimits limit).olderLimit < Q.length + 1 :=
      (ne_none_iff_of_nonempty (getLast?_map_ne_none (List.ne_nil_of_mem hmem))).mp
        (hc.trans_ne (Option.some_ne_none c))
    have hlast : (window P (a :: Q) (aroundLimits limit).newerLimit
        (aroundLimits limit).olderLimit).getLast?.map Message.id = some c := by
      rw [← hc, windowPage]
      exact (if_pos hlt).symm
    have hne : (a :: Q).take (k + 1) ≠ [] := List.cons_ne_nil a (Q.take k)
    rw [window, hk, List.getLast?_append_of_ne_nil _ hne] at hlast
    rw [hk] at hlt ⊢
    subst hQ
    exact head_history_after h (Nat.succ_pos k) (by rw [List.length_cons]; exact hlt) hlast hn

/-! ## The repository in memory -/

theorem newestFirst_of_increasing (h : room.rows.Pairwise Older) : room.newestFirst = room.rows.reverse :=
  insertionSort_reverse NewerFirst.antisymm (h.imp NewerFirst.of_older)

theorem findIdx_split (hpre : ∀ m ∈ pre, m.id ≠ a.id) (post : List Message) :
    ((pre ++ a :: post).findIdx fun m => decide (m.id = a.id)) = pre.length := by
  have hnone : (pre.findIdx fun m => decide (m.id = a.id)) = pre.length :=
    List.findIdx_eq_length.mpr fun m hm => decide_eq_false (hpre m hm)
  rw [List.findIdx_append, hnone, if_neg (Nat.lt_irrefl _), List.findIdx_cons, decide_eq_true rfl, cond_true,
    Nat.zero_add]

theorem findIdx?_split (hpre : ∀ m ∈ pre, m.id ≠ a.id) (post : List Message) :
    ((pre ++ a :: post).findIdx? fun m => decide (m.id = a.id)) = some pre.length := by
  rw [List.findIdx?_eq_some_iff_findIdx_eq, findIdx_split hpre]
  exact ⟨by rw [List.length_append, List.length_cons]; omega, rfl⟩

/-- The pages of the two repositories. -/
theorem memoryHistory_eq (hlog : room.rows.Pairwise Older) (deleted : Text → Bool) (before : Option Text) (limit : ℕ)
    (hbefore : ∀ id ∈ before, isUuid id = true → id.map lower = id) :
    memoryHistory room.rows deleted before limit = history room deleted before limit := by
  have hlist := newestFirst_of_increasing hlog
  obtain ⟨post, hfrom, hafter⟩ : ∃ post, From room before post ∧
      afterAnchor room.rows.reverse before = post := by
    cases before with
    | none => exact ⟨room.newestFirst, rfl, hlist.symm⟩
    | some id =>
      rw [afterAnchor, Option.bind_some]
      cases hanchor : anchor room id with
      | some a =>
        obtain ⟨ha, rfl⟩ := (anchor_eq_some (hbefore _ rfl)).mp hanchor
        obtain ⟨pre, post, h⟩ := exists_split ha
        refine ⟨post, ?_, ?_⟩
        · rw [From, Option.bind_some, hanchor]
          exact ⟨pre, h⟩
        · rw [← hlist, h, findIdx?_split fun m hm => id_ne_of_split h m (Or.inl hm)]
          simp only
          rw [List.append_cons, List.drop_left' (by rw [List.length_append, List.length_singleton])]
      | none =>
        have hnone : (room.rows.reverse.findIdx? fun m => decide (m.id = id)) = none := by
          rw [List.findIdx?_eq_none_iff]
          intro m hm
          refine decide_eq_false fun hid => ?_
          have hsome := (anchor_eq_some (hbefore _ rfl)).mpr ⟨List.mem_reverse.mp hm, hid⟩
          rw [hanchor] at hsome
          cases hsome
        refine ⟨room.newestFirst, ?_, ?_⟩
        · rw [From, Option.bind_some, hanchor]
        · rw [hnone]
          exact hlist.symm
  rw [history_eq hfrom, memoryHistory, hafter]

/-- The windows of the two repositories. -/
theorem memoryHistoryAround_eq (hlog : room.rows.Pairwise Older) (deleted : Text → Bool) (around : Text) (limit : ℕ)
    (haround : isUuid around = true → around.map lower = around) :
    memoryHistoryAround room.rows deleted around limit = historyAround room deleted around limit := by
  cases hanchor : anchor room around with
  | none =>
    have hany : (room.rows.any fun m => decide (m.id = around)) = false := by
      rw [List.any_eq_false]
      intro m hm hid
      have hsome := (anchor_eq_some haround).mpr ⟨hm, of_decide_eq_true hid⟩
      rw [hanchor] at hsome
      cases hsome
    rw [memoryHistoryAround, historyAround, hanchor, hany]
    rfl
  | some a =>
    obtain ⟨ha, rfl⟩ := (anchor_eq_some haround).mp hanchor
    obtain ⟨pre, post, h⟩ := exists_split ha
    have hany : (room.rows.any fun m => decide (m.id = a.id)) = true :=
      List.any_eq_true.mpr ⟨a, ha, decide_eq_true rfl⟩
    have hordered : (room.rows.filter fun m => !deleted m.id || decide (m.id = a.id)).reverse =
        (pre.filter fun m => !deleted m.id) ++ a :: post.filter fun m => !deleted m.id := by
      rw [← List.filter_reverse, ← newestFirst_of_increasing hlog]
      exact shown_eq h
    have hpre : ∀ m ∈ pre.filter (fun m => !deleted m.id), m.id ≠ a.id := fun m hm =>
      id_ne_of_split h m (Or.inl (List.mem_of_mem_filter hm))
    have hslice : ∀ P Q : List Message, ∀ limits : AroundLimits,
        slice (P ++ a :: Q) (P.length - limits.newerLimit) (P.length + limits.olderLimit) =
          window P (a :: Q) limits.newerLimit limits.olderLimit := by
      intro P Q limits
      rw [slice, List.take_length_add_append, window, List.drop_append_of_le_length (Nat.sub_le _ _)]
    rw [historyAround_eq hanchor h, memoryHistoryAround, hany, hordered]
    simp only [Bool.not_true, Bool.false_eq_true, if_false, findIdx_split hpre, hslice, windowPage,
      List.length_append, List.length_cons, Nat.add_lt_add_iff_left, Nat.sub_pos_iff_lt]

/-! ## The pages, the windows and the twin -/

theorem descending_newestFirst (room : Room) : room.newestFirst.Pairwise fun a b => Older b a := by
  have hnodup : room.newestFirst.Nodup := List.Nodup.of_map _ (nodup_newestFirst room)
  refine ((sorted_newestFirst room).and hnodup).imp fun hab => ?_
  rw [older_iff]
  exact fun hba => hab.2 (NewerFirst.antisymm _ _ hab.1 hba)

/-- The pages of a room, followed to the end, hold each undeleted message once. -/
theorem follow_all (room : Room) {limit : ℕ} (hpos : 0 < limit) (deletes : ℕ → Text → Bool) (deleted : Text → Bool)
    {fuel : ℕ} (hfuel : room.rows.length < fuel) :
    ∃ l, follow room limit deletes fuel 0 deleted none [] = some l ∧ l.Pairwise (fun a b => Older b a) ∧
      ∀ m, m ∈ l ↔ m ∈ room.rows ∧ deleted m.id = false := by
  have hlen : room.newestFirst.length < fuel := by
    rw [(perm_newestFirst room).length_eq]
    exact hfuel
  refine ⟨_, follow_from hpos deletes 0 (by rw [From, Option.bind_none]) hlen (List.nil_append _).symm
    (fun id hid => (by cases hid)), (descending_newestFirst room).filter _, fun m => ?_⟩
  rw [List.mem_filter, mem_newestFirst, Bool.not_eq_true']

/-- Following the cursor reads each undeleted message once, newest first, whatever is deleted of what was read. A window
is one piece around its target, with cursors that tell whether there is more on each side. The repository in memory
answers the same where the log grew in the order of the keys. -/
theorem history_tiles (room : Room) (deleted : Text → Bool) :
    (∀ limit deletes fuel, 0 < limit → room.rows.length < fuel →
      ∃ l, follow room limit deletes fuel 0 deleted none [] = some l ∧ l.Pairwise (fun a b => Older b a) ∧
        ∀ m, m ∈ l ↔ m ∈ room.rows ∧ deleted m.id = false) ∧
    (∀ target ∈ room.rows, ∀ limit, 0 < limit → ∃ page newer older,
      historyAround room deleted target.id limit = .ok page ∧
      shown room deleted target = newer ++ page.items ++ older ∧ page.items.length ≤ limit ∧ target ∈ page.items ∧
      (∀ m ∈ newer ++ older, deleted m.id = false) ∧
      (page.nextCursor ≠ none ↔ older ≠ []) ∧ (page.prevCursor ≠ none ↔ newer ≠ []) ∧
      ∀ c, page.nextCursor = some c → ∀ n, 0 < n → (history room deleted (some c) n).items.head? = older.head?) ∧
    (room.rows.Pairwise Older → ∀ limit,
      (∀ before, (∀ id ∈ before, isUuid id = true → id.map lower = id) →
        memoryHistory room.rows deleted before limit = history room deleted before limit) ∧
      (∀ around, (isUuid around = true → around.map lower = around) →
        memoryHistoryAround room.rows deleted around limit = historyAround room deleted around limit)) :=
  ⟨fun _ deletes _ hpos hfuel => follow_all room hpos deletes deleted hfuel,
    fun _ htarget _ hpos => historyAround_spec deleted htarget hpos,
    fun hlog limit => ⟨fun before h => memoryHistory_eq hlog deleted before limit h,
      fun around h => memoryHistoryAround_eq hlog deleted around limit h⟩⟩

/-- Two messages of one instant and a later one. -/
def threeMessages : Room where
  rows := [⟨text "00000000-0000-4000-8000-00000000000a", 5⟩, ⟨text "00000000-0000-4000-8000-00000000000b", 5⟩,
    ⟨text "00000000-0000-4000-8000-000000000001", 6⟩]
  ids := by decide +kernel
  canonical := by decide +kernel

theorem history_tiles_threeMessages :
    (∃ l, follow threeMessages 1 (fun _ _ => true) 4 0 (fun _ => false) none [] = some l ∧
      l.Pairwise (fun a b => Older b a) ∧ ∀ m, m ∈ l ↔ m ∈ threeMessages.rows ∧ false = false) ∧
    memoryHistoryAround threeMessages.rows (fun _ => false) (text "00000000-0000-4000-8000-00000000000b") 1 =
      historyAround threeMessages (fun _ => false) (text "00000000-0000-4000-8000-00000000000b") 1 :=
  ⟨(history_tiles threeMessages fun _ => false).1 1 (fun _ _ => true) 4 (by decide) (by decide),
    ((history_tiles threeMessages fun _ => false).2.2 (by decide +kernel) 1).2 _ (by decide +kernel)⟩

end Civfix.MessageHistory
