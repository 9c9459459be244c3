import Mathlib.Data.List.Sort

/-! # Pages of a list by the position of an item

A list that an order sorts is cut at one of its items: what stands after the item is what the order puts after it. The
items that pass a test are read in pages, and the last item of a page is the place where the next one starts. -/
namespace KeysetPages

variable {α : Type} {r : α → α → Prop} {p : α → Bool} {pre post l : List α} {a : α} {n : ℕ}

/-! ## The order of a selection -/

/-- Sorting and selecting commute where the order tells the items of the list apart. -/
theorem insertionSort_filter_of_mem [DecidableRel r] [IsTrans α r] [Std.Total r]
    (hanti : ∀ a ∈ l, ∀ b ∈ l, r a b → r b a → a = b) (p : α → Bool) :
    (l.filter p).insertionSort r = (l.insertionSort r).filter p := by
  have hperm : ((l.filter p).insertionSort r).Perm ((l.insertionSort r).filter p) :=
    (List.perm_insertionSort r _).trans ((List.perm_insertionSort r l).filter p).symm
  refine hperm.eq_of_pairwise (fun a b ha hb => ?_) (List.pairwise_insertionSort r _)
    ((List.pairwise_insertionSort r l).filter p)
  exact hanti a (List.mem_of_mem_filter ((List.mem_insertionSort r).mp ha)) b
    ((List.mem_insertionSort r).mp (List.mem_of_mem_filter hb))

theorem insertionSort_filter [DecidableRel r] [IsTrans α r] [Std.Total r] (hanti : ∀ a b, r a b → r b a → a = b)
    (p : α → Bool) (l : List α) : (l.filter p).insertionSort r = (l.insertionSort r).filter p :=
  insertionSort_filter_of_mem (fun a _ b _ => hanti a b) p

theorem insertionSort_reverse [DecidableRel r] [IsTrans α r] [Std.Total r] (hanti : ∀ a b, r a b → r b a → a = b)
    (h : l.Pairwise fun a b => r b a) : l.insertionSort r = l.reverse := by
  have hperm : (l.insertionSort r).Perm l.reverse := (List.perm_insertionSort r l).trans (List.reverse_perm l).symm
  exact hperm.eq_of_pairwise (fun a b _ _ => hanti a b) (List.pairwise_insertionSort r l) (List.pairwise_reverse.mpr h)

theorem insertionSort_swap {s : α → α → Prop} [DecidableRel r] [DecidableRel s] [IsTrans α r] [Std.Total r]
    [IsTrans α s] [Std.Total s] (hanti : ∀ a b, s a b → s b a → a = b) (hswap : ∀ a b, r a b → s b a) (l : List α) :
    l.insertionSort s = (l.insertionSort r).reverse := by
  have hperm : (l.insertionSort s).Perm (l.insertionSort r).reverse :=
    (List.perm_insertionSort s l).trans ((List.perm_insertionSort r l).symm.trans (List.reverse_perm _).symm)
  exact hperm.eq_of_pairwise (fun a b _ _ => hanti a b) (List.pairwise_insertionSort s l)
    (List.pairwise_reverse.mpr ((List.pairwise_insertionSort r l).imp (hswap _ _)))

/-! ## Reading one more than a page -/

theorem lt_length_take (l : List α) (n : ℕ) : n < (l.take (n + 1)).length ↔ n < l.length := by
  rw [List.length_take]
  omega

theorem page_take (l : List α) (n : ℕ) :
    (if n < l.length then (l.take (n + 1)).take n else l.take (n + 1)) = l.take n := by
  split
  · rw [List.take_take, Nat.min_eq_left (Nat.le_succ n)]
  · rw [List.take_of_length_le (by omega), List.take_of_length_le (by omega)]

/-! ## The place of an item -/

/-- What is selected from both sides of an item. -/
theorem filter_split {q : α → Bool} (hpre : ∀ x ∈ pre, q x = false) (ha : q a = false) (hpost : ∀ x ∈ post, q x = p x) :
    (pre ++ a :: post).filter q = post.filter p := by
  rw [List.filter_append, List.filter_eq_nil_iff.mpr fun x hx => by simp [hpre x hx], List.nil_append,
    List.filter_cons_of_neg (by simp [ha])]
  exact List.filter_congr hpost

/-- An item of a sorted list has as many items before it as the order puts before it. -/
theorem index_eq_length_filter [DecidableRel r] (hasymm : ∀ a b, r a b → ¬r b a) (h : l.Pairwise r) {i : ℕ}
    (hi : l[i]? = some a) : i = (l.filter fun x => decide (r x a)).length := by
  induction l generalizing i with
  | nil => cases hi
  | cons b l ih =>
    obtain ⟨hhead, htail⟩ := List.pairwise_cons.mp h
    cases i with
    | zero =>
      obtain rfl : b = a := Option.some.inj hi
      have hnone : (b :: l).filter (fun x => decide (r x b)) = [] := List.filter_eq_nil_iff.mpr fun x hx hrx => by
        rcases List.mem_cons.mp hx with rfl | hx
        · exact hasymm x x (of_decide_eq_true hrx) (of_decide_eq_true hrx)
        · exact hasymm b x (hhead x hx) (of_decide_eq_true hrx)
      rw [hnone, List.length_nil]
    | succ i =>
      rw [List.getElem?_cons_succ] at hi
      have hb : r b a := hhead a (List.mem_of_getElem? hi)
      rw [List.filter_cons, if_pos (decide_eq_true hb), List.length_cons, ← ih htail hi]

/-- A page of the items that pass ends at an item that passes, and the rest stands after it. -/
theorem exists_split_of_lt (hpos : 0 < n) (h : n < (l.filter p).length) :
    ∃ mid c rest, l = mid ++ c :: rest ∧ p c = true ∧ (mid ++ [c]).filter p = (l.filter p).take n ∧
      rest.filter p = (l.filter p).drop n := by
  have hne : (l.filter p).take n ≠ [] := by
    intro hnil
    have hlen := congrArg List.length hnil
    rw [List.length_take, List.length_nil] at hlen
    omega
  obtain ⟨init, c, htake⟩ := (List.eq_nil_or_concat' _).resolve_left hne
  obtain ⟨as, bs, hl, has, hbs⟩ := List.filter_eq_append_iff.mp (List.take_append_drop n (l.filter p)).symm
  rw [htake] at has
  obtain ⟨mid, tail, hmid, hinit, hlast⟩ := List.filter_eq_append_iff.mp has
  obtain ⟨skipped, tail', htail, hskipped, hc, htail'⟩ := List.filter_eq_cons_iff.mp hlast
  refine ⟨mid ++ skipped, c, tail' ++ bs, ?_, hc, ?_, ?_⟩
  · rw [hl, hmid, htail]
    simp only [List.append_assoc, List.cons_append]
  · have hnone : skipped.filter p = [] := List.filter_eq_nil_iff.mpr hskipped
    rw [List.filter_append, List.filter_append, hinit, hnone, List.append_nil, List.filter_cons_of_pos hc,
      List.filter_nil, htake]
  · have hnone : tail'.filter p = [] := htail'
    rw [List.filter_append, hnone, List.nil_append, hbs]

/-! ## A window around an item -/

/-- The last items before the place and the first ones from it on. -/
def window (before after : List α) (newer older : ℕ) : List α := before.drop (before.length - newer) ++ after.take older

theorem reverse_take_reverse (l : List α) (n : ℕ) : (l.reverse.take n).reverse = l.drop (l.length - n) := by
  rw [List.take_reverse, List.reverse_reverse]

/-- The window is a part of the whole in one piece. -/
theorem window_spec (before after : List α) (newer older : ℕ) :
    before ++ after = before.take (before.length - newer) ++ window before after newer older ++ after.drop older := by
  rw [window, ← List.append_assoc, List.take_append_drop, List.append_assoc, List.take_append_drop]

theorem length_window (before after : List α) (newer older : ℕ) :
    (window before after newer older).length ≤ newer + older := by
  rw [window, List.length_append, List.length_drop, List.length_take]
  omega

/-! ## The first items of several lists -/

theorem take_filter_of_take (h : ∀ x ∈ l.take n, p x = true) : (l.filter p).take n = l.take n := by
  conv_lhs => rw [← List.take_append_drop n l, List.filter_append, List.filter_eq_self.mpr h]
  by_cases hn : n ≤ l.length
  · exact List.take_left' (List.length_take_of_le hn)
  · have hle := Nat.le_of_not_le hn
    rw [List.drop_eq_nil_iff.mpr hle, List.filter_nil, List.append_nil, List.take_take, Nat.min_self]

/-- An item among the first is among the first of those that pass. -/
theorem mem_take_filter {x : α} (h : x ∈ l.take n) (hp : p x = true) : x ∈ (l.filter p).take n := by
  have hlength : ((l.take n).filter p).length ≤ n := (List.length_filter_le _ _).trans (List.length_take_le n l)
  have hmem : x ∈ (l.take n).filter p := List.mem_filter.mpr ⟨h, hp⟩
  have hsplit : l.filter p = (l.take n).filter p ++ (l.drop n).filter p := by
    rw [← List.filter_append, List.take_append_drop]
  rw [hsplit, List.take_append, List.take_of_length_le hlength]
  exact List.mem_append_left _ hmem

/-- To know the first items of the union of lists, the first ones of each list are enough. -/
theorem take_insertionSort_flatten [DecidableEq α] [DecidableRel r] [IsTrans α r] [Std.Total r] {ls : List (List α)}
    (hnodup : ls.flatten.Nodup) (hanti : ∀ a ∈ ls.flatten, ∀ b ∈ ls.flatten, r a b → r b a → a = b) (n : ℕ) :
    ((ls.map fun l => (l.insertionSort r).take n).flatten.insertionSort r).take n =
      (ls.flatten.insertionSort r).take n := by
  have hS : (ls.flatten.insertionSort r).Nodup := (List.perm_insertionSort r _).nodup_iff.mpr hnodup
  have hpart : ∀ m : List α, m.Nodup → m ⊆ ls.flatten →
      m.insertionSort r = (ls.flatten.insertionSort r).filter (fun x => decide (x ∈ m)) := by
    intro m hm hsub
    have hperm : (m.insertionSort r).Perm ((ls.flatten.insertionSort r).filter fun x => decide (x ∈ m)) := by
      refine (List.perm_insertionSort r m).trans ((List.perm_ext_iff_of_nodup hm (hS.filter _)).mpr fun x => ?_)
      rw [List.mem_filter, List.mem_insertionSort, decide_eq_true_eq]
      exact ⟨fun hx => ⟨hsub hx, hx⟩, And.right⟩
    refine hperm.eq_of_pairwise (fun a b ha hb => ?_) (List.pairwise_insertionSort r m)
      ((List.pairwise_insertionSort r _).filter _)
    exact hanti a (hsub ((List.mem_insertionSort r).mp ha)) b
      ((List.mem_insertionSort r).mp (List.mem_of_mem_filter hb))
  have hmem : ∀ l ∈ ls, l ⊆ ls.flatten := fun l hl x hx => List.mem_flatten.mpr ⟨l, hl, hx⟩
  have hsublist : ∀ l ∈ ls, l.Nodup := (List.nodup_flatten.mp hnodup).1
  have htops : ((ls.map fun l => (l.insertionSort r).take n).flatten).Nodup := by
    rw [List.nodup_flatten]
    refine ⟨fun m hm => ?_, ?_⟩
    · obtain ⟨l, hl, rfl⟩ := List.mem_map.mp hm
      exact ((List.perm_insertionSort r l).nodup_iff.mpr (hsublist l hl)).sublist (List.take_sublist n _)
    · rw [List.pairwise_map]
      refine (List.nodup_flatten.mp hnodup).2.imp fun hdisjoint x hx hx' => ?_
      exact hdisjoint ((List.mem_insertionSort r).mp (List.mem_of_mem_take hx))
        ((List.mem_insertionSort r).mp (List.mem_of_mem_take hx'))
  rw [hpart _ htops fun x hx => ?_]
  · refine take_filter_of_take fun x hx => decide_eq_true ?_
    obtain ⟨l, hl, hxl⟩ := List.mem_flatten.mp ((List.mem_insertionSort r).mp (List.mem_of_mem_take hx))
    refine List.mem_flatten.mpr ⟨_, List.mem_map_of_mem hl, ?_⟩
    rw [hpart l (hsublist l hl) (hmem l hl)]
    exact mem_take_filter hx (decide_eq_true hxl)
  · obtain ⟨m, hm, hxm⟩ := List.mem_flatten.mp hx
    obtain ⟨l, hl, rfl⟩ := List.mem_map.mp hm
    exact hmem l hl ((List.mem_insertionSort r).mp (List.mem_of_mem_take hxm))

/-! ## Following the pages -/

section

variable {C : Type} {page : Option C → List α × Option C} {c : Option C} {read rest : List α}

/-- The items that are read from a place on, page by page, until no place is left to go on from. -/
inductive Follows (page : Option C → List α × Option C) : Option C → List α → Prop
  | last {c : Option C} {items : List α} (h : page c = (items, none)) : Follows page c items
  | next {c : Option C} {items rest : List α} {place : C} (h : page c = (items, some place))
      (hrest : Follows page (some place) rest) : Follows page c (items ++ rest)

theorem Follows.unique {l' : List α} (h : Follows page c l) (h' : Follows page c l') : l = l' := by
  induction h generalizing l' with
  | last h =>
    cases h' with
    | last h' => exact congrArg Prod.fst (h.symm.trans h')
    | next h' => cases h.symm.trans h'
  | next h _ ih =>
    cases h' with
    | last h' => cases h.symm.trans h'
    | next h' hrest' =>
      cases h.symm.trans h'
      rw [ih hrest']

/-- A page that leads to itself is never the last. -/
theorem not_follows_of_loop {items items' : List α} {place : C} (h : page c = (items, some place))
    (hloop : page (some place) = (items', some place)) : ¬Follows page c l := by
  have hstay : ∀ {c : Option C} {l : List α}, Follows page c l → c ≠ some place := by
    intro c l hfollows
    induction hfollows with
    | last h =>
      rintro rfl
      cases hloop.symm.trans h
    | next h _ ih =>
      rintro rfl
      cases hloop.symm.trans h
      exact ih rfl
  intro hfollows
  cases hfollows with
  | last h' => cases h.symm.trans h'
  | next h' hrest =>
    cases h.symm.trans h'
    exact hstay hrest rfl

/-- The first items, and the place of the last one of them when there are more. -/
def firstPage (limit : ℕ) (rows : List α) (place : α → C) : List α × Option C :=
  (rows.take limit, if limit < rows.length then (rows.take limit).getLast?.map place else none)

/-- A test goes on with what is left to read: it passes nothing that was read, it passes the items of the next page, and
when there are more of them then one of these. -/
structure Resumes (limit : ℕ) (p : α → Bool) (read rest : List α) : Prop where
  read : ∀ y ∈ read, p y = false
  next : ∀ y ∈ rest.take limit, p y = true
  later : rest.drop limit ≠ [] → ∃ y ∈ rest.drop limit, p y = true

theorem resumes_of_forall (hread : ∀ y ∈ read, p y = false) (hrest : ∀ y ∈ rest, p y = true) (limit : ℕ) :
    Resumes limit p read rest := by
  refine ⟨hread, fun y hy => hrest y (List.mem_of_mem_take hy), fun hne => ?_⟩
  obtain ⟨y, hy⟩ := List.exists_mem_of_ne_nil _ hne
  exact ⟨y, hy, hrest y (List.mem_of_mem_drop hy)⟩

theorem filter_append_of_read (hread : ∀ y ∈ read, p y = false) : (read ++ rest).filter p = rest.filter p := by
  have hnone : read.filter p = [] := List.filter_eq_nil_iff.mpr fun y hy => by rw [hread y hy]; exact Bool.false_ne_true
  rw [List.filter_append, hnone, List.nil_append]

/-- The items of the next page all pass, and more pass if there are more. -/
theorem take_filter_of_resumes {limit : ℕ} (h : Resumes limit p read rest) :
    (rest.filter p).take limit = rest.take limit ∧ (limit < (rest.filter p).length ↔ limit < rest.length) := by
  have hsplit : rest.filter p = rest.take limit ++ (rest.drop limit).filter p := by
    conv_lhs => rw [← List.take_append_drop limit rest]
    rw [List.filter_append, List.filter_eq_self.mpr h.next]
  by_cases hmore : limit < rest.length
  · have hlength : (rest.take limit).length = limit := List.length_take_of_le (Nat.le_of_lt hmore)
    obtain ⟨y, hy, hpass⟩ := h.later (fun hnil => absurd (List.drop_eq_nil_iff.mp hnil) (Nat.not_le_of_lt hmore))
    have hpos : 0 < ((rest.drop limit).filter p).length := List.length_pos_of_mem (List.mem_filter.mpr ⟨hy, hpass⟩)
    refine ⟨by rw [hsplit, List.take_left' hlength], ?_⟩
    rw [hsplit, List.length_append, hlength]
    exact iff_of_true (Nat.lt_add_of_pos_right hpos) hmore
  · have hle := Nat.le_of_not_lt hmore
    have hself : rest.filter p = rest := by
      rw [hsplit, List.drop_eq_nil_iff.mpr hle, List.filter_nil, List.append_nil, List.take_of_length_le hle]
    rw [hself]
    exact ⟨rfl, Iff.rfl⟩

/-- A page is made of one item more than it holds. -/
theorem firstPage_take (limit : ℕ) (rows : List α) (place : α → C) :
    firstPage limit (rows.take (limit + 1)) place = firstPage limit rows place := by
  rw [firstPage, firstPage, List.take_take, Nat.min_eq_left (Nat.le_succ limit)]
  simp only [lt_length_take]

theorem firstPage_of_resumes {limit : ℕ} (h : Resumes limit p read rest) (place : α → C) :
    firstPage limit ((read ++ rest).filter p) place = firstPage limit rest place := by
  obtain ⟨htake, hmore⟩ := take_filter_of_resumes h
  rw [filter_append_of_read h.read, firstPage, htake]
  simp only [hmore, firstPage]

/-- Where the next page begins with what is left to read, the test passes what it has to. -/
theorem resumes_of_append {limit : ℕ} (hpos : 0 < limit) (hnodup : (read ++ rest).Nodup) {items more : List α}
    (hitems : items = ((read ++ rest).filter p).take limit) (happend : items ++ more = rest)
    (hmore : ((read ++ rest).filter p).length ≤ limit → more = []) : Resumes limit p read rest := by
  have hdisjoint := (List.nodup_append'.mp hnodup).2.2
  have hread : ∀ y ∈ read, p y = false := by
    intro y hy
    by_contra hpass
    have hmem : y ∈ read.filter p := List.mem_filter.mpr ⟨hy, Bool.eq_true_of_not_eq_false hpass⟩
    obtain ⟨z, zs, hz⟩ := List.exists_cons_of_ne_nil (List.ne_nil_of_mem hmem)
    -- The first item that passes is one that was read, so the page begins with it.
    have hhead : z ∈ items := by
      obtain ⟨k, rfl⟩ := Nat.exists_eq_add_of_lt hpos
      rw [hitems, List.filter_append, hz, List.cons_append, Nat.zero_add, List.take_succ_cons]
      exact List.mem_cons_self
    have hzread : z ∈ read := (List.mem_filter.mp (by rw [hz]; exact List.mem_cons_self)).1
    exact hdisjoint hzread (happend ▸ List.mem_append_left more hhead)
  rw [filter_append_of_read hread] at hitems hmore
  by_cases hlength : (rest.filter p).length ≤ limit
  · have hall : rest.filter p = rest := by
      have hrest := happend
      rw [hmore hlength, List.append_nil, hitems, List.take_of_length_le hlength] at hrest
      exact hrest
    exact resumes_of_forall hread (List.filter_eq_self.mp hall) limit
  · have hlt := Nat.lt_of_not_le hlength
    have hitemsLength : items.length = limit := by rw [hitems, List.length_take_of_le (Nat.le_of_lt hlt)]
    have htake : items = rest.take limit := by rw [← happend, List.take_left' hitemsLength]
    refine ⟨hread, fun y hy => ?_, fun _ => ?_⟩
    · rw [← htake, hitems] at hy
      exact (List.mem_filter.mp (List.mem_of_mem_take hy)).2
    · have hsplit : (rest.filter p).length = ((rest.take limit).filter p).length + ((rest.drop limit).filter p).length := by
        rw [← List.length_append, ← List.filter_append, List.take_append_drop]
      have hfew : ((rest.take limit).filter p).length ≤ limit :=
        (List.length_filter_le _ _).trans (List.length_take_le limit rest)
      obtain ⟨y, hy⟩ := List.exists_mem_of_length_pos (l := (rest.drop limit).filter p) (by omega)
      exact ⟨y, List.mem_filter.mp hy⟩

theorem follows_next_iff {items tail : List α} {place : C} (h : page c = (items, some place)) :
    Follows page c (items ++ tail) ↔ Follows page (some place) tail := by
  constructor
  · intro hfollows
    generalize hl : items ++ tail = l at hfollows
    cases hfollows with
    | last h' => cases h.symm.trans h'
    | next h' hrest =>
      cases h.symm.trans h'
      rwa [List.append_cancel_left hl]
  · exact .next h

/-- The ends of pages in a list are the end of its first page and those in what is left after it. -/
theorem forall_pageEnds_iff {limit : ℕ} {init tail : List α} {x : α} {P : List α → α → List α → Prop}
    (hlength : init.length + 1 = limit) :
    (∀ mid y post, init ++ x :: tail = mid ++ y :: post → limit ∣ mid.length + 1 → P mid y post) ↔
      P init x tail ∧ ∀ mid y post, tail = mid ++ y :: post → limit ∣ mid.length + 1 → P (init ++ x :: mid) y post := by
  have hdvd : ∀ mid : List α, limit ∣ (init ++ x :: mid).length + 1 ↔ limit ∣ mid.length + 1 := by
    intro mid
    have hlen : (init ++ x :: mid).length + 1 = limit + (mid.length + 1) := by
      rw [List.length_append, List.length_cons, ← hlength]
      omega
    rw [hlen]
    exact Nat.dvd_add_right (Nat.dvd_refl limit)
  constructor
  · intro h
    refine ⟨h init x tail rfl (hlength ▸ Nat.dvd_refl _), fun mid y post htail hmid => ?_⟩
    refine h (init ++ x :: mid) y post ?_ ((hdvd mid).mpr hmid)
    rw [htail, List.append_assoc, List.cons_append]
  · rintro ⟨hhere, hlater⟩ mid y post hsplit hmid
    obtain heq | hlt := Nat.eq_or_lt_of_le (Nat.le_of_dvd (Nat.succ_pos _) hmid)
    · obtain ⟨rfl, hcons⟩ := List.append_inj hsplit (by omega)
      cases hcons
      exact hhere
    · obtain ⟨as, rfl⟩ : ∃ as, mid = init ++ x :: as := by
        rcases List.append_eq_append_iff.mp hsplit with ⟨as, rfl, has⟩ | ⟨as, has, -⟩
        · cases as with
          | nil =>
            rw [List.append_nil] at hlt
            omega
          | cons z as =>
            cases has
            exact ⟨as, rfl⟩
        · have hlen := congrArg List.length has
          rw [List.length_append] at hlen
          omega
      rw [List.append_assoc, List.cons_append] at hsplit
      exact hlater as y post (List.cons_eq_cons.mp (List.append_cancel_left hsplit)).2 ((hdvd as).mp hmid)

/-- A list that is longer than a page, cut after the last item of the page. -/
theorem exists_pageEnd {limit : ℕ} (hpos : 0 < limit) (hmore : limit < rest.length) :
    ∃ init x tail, rest = init ++ x :: tail ∧ init.length + 1 = limit ∧ tail ≠ [] := by
  have hlength : (rest.take limit).length = limit := List.length_take_of_le (Nat.le_of_lt hmore)
  obtain ⟨init, x, htake⟩ := (List.eq_nil_or_concat' (rest.take limit)).resolve_left fun hnil => by
    rw [hnil, List.length_nil] at hlength
    omega
  refine ⟨init, x, rest.drop limit, ?_, ?_, fun hnil => ?_⟩
  · conv_lhs => rw [← List.take_append_drop limit rest, htake]
    rw [List.append_assoc, List.singleton_append]
  · rw [htake, List.length_append, List.length_singleton] at hlength
    exact hlength
  · exact absurd (List.drop_eq_nil_iff.mp hnil) (Nat.not_le_of_lt hmore)

variable {limit : ℕ} {after : Option C → α → Bool} {place : α → C}

/-- Pages that go on with what stands after the last item make up the list; of an item its reader sees `f`. -/
theorem follows_of_slices {β : Type} {page : Option C → List β × Option C} (f : α → β) (hpos : 0 < limit)
    (hslices : ∀ pre x post, l = pre ++ x :: post →
      page (some (place x)) = ((firstPage limit post place).1.map f, (firstPage limit post place).2))
    (hpage : page c = ((firstPage limit rest place).1.map f, (firstPage limit rest place).2)) (hl : l = read ++ rest) :
    Follows page c (rest.map f) := by
  induction hn : rest.length using Nat.strong_induction_on generalizing read rest c with
  | h n ih =>
    subst hn
    by_cases hmore : limit < rest.length
    · obtain ⟨init, x, tail, rfl, hlength, -⟩ := exists_pageEnd hpos hmore
      have hpagec : page c = ((init ++ [x]).map f, some (place x)) := by
        rw [hpage, firstPage, if_pos hmore, List.append_cons,
          List.take_left' (by rw [List.length_append, List.length_singleton, hlength]), List.getLast?_concat,
          Option.map_some]
      have hsplit : l = (read ++ init) ++ x :: tail := by rw [hl, List.append_assoc]
      have hread : l = (read ++ (init ++ [x])) ++ tail := by
        rw [hl, List.append_assoc, List.append_assoc, List.singleton_append]
      have hrest : Follows page (some (place x)) (tail.map f) := by
        refine ih tail.length ?_ (hslices _ _ _ hsplit) hread rfl
        rw [List.length_append, List.length_cons]
        omega
      rw [List.append_cons, List.map_append]
      exact .next hpagec hrest
    · refine .last ?_
      rw [hpage, firstPage, if_neg hmore, List.take_of_length_le (Nat.le_of_not_lt hmore)]

theorem resumes_of_follows (hpos : 0 < limit) (hnodup : (read ++ rest).Nodup)
    (hpage : page c = firstPage limit ((read ++ rest).filter (after c)) place) (h : Follows page c rest) :
    Resumes limit (after c) read rest := by
  cases h with
  | last h =>
    rw [hpage, firstPage, Prod.mk.injEq] at h
    exact resumes_of_append hpos hnodup h.1.symm (List.append_nil _) fun _ => rfl
  | next h hrest =>
    rw [hpage, firstPage, Prod.mk.injEq] at h
    refine resumes_of_append hpos hnodup h.1.symm rfl fun hle => ?_
    rw [if_neg (Nat.not_lt_of_le hle)] at h
    cases h.2

/-- The pages make up the list when each of them goes on where the one before stopped. -/
theorem follows_iff (hpos : 0 < limit) (hnodup : l.Nodup)
    (hplace : ∀ x ∈ l, page (some (place x)) = firstPage limit (l.filter (after (some (place x)))) place)
    (hpage : page c = firstPage limit (l.filter (after c)) place) (hl : l = read ++ rest) :
    Follows page c rest ↔ Resumes limit (after c) read rest ∧
      ∀ mid x post, rest = mid ++ x :: post → limit ∣ mid.length + 1 → post ≠ [] →
        Resumes limit (after (some (place x))) (read ++ (mid ++ [x])) post := by
  induction hn : rest.length using Nat.strong_induction_on generalizing read rest c with
  | h n ih =>
    subst hn hl
    by_cases hres : Resumes limit (after c) read rest
    · rw [and_iff_right hres]
      have hfirst : page c = firstPage limit rest place := hpage.trans (firstPage_of_resumes hres place)
      by_cases hmore : limit < rest.length
      · obtain ⟨init, x, tail, rfl, hlength, htail⟩ := exists_pageEnd hpos hmore
        have hpagec : page c = (init ++ [x], some (place x)) := by
          rw [hfirst, firstPage, if_pos hmore, List.append_cons,
            List.take_left' (by rw [List.length_append, List.length_singleton, hlength]), List.getLast?_concat,
            Option.map_some]
        rw [forall_pageEnds_iff hlength, List.append_cons, follows_next_iff hpagec,
          ih tail.length (by rw [List.length_append, List.length_cons]; omega)
            (hplace x (List.mem_append_right read (List.mem_append_right init List.mem_cons_self)))
            (by rw [List.append_cons, List.append_assoc read]) rfl]
        simp only [htail, ne_eq, not_false_eq_true, forall_const, List.append_assoc, List.cons_append,
          List.nil_append]
      · have hle := Nat.le_of_not_lt hmore
        have hpagec : page c = (rest, none) := by rw [hfirst, firstPage, if_neg hmore, List.take_of_length_le hle]
        refine iff_of_true (.last hpagec) fun mid x post hrest hdvd hpost => ?_
        have hlength := congrArg List.length hrest
        rw [List.length_append, List.length_cons] at hlength
        have hpostpos := List.length_pos_of_ne_nil hpost
        have hlimit := Nat.le_of_dvd (Nat.succ_pos _) hdvd
        omega
    · exact iff_of_false (fun h => hres (resumes_of_follows hpos hnodup hpage h)) fun h => hres h.1

end

end KeysetPages
