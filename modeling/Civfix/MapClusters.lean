import Mathlib.Data.Rat.Floor
import Mathlib.Algebra.Order.Floor.Ring
import Mathlib.Algebra.BigOperators.Group.List.Basic
import Civfix.Groupings
import Civfix.JsonTexts
import Civfix.KeyedTables

/-! # Clusters of reports on the map

Below a threshold of the zoom the map shows no pins but the reports of each cell of a grid as one, with their number and
their mean. The cells are kept under texts of their places in the grid, and each zoom step halves them. -/
namespace Civfix.MapClusters

open CodeUnits JsonTexts Groupings KeyedTables

def CLUSTER_ZOOM_THRESHOLD : ℚ := 10
def DEGREES_OF_LONGITUDE : ℚ := 360

/-- A number of the source, exact where it is finite. -/
inductive Zoom where
  | finite (z : ℚ)
  | infinite (positive : Bool)
  | notANumber

namespace Zoom

def reachesThreshold : Zoom → Bool
  | finite z => decide (CLUSTER_ZOOM_THRESHOLD ≤ z)
  | infinite positive => positive
  | notANumber => false

def safe : Zoom → ℚ
  | finite z => z
  | infinite _ => 0
  | notANumber => 0

end Zoom

structure ReportMapPoint where
  id : Text
  lat : ℚ
  lng : ℚ
  category : Text
  type : Text
  status : Text
  title : Option Text
  description : Option Text
  addr : Option Text
  referenceCode : Option Text
  thumbKey : Option Text
  r2Key : Option Text
  confirmCount : ℕ
  fixedCount : ℕ

structure UnsignedReportPin where
  id : Text
  category : Text
  type : Text
  lat : ℚ
  lng : ℚ
  status : Text
  title : Option Text
  description : Option Text
  addr : Option Text
  referenceCode : Option Text
  thumbKey : Option Text
  r2Key : Option Text
  confirmCount : ℕ
  fixedCount : ℕ

structure ReportClusterDTO where
  lat : ℚ
  lng : ℚ
  count : ℕ
  deriving DecidableEq

structure MapReports where
  clusters : List ReportClusterDTO
  pins : List UnsignedReportPin

def clusterCellSizeDeg (zoom : Zoom) : ℚ := DEGREES_OF_LONGITUDE / 2 ^ ((max 0 ⌊zoom.safe⌋).toNat + 1)

def mapPointToUnsignedPin (p : ReportMapPoint) : UnsignedReportPin where
  id := p.id
  category := p.category
  type := p.type
  lat := p.lat
  lng := p.lng
  status := p.status
  title := p.title
  description := p.description
  addr := p.addr
  referenceCode := p.referenceCode
  thumbKey := p.thumbKey
  r2Key := p.r2Key
  confirmCount := p.confirmCount
  fixedCount := p.fixedCount

abbrev Cell := ℤ × ℤ

def cellOf (size : ℚ) (lat lng : ℚ) : Cell := (⌊lng / size⌋, ⌊lat / size⌋)

def cellKey (c : Cell) : Text := integerText c.1 ++ 58 :: integerText c.2

structure Sums where
  latSum : ℚ
  lngSum : ℚ
  count : ℕ

abbrev Cells := Table (Prod.fst : Text × Sums → Text)

def addPoint (size : ℚ) (cells : Cells) (p : ReportMapPoint) : Cells :=
  let key := cellKey (cellOf size p.lat p.lng)
  match cells.find? key with
  | some _ =>
    cells.modify key (fun row => (row.1, ⟨row.2.latSum + p.lat, row.2.lngSum + p.lng, row.2.count + 1⟩)) fun _ => rfl
  | none => cells.insert (key, ⟨p.lat, p.lng, 1⟩)

def clusterByZoom (points : List ReportMapPoint) (zoom : Zoom) : MapReports :=
  if zoom.reachesThreshold then ⟨[], points.map mapPointToUnsignedPin⟩
  else
    let size := clusterCellSizeDeg zoom
    let cells := points.foldl (addPoint size) (Table.empty _)
    ⟨cells.rows.map fun row => ⟨row.2.latSum / row.2.count, row.2.lngSum / row.2.count, row.2.count⟩, []⟩

/-! ## Keys of cells -/

theorem cellKey_injective : Function.Injective cellKey := by
  rintro ⟨gx, gy⟩ ⟨gx', gy'⟩ h
  obtain ⟨hx, hy⟩ := integerText_append rfl rfl h
  exact Prod.ext hx (integerText_injective (List.cons.inj hy).2)

/-! ## What the cells hold -/

section

variable {size : ℚ} {points points' : List ReportMapPoint} {c : Cell} {zoom : Zoom}

/-- The cell of a point. -/
def pointCell (size : ℚ) (p : ReportMapPoint) : Cell := cellOf size p.lat p.lng

def sums (points : List ReportMapPoint) : Sums :=
  ⟨(points.map ReportMapPoint.lat).sum, (points.map ReportMapPoint.lng).sum, points.length⟩

/-- The cluster of the points of a cell. -/
def clusterOf (size : ℚ) (points : List ReportMapPoint) (c : Cell) : ReportClusterDTO :=
  let s := sums (group (pointCell size) points c)
  ⟨s.latSum / s.count, s.lngSum / s.count, s.count⟩

def occupied (size : ℚ) (points : List ReportMapPoint) : List Cell := keys (pointCell size) points

theorem sums_concat (points : List ReportMapPoint) (p : ReportMapPoint) :
    sums (points ++ [p]) = ⟨(sums points).latSum + p.lat, (sums points).lngSum + p.lng, (sums points).count + 1⟩ := by
  simp only [sums, List.map_append, List.map_cons, List.map_nil, List.sum_append, List.sum_singleton,
    List.length_append,
    List.length_singleton]

theorem group_concat_self (points : List ReportMapPoint) (p : ReportMapPoint) :
    group (pointCell size) (points ++ [p]) (pointCell size p) =
      group (pointCell size) points (pointCell size p) ++ [p] := by
  rw [group_append]
  simp [group]

theorem group_concat_of_ne {p : ReportMapPoint} (h : pointCell size p ≠ c) (points : List ReportMapPoint) :
    group (pointCell size) (points ++ [p]) c = group (pointCell size) points c := by
  rw [group_append]
  simp [group, h]

theorem occupied_concat_of_mem {p : ReportMapPoint} (h : pointCell size p ∈ occupied size points) :
    occupied size (points ++ [p]) = occupied size points :=
  (keys_concat _ _ _).trans (if_pos h)

theorem occupied_concat_of_not_mem {p : ReportMapPoint} (h : pointCell size p ∉ occupied size points) :
    occupied size (points ++ [p]) = occupied size points ++ [pointCell size p] :=
  (keys_concat _ _ _).trans (if_neg h)

/-- After every point the map holds the occupied cells, each with the sums over its points. -/
theorem rows_foldl (size : ℚ) (points : List ReportMapPoint) :
    (points.foldl (addPoint size) (Table.empty _)).rows =
      (occupied size points).map fun c => (cellKey c, sums (group (pointCell size) points c)) := by
  induction points using List.reverseRecOn with
  | nil => rfl
  | append_singleton points p ih =>
    rw [List.foldl_append, List.foldl_cons, List.foldl_nil]
    obtain ⟨cells, hcells⟩ : ∃ cells, cells = points.foldl (addPoint size) (Table.empty _) := ⟨_, rfl⟩
    rw [← hcells] at ih ⊢
    have hkeys : cells.rows.map Prod.fst = (occupied size points).map cellKey := by
      rw [ih, List.map_map]
      rfl
    by_cases hp : pointCell size p ∈ occupied size points
    · have hmem : cellKey (pointCell size p) ∈ cells.rows.map Prod.fst := by
        rw [hkeys]
        exact List.mem_map_of_mem hp
      obtain ⟨row, hfind⟩ : ∃ row, cells.find? (cellKey (pointCell size p)) = some row := by
        cases hfind : cells.find? (cellKey (pointCell size p)) with
        | none => exact absurd hmem (Table.find?_eq_none.1 hfind)
        | some row => exact ⟨row, rfl⟩
      have hstep : addPoint size cells p = cells.modify (cellKey (pointCell size p))
          (fun row => (row.1, ⟨row.2.latSum + p.lat, row.2.lngSum + p.lng, row.2.count + 1⟩)) fun _ => rfl := by
        rw [addPoint]
        change (match cells.find? (cellKey (pointCell size p)) with | some _ => _ | none => _) = _
        rw [hfind]
        rfl
      rw [occupied_concat_of_mem hp, hstep]
      change cells.rows.map (fun row => if row.1 = cellKey (pointCell size p) then
        (row.1, ⟨row.2.latSum + p.lat, row.2.lngSum + p.lng, row.2.count + 1⟩) else row) = _
      rw [ih, List.map_map]
      refine List.map_congr_left fun c _ => ?_
      by_cases hc : pointCell size p = c
      · subst hc
        simp only [Function.comp, if_true, group_concat_self, sums_concat]
      · have hkey : cellKey c ≠ cellKey (pointCell size p) := fun heq => hc (cellKey_injective heq).symm
        simp only [Function.comp, if_neg hkey, group_concat_of_ne hc]
    · have hnone : cells.find? (cellKey (pointCell size p)) = none := by
        rw [Table.find?_eq_none, hkeys, List.mem_map]
        rintro ⟨c, hc, heq⟩
        rw [cellKey_injective heq] at hc
        exact hp hc
      have hstep : addPoint size cells p = cells.insert (cellKey (pointCell size p), ⟨p.lat, p.lng, 1⟩) := by
        rw [addPoint]
        change (match cells.find? (cellKey (pointCell size p)) with | some _ => _ | none => _) = _
        rw [hnone]
        rfl
      have hempty : group (pointCell size) points (pointCell size p) = [] := by
        by_contra hne
        exact hp (mem_keys.2 (group_ne_nil.1 hne))
      rw [occupied_concat_of_not_mem hp, hstep, Table.insert_of_find?_none hnone, ih, List.map_append,
        List.map_singleton,
        group_concat_self, hempty]
      congr 1
      · refine List.map_congr_left fun c hc => ?_
        have hne : pointCell size p ≠ c := fun heq => hp (by rw [heq]; exact hc)
        rw [group_concat_of_ne hne]
      · simp [sums]

theorem clusters_eq (h : zoom.reachesThreshold = false) : (clusterByZoom points zoom).clusters =
    (occupied (clusterCellSizeDeg zoom) points).map (clusterOf (clusterCellSizeDeg zoom) points) := by
  rw [clusterByZoom, if_neg (by rw [h]; decide)]
  dsimp only
  rw [rows_foldl, List.map_map]
  rfl

theorem clusterOf_perm (h : points.Perm points') (size : ℚ) (c : Cell) :
    clusterOf size points c = clusterOf size points' c := by
  have hgroup := group_perm h (pointCell size) c
  have hsums : sums (group (pointCell size) points c) = sums (group (pointCell size) points' c) := by
    rw [sums, sums, (hgroup.map ReportMapPoint.lat).sum_eq, (hgroup.map ReportMapPoint.lng).sum_eq, hgroup.length_eq]
  rw [clusterOf, clusterOf, hsums]

/-! ## Centres -/

/-- The mean of numbers in one step of a grid is in that step. -/
theorem floor_mean {size : ℚ} (hsize : 0 < size) {xs : List ℚ} (hne : xs ≠ []) {g : ℤ} (h : ∀ x ∈ xs, ⌊x / size⌋ = g) :
    ⌊xs.sum / xs.length / size⌋ = g := by
  have hbounds : (∀ x ∈ xs, (g : ℚ) * size ≤ x ∧ x < (g + 1) * size) := by
    intro x hx
    obtain ⟨hlower, hupper⟩ := Int.floor_eq_iff.1 (h x hx)
    exact ⟨(le_div_iff₀ hsize).1 hlower, (div_lt_iff₀ hsize).1 hupper⟩
  have hsum : (xs.length : ℚ) * (g * size) ≤ xs.sum ∧ xs.sum < xs.length * ((g + 1) * size) := by
    clear h
    induction xs with
    | nil => exact absurd rfl hne
    | cons x xs ih =>
      obtain ⟨hlower, hupper⟩ := hbounds x List.mem_cons_self
      cases xs with
      | nil =>
        simp only [List.length_singleton, List.sum_singleton, Nat.cast_one, one_mul]
        exact ⟨hlower, hupper⟩
      | cons y xs =>
        obtain ⟨hrestLower, hrestUpper⟩ :=
          ih (List.cons_ne_nil y xs) fun z hz => hbounds z (List.mem_cons_of_mem _ hz)
        rw [List.sum_cons, List.length_cons, Nat.cast_succ]
        constructor
        · linarith
        · linarith
  have hlength : (0 : ℚ) < xs.length := by exact_mod_cast List.length_pos_iff.2 hne
  refine Int.floor_eq_iff.2 ⟨?_, ?_⟩
  · rw [le_div_iff₀ hsize, le_div_iff₀ hlength]
    linarith [hsum.1]
  · rw [div_lt_iff₀ hsize, div_lt_iff₀ hlength]
    linarith [hsum.2]

theorem cellOf_clusterOf (hsize : 0 < size) (h : c ∈ occupied size points) :
    cellOf size (clusterOf size points c).lat (clusterOf size points c).lng = c := by
  have hne : group (pointCell size) points c ≠ [] := group_ne_nil.2 (mem_keys.1 h)
  have hcell : ∀ p ∈ group (pointCell size) points c, cellOf size p.lat p.lng = c := fun p hp => (mem_group.1 hp).2
  have hlat : ⌊((group (pointCell size) points c).map ReportMapPoint.lat).sum /
      ((group (pointCell size) points c).map ReportMapPoint.lat).length / size⌋ = c.2 := by
    refine floor_mean hsize (by simpa using hne) fun x hx => ?_
    obtain ⟨p, hp, rfl⟩ := List.mem_map.1 hx
    exact congrArg Prod.snd (hcell p hp)
  have hlng : ⌊((group (pointCell size) points c).map ReportMapPoint.lng).sum /
      ((group (pointCell size) points c).map ReportMapPoint.lng).length / size⌋ = c.1 := by
    refine floor_mean hsize (by simpa using hne) fun x hx => ?_
    obtain ⟨p, hp, rfl⟩ := List.mem_map.1 hx
    exact congrArg Prod.fst (hcell p hp)
  rw [List.length_map] at hlat hlng
  exact Prod.ext hlng hlat

/-! ## From one zoom to the next -/

theorem clusterCellSizeDeg_pos (zoom : Zoom) : 0 < clusterCellSizeDeg zoom := by
  rw [clusterCellSizeDeg, DEGREES_OF_LONGITUDE]
  positivity

theorem clusterCellSizeDeg_succ {z : ℤ} (hz : 0 ≤ z) :
    clusterCellSizeDeg (.finite z) = 2 * clusterCellSizeDeg (.finite (z + 1 : ℤ)) := by
  have hnext : (max 0 (z + 1)).toNat = (max 0 z).toNat + 1 := by omega
  rw [clusterCellSizeDeg, clusterCellSizeDeg, Zoom.safe, Zoom.safe, Int.floor_intCast, Int.floor_intCast, hnext,
    pow_succ]
  ring

theorem clusterCellSizeDeg_succ_of_neg {z : ℤ} (hz : z < 0) :
    clusterCellSizeDeg (.finite z) = clusterCellSizeDeg (.finite (z + 1 : ℤ)) := by
  have hnext : (max 0 (z + 1)).toNat = (max 0 z).toNat := by omega
  rw [clusterCellSizeDeg, clusterCellSizeDeg, Zoom.safe, Zoom.safe, Int.floor_intCast, Int.floor_intCast, hnext]

/-- The cell of an integer zoom in which a cell of the next zoom lies. -/
def parentCell (z : ℤ) (c : Cell) : Cell := if 0 ≤ z then (c.1 / 2, c.2 / 2) else c

theorem cellOf_parent (z : ℤ) (lat lng : ℚ) : cellOf (clusterCellSizeDeg (.finite z)) lat lng =
    parentCell z (cellOf (clusterCellSizeDeg (.finite (z + 1 : ℤ))) lat lng) := by
  by_cases hz : 0 ≤ z
  · have hhalf : ∀ x s : ℚ, ⌊x / (2 * s)⌋ = ⌊x / s⌋ / 2 := by
      intro x s
      have hfloor := Int.floor_div_natCast (x / s) 2
      rw [mul_comm, ← div_div]
      exact_mod_cast hfloor
    rw [parentCell, if_pos hz, clusterCellSizeDeg_succ hz, cellOf, cellOf, hhalf, hhalf]
  · rw [parentCell, if_neg hz, clusterCellSizeDeg_succ_of_neg (not_le.1 hz)]

/-- The occupied cells of the next zoom that lie in a cell. -/
def children (z : ℤ) (points : List ReportMapPoint) (c : Cell) : List Cell :=
  (occupied (clusterCellSizeDeg (.finite (z + 1 : ℤ))) points).filter fun k => decide (parentCell z k = c)

theorem children_perm (z : ℤ) (points : List ReportMapPoint) (c : Cell) :
    ((children z points c).flatMap (group (pointCell (clusterCellSizeDeg (.finite (z + 1 : ℤ)))) points)).Perm
      (group (pointCell (clusterCellSizeDeg (.finite z))) points c) :=
  group_perm_flatMap (fun p _ => cellOf_parent z p.lat p.lng) c

theorem sum_map_flatMap (f : ReportMapPoint → ℚ) (g : Cell → List ReportMapPoint) (ks : List Cell) :
    ((ks.flatMap g).map f).sum = (ks.map fun k => ((g k).map f).sum).sum := by
  induction ks with
  | nil => rfl
  | cons k ks ih => rw [List.flatMap_cons, List.map_append, List.sum_append, ih, List.map_cons, List.sum_cons]

theorem clusterOf_mul_count (h : c ∈ occupied size points) :
    (clusterOf size points c).lat * (clusterOf size points c).count =
        ((group (pointCell size) points c).map ReportMapPoint.lat).sum ∧
      (clusterOf size points c).lng * (clusterOf size points c).count =
        ((group (pointCell size) points c).map ReportMapPoint.lng).sum := by
  have hne : group (pointCell size) points c ≠ [] := group_ne_nil.2 (mem_keys.1 h)
  have hcount : ((group (pointCell size) points c).length : ℚ) ≠ 0 := by
    exact_mod_cast (List.length_pos_iff.2 hne).ne'
  exact ⟨div_mul_cancel₀ _ hcount, div_mul_cancel₀ _ hcount⟩

/-- A cluster is made of the clusters of the next zoom that lie in its cell. -/
theorem clusterOf_children (z : ℤ) (points : List ReportMapPoint) (c : Cell) :
    (clusterOf (clusterCellSizeDeg (.finite z)) points c).count =
        (((children z points c).map (clusterOf (clusterCellSizeDeg (.finite (z + 1 : ℤ))) points)).map
          ReportClusterDTO.count).sum ∧
      (clusterOf (clusterCellSizeDeg (.finite z)) points c).lat =
        (((children z points c).map (clusterOf (clusterCellSizeDeg (.finite (z + 1 : ℤ))) points)).map
            fun k : ReportClusterDTO => k.lat * k.count).sum /
              (clusterOf (clusterCellSizeDeg (.finite z)) points c).count ∧
      (clusterOf (clusterCellSizeDeg (.finite z)) points c).lng =
        (((children z points c).map (clusterOf (clusterCellSizeDeg (.finite (z + 1 : ℤ))) points)).map
            fun k : ReportClusterDTO => k.lng * k.count).sum /
              (clusterOf (clusterCellSizeDeg (.finite z)) points c).count := by
  have hperm := children_perm z points c
  have hoccupied : ∀ k ∈ children z points c, k ∈ occupied (clusterCellSizeDeg (.finite (z + 1 : ℤ))) points :=
    fun k hk => (List.mem_filter.1 hk).1
  refine ⟨?_, ?_, ?_⟩
  · change (group _ points c).length = _
    rw [← hperm.length_eq, List.length_flatMap, List.map_map]
    rfl
  · change ((group _ points c).map ReportMapPoint.lat).sum / _ = _
    rw [← (hperm.map ReportMapPoint.lat).sum_eq, sum_map_flatMap, List.map_map]
    congr 2
    exact List.map_congr_left fun k hk => (clusterOf_mul_count (hoccupied k hk)).1.symm
  · change ((group _ points c).map ReportMapPoint.lng).sum / _ = _
    rw [← (hperm.map ReportMapPoint.lng).sum_eq, sum_map_flatMap, List.map_map]
    congr 2
    exact List.map_congr_left fun k hk => (clusterOf_mul_count (hoccupied k hk)).2.symm

/-- The clusters of a zoom below the threshold are those of the occupied cells, one of each: with the number of its
points and a centre inside the cell, in whatever order the points come. Up to the last zoom below the threshold, a
cluster is the union of the clusters of the next zoom in its cell. -/
theorem clusters_conserve (points : List ReportMapPoint) :
    (∀ zoom : Zoom, zoom.reachesThreshold = false →
      ((occupied (clusterCellSizeDeg zoom) points).Nodup ∧
        ∀ c, c ∈ occupied (clusterCellSizeDeg zoom) points ↔
          ∃ p ∈ points, cellOf (clusterCellSizeDeg zoom) p.lat p.lng = c) ∧
      (clusterByZoom points zoom).clusters =
        (occupied (clusterCellSizeDeg zoom) points).map (clusterOf (clusterCellSizeDeg zoom) points) ∧
      (∀ c ∈ occupied (clusterCellSizeDeg zoom) points,
        (clusterOf (clusterCellSizeDeg zoom) points c).count =
            (points.filter fun p => decide (cellOf (clusterCellSizeDeg zoom) p.lat p.lng = c)).length ∧
          cellOf (clusterCellSizeDeg zoom) (clusterOf (clusterCellSizeDeg zoom) points c).lat
            (clusterOf (clusterCellSizeDeg zoom) points c).lng = c) ∧
      ∀ points', points.Perm points' →
        (clusterByZoom points zoom).clusters.Perm (clusterByZoom points' zoom).clusters) ∧
    ∀ z : ℤ, (Zoom.finite (z + 1 : ℤ)).reachesThreshold = false →
      ∀ c ∈ occupied (clusterCellSizeDeg (.finite z)) points, ∃ finer : List Cell,
        (finer.map (clusterOf (clusterCellSizeDeg (.finite (z + 1 : ℤ))) points)).Sublist
          (clusterByZoom points (.finite (z + 1 : ℤ))).clusters ∧
        (finer.flatMap (group (pointCell (clusterCellSizeDeg (.finite (z + 1 : ℤ)))) points)).Perm
          (group (pointCell (clusterCellSizeDeg (.finite z))) points c) ∧
        (clusterOf (clusterCellSizeDeg (.finite z)) points c).count =
          ((finer.map (clusterOf (clusterCellSizeDeg (.finite (z + 1 : ℤ))) points)).map ReportClusterDTO.count).sum ∧
        (clusterOf (clusterCellSizeDeg (.finite z)) points c).lat =
          ((finer.map (clusterOf (clusterCellSizeDeg (.finite (z + 1 : ℤ))) points)).map
            fun k : ReportClusterDTO => k.lat * k.count).sum /
            (clusterOf (clusterCellSizeDeg (.finite z)) points c).count ∧
        (clusterOf (clusterCellSizeDeg (.finite z)) points c).lng =
          ((finer.map (clusterOf (clusterCellSizeDeg (.finite (z + 1 : ℤ))) points)).map
            fun k : ReportClusterDTO => k.lng * k.count).sum /
            (clusterOf (clusterCellSizeDeg (.finite z)) points c).count := by
  refine ⟨fun zoom hbelow => ⟨⟨nodup_keys _ _, fun c => mem_keys⟩, clusters_eq hbelow, fun c hc => ?_,
    fun points' hperm => ?_⟩,
    fun z hnext c _ => ⟨children z points c, ?_, children_perm z points c, clusterOf_children z points c⟩⟩
  · exact ⟨rfl, cellOf_clusterOf (clusterCellSizeDeg_pos zoom) hc⟩
  · have hsame : (occupied (clusterCellSizeDeg zoom) points').map (clusterOf (clusterCellSizeDeg zoom) points') =
        (occupied (clusterCellSizeDeg zoom) points').map (clusterOf (clusterCellSizeDeg zoom) points) :=
      List.map_congr_left fun c _ => (clusterOf_perm hperm _ c).symm
    rw [clusters_eq hbelow, clusters_eq hbelow, hsame]
    exact (keys_perm hperm _).map _
  · rw [clusters_eq hnext]
    exact List.filter_sublist.map _

/-- A report at a place. -/
def reportAt (lat lng : ℚ) : ReportMapPoint :=
  ⟨text "a", lat, lng, text "trash", text "dump", text "published", none, none, none, none, none, none, 0, 0⟩

/-- Two reports west of Greenwich, at a fractional zoom and from zoom 1 to zoom 2. -/
theorem twoReports_conserved :
    (clusterByZoom [reportAt 34 (-118), reportAt 40 (-74)] (.finite (5 / 2))).clusters.Perm
        (clusterByZoom [reportAt 40 (-74), reportAt 34 (-118)] (.finite (5 / 2))).clusters ∧
      ∃ finer : List Cell, (clusterOf (clusterCellSizeDeg (.finite (1 : ℤ)))
        [reportAt 34 (-118), reportAt 40 (-74)] (-2, 0)).count =
        ((finer.map (clusterOf (clusterCellSizeDeg (.finite (1 + 1 : ℤ))) [reportAt 34 (-118), reportAt 40 (-74)])).map
          ReportClusterDTO.count).sum := by
  obtain ⟨hzoom, hnest⟩ := clusters_conserve [reportAt 34 (-118), reportAt 40 (-74)]
  refine ⟨(hzoom (.finite (5 / 2)) (by decide +kernel)).2.2.2 _ (List.Perm.swap _ _ _), ?_⟩
  obtain ⟨finer, -, -, hcount, -⟩ := hnest 1 (by decide +kernel) (-2, 0) (by decide +kernel)
  exact ⟨finer, hcount⟩

/-- The zoom after the last one below the threshold has pins and no clusters. -/
theorem lastZoom_not_union :
    ¬∀ cluster ∈ (clusterByZoom [reportAt 34 (-118)] (.finite 9)).clusters, ∃ finer : List ReportClusterDTO,
      finer.Sublist (clusterByZoom [reportAt 34 (-118)] (.finite 10)).clusters ∧
        cluster.count = (finer.map ReportClusterDTO.count).sum := by
  intro h
  have hnone : (clusterByZoom [reportAt 34 (-118)] (.finite 10)).clusters = [] := by decide +kernel
  have hone : (⟨34, -118, 1⟩ : ReportClusterDTO) ∈ (clusterByZoom [reportAt 34 (-118)] (.finite 9)).clusters := by
    decide +kernel
  obtain ⟨finer, hsub, hcount⟩ := h _ hone
  rw [hnone, List.sublist_nil] at hsub
  rw [hsub] at hcount
  exact absurd hcount (by decide)

end

end Civfix.MapClusters
