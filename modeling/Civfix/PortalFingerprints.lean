import Civfix.ProvedRuns

/-! # The fingerprint of a tree

The entries of a folder are hashed in the order of their paths, so what is hashed is told by the set of its entries: two
folders with a fingerprint have the same one exactly if they hold the same paths, of the same kinds and with the same
bytes. -/
namespace Civfix.CityFiler

open CodeUnits

variable {f g : Folder}

/-- The order of the walk's result. -/
def pathLe (a b : FolderEntry) : Bool := decide (a.path ≤ b.path)

theorem pathLe_iff {a b : FolderEntry} : pathLe a b = true ↔ a.path ≤ b.path := decide_eq_true_iff

theorem pathLe_trans (a b c : FolderEntry) (hab : pathLe a b = true) (hbc : pathLe b c = true) : pathLe a c = true :=
  decide_eq_true (List.le_trans (pathLe_iff.mp hab) (pathLe_iff.mp hbc))

theorem pathLe_total (a b : FolderEntry) : (pathLe a b || pathLe b a) = true := by
  simp only [pathLe, Bool.or_eq_true, decide_eq_true_eq]
  exact List.le_total a.path b.path

theorem sorted_folderEntries {es : List FolderEntry} (h : folderEntries f = .ok es) :
    es.Pairwise fun a b => pathLe a b = true := by
  unfold folderEntries at h
  split at h
  · cases h
  · cases h
  · next entries hrun =>
    cases h
    exact List.pairwise_mergeSort pathLe_trans pathLe_total entries

theorem nodup_entries (f : Folder) : f.entries.Nodup := List.Nodup.of_map _ f.distinct

theorem folderEntries_eq {es es' : List FolderEntry} (hf : folderEntries f = .ok es) (hg : folderEntries g = .ok es')
    (h : f.entries.Perm g.entries) : es = es' := by
  have hperm : es.Perm es' := (folderEntries_perm hf).trans (h.trans (folderEntries_perm hg).symm)
  refine hperm.eq_of_pairwise (fun a b ha hb hab hba => ?_) (sorted_folderEntries hf) (sorted_folderEntries hg)
  have hmem : ∀ {e}, e ∈ es → e ∈ f.entries := fun he => (folderEntries_perm hf).mem_iff.mp he
  refine List.inj_on_of_nodup_map f.distinct (hmem ha) (hmem (hperm.mem_iff.mpr hb)) ?_
  exact List.le_antisymm (pathLe_iff.mp hab) (pathLe_iff.mp hba)

theorem fingerprint_of_perm {sha256 : Sha256} {x y : Text} (hf : fingerprintPortal sha256 (.folder f) = .ok x)
    (hg : fingerprintPortal sha256 (.folder g) = .ok y) (h : f.entries.Perm g.entries) : x = y := by
  obtain ⟨es, hes, hx⟩ := bind_ok hf
  obtain ⟨es', hes', hy⟩ := bind_ok hg
  obtain rfl := folderEntries_eq hes hes' h
  exact Except.ok.inj (hx.symm.trans hy)

/-- A walk that comes to its end has a fingerprint. -/
theorem exists_fingerprint (sha256 : Sha256)
    (h : (Walk.run (FOLDER_MAX_ENTRIES + 1) ⟨[], 0, [([], f.listing)]⟩).any
      (fun r => r.toOption.any fun es => es.all fun e => e.encode.isSome) = true) :
    ∃ x, fingerprintPortal sha256 (.folder f) = .ok x := by
  obtain ⟨r, hr, h⟩ := (Option.any_eq_true _ _).mp h
  obtain ⟨es, hes, hall⟩ := (Option.any_eq_true _ _).mp h
  cases r with
  | error e => cases hes
  | ok entries =>
    cases hes
    have hencode : ∀ e ∈ es.mergeSort fun a b => decide (a.path ≤ b.path), e.encode.isSome = true :=
      fun e he => List.all_eq_true.mp hall e (List.mem_mergeSort.mp he)
    obtain ⟨bytes, hbytes⟩ := PrefixCodes.exists_concat hencode
    refine ⟨sha256.hex bytes, ?_⟩
    simp only [fingerprintPortal, folderEntries, hr, Except.bind, hbytes]

/-- Two folders that have a fingerprint have the same one if and only if they hold the same entries: the same paths, each
of the same kind and, for a file, with the same bytes. -/
theorem fingerprint_eq_iff (sha256 : Sha256) (f g : Folder) (x y : Text)
    (hf : fingerprintPortal sha256 (.folder f) = .ok x) (hg : fingerprintPortal sha256 (.folder g) = .ok y) :
    x = y ↔ ∀ e, e ∈ f.entries ↔ e ∈ g.entries := by
  constructor
  · rintro rfl e
    exact List.Perm.mem_iff (same_of_fingerprint hf hg)
  · intro h
    exact fingerprint_of_perm hf hg ((List.perm_ext_iff_of_nodup (nodup_entries f) (nodup_entries g)).mpr h)

/-- A folder with a script and an empty directory, listed in either order. -/
def scriptFirst : Folder :=
  ⟨.file (ascii "script.mjs") (ascii "hello") (.dir (ascii "lib") .nil .nil), by decide, by decide⟩

def directoryFirst : Folder :=
  ⟨.dir (ascii "lib") .nil (.file (ascii "script.mjs") (ascii "hello") .nil), by decide, by decide⟩

theorem fingerprint_eq_iff_orders : ∃ x y, fingerprintPortal plainSha256 (.folder scriptFirst) = .ok x ∧
    fingerprintPortal plainSha256 (.folder directoryFirst) = .ok y ∧
      (x = y ↔ ∀ e, e ∈ scriptFirst.entries ↔ e ∈ directoryFirst.entries) := by
  obtain ⟨x, hx⟩ := exists_fingerprint plainSha256 (f := scriptFirst) (by decide +kernel)
  obtain ⟨y, hy⟩ := exists_fingerprint plainSha256 (f := directoryFirst) (by decide +kernel)
  exact ⟨x, y, hx, hy, fingerprint_eq_iff plainSha256 scriptFirst directoryFirst x y hx hy⟩

end Civfix.CityFiler
