import Mathlib.Data.List.Nodup
import Mathlib.Data.List.Perm.Subperm
import ScopedFn.Proofs.Provenance.Place

/-!
# The paths that are given are new

A resource without a path is given one that is not taken, so no two resources are given the same
one.

* `Provenance.freePath_notMem` : what is found is free, however many numbers are taken;
* `Provenance.nodup_paths` : the paths of an assignment are pairwise different.
-/

set_option autoImplicit false

namespace ScopedFn.Provenance

open ScopedFn.Path

variable {scope stem path : Path} {taken : List Path} {m : Meta}

theorem toDigits_injective : Function.Injective (Nat.toDigits 10) := by
  intro a b h
  have hparsed := congrArg (fun digits => Nat.ofDigitChars 10 digits 0) h
  simpa using hparsed

/-- Different numbers make different paths. -/
theorem numbered_injective (path : Path) : Function.Injective (numbered path) := by
  intro a b h
  unfold numbered at h
  have hdigits := List.append_cancel_left (List.append_cancel_right h)
  exact toDigits_injective (List.cons.inj hdigits).2

/-- What is found is free: there are more numbers to try than paths that are taken. -/
theorem freePath_notMem (taken : List Path) (path : Path) : freePath taken path ∉ taken := by
  unfold freePath
  split
  · dsimp only
    set candidates := (List.range (taken.length + 1)).map fun n => numbered path (n + 1) with hcandidates
    cases hfind : candidates.find? fun p => !taken.contains p with
    | some p => simpa using List.find?_some hfind
    | none =>
      -- otherwise all candidates would be taken
      have hsubset : candidates ⊆ taken := fun p hp => by simpa using List.find?_eq_none.1 hfind p hp
      have hnodup : candidates.Nodup := List.Nodup.map
        (fun a b h => Nat.succ_injective (numbered_injective path h)) List.nodup_range
      have hle := (List.subperm_of_subset hnodup hsubset).length_le
      rw [hcandidates, List.length_map, List.length_range] at hle
      exact absurd hle (Nat.not_succ_le_self _)
  · rename_i hfree
    simpa using hfree

theorem numbered_ne_nil (path : Path) (n : ℕ) : numbered path n ≠ [] := by
  simp [numbered]

theorem freePath_ne_nil (hpath : path ≠ []) (taken : List Path) : freePath taken path ≠ [] := by
  unfold freePath
  split
  · dsimp only
    cases hfind : ((List.range (taken.length + 1)).map fun n => numbered path (n + 1)).find?
        fun p => !taken.contains p with
    | none => exact hpath
    | some p =>
      obtain ⟨n, -, rfl⟩ := List.mem_map.1 (List.mem_of_find?_eq_some hfind)
      exact numbered_ne_nil path (n + 1)
  · exact hpath

theorem foldl_join_ne_nil {first : Path} (hfirst : first ≠ []) (rest : List Path) :
    rest.foldl join first ≠ [] := by
  induction rest generalizing first with
  | nil => exact hfirst
  | cons part rest ih => exact ih (join_ne_nil hfirst)

theorem defaultPath_ne_nil (scope : Path) (m : Meta) (stem : Path) : defaultPath scope m stem ≠ [] := by
  have hname : fileName m ≠ [] := by simp [fileName]
  unfold defaultPath
  split
  · rename_i hparts
    simp at hparts
  · rename_i first rest hparts
    refine foldl_join_ne_nil ?_ rest
    have hmem : first ∈ [scope, stem, m.space.toList].filter (· != []) ++ [fileName m] :=
      hparts ▸ List.mem_cons_self
    obtain hfilter | hlast := List.mem_append.1 hmem
    · simpa using (List.mem_filter.1 hfilter).2
    · exact List.mem_singleton.1 hlast ▸ hname

/-! ### An assignment -/

namespace Assignment

variable {a a' : Assignment} {position : ℕ} {key value : String} {ms : List Meta}

theorem taken_annotate (h : a.annotate position key value = .ok a') : a'.taken = a.taken := by
  unfold annotate at h
  split at h
  · exact Except.ok.inj h ▸ rfl
  · obtain ⟨e, -, h⟩ := Result.ok_of_bind h
    exact Except.ok.inj h ▸ rfl

theorem taken_place (h : a.place position m path = .ok a') :
    a'.taken = freePath a.taken path :: a.taken := by
  rw [place_eq] at h
  obtain ⟨a₁, hpath, h⟩ := Result.ok_of_bind h
  have htaken : a₁.taken = freePath a.taken path :: a.taken := taken_annotate hpath
  split at h
  · rw [taken_annotate h, htaken]
  · exact Except.ok.inj h ▸ htaken

/-- The paths that have been given are different, there is a name in each, and they are taken. -/
structure Distinct (a : Assignment) : Prop where
  nodup : a.paths.Nodup
  named : ∀ p ∈ a.paths, p ≠ []
  taken : a.paths ⊆ a.taken

theorem Distinct.place (hpath : path ≠ []) (h : a.place position m path = .ok a') (ha : a.Distinct) :
    a'.Distinct := by
  have hfree : freePath a.taken path ∉ a.paths := fun hmem =>
    freePath_notMem a.taken path (ha.taken hmem)
  refine ⟨?_, ?_, ?_⟩
  · rw [paths_place h]
    exact ha.nodup.append (List.nodup_singleton _) (List.disjoint_singleton.2 hfree)
  · rw [paths_place h, List.forall_mem_append, List.forall_mem_singleton]
    exact ⟨ha.named, freePath_ne_nil hpath a.taken⟩
  · rw [paths_place h, taken_place h, List.append_subset]
    exact ⟨fun p hp => List.mem_cons_of_mem _ (ha.taken hp), by simp⟩

theorem Distinct.placeAll (h : placeAll scope stem position ms a = .ok a') (ha : a.Distinct) :
    a'.Distinct := by
  induction ms generalizing position a with
  | nil => exact Except.ok.inj h ▸ ha
  | cons m ms ih =>
    unfold Assignment.placeAll at h
    split at h
    · exact ih h ha
    · obtain ⟨a₁, hplace, h⟩ := Result.ok_of_bind h
      exact ih h (ha.place (defaultPath_ne_nil scope m stem) hplace)

end Assignment

/-- No path is given twice, and none is empty. -/
theorem distinct_assign {functionPath : Option String} {rs : List Resource} {supply : Supply}
    {a : Assignment} (h : assign scope functionPath rs supply = .ok a) : a.Distinct := by
  obtain ⟨metas, -, hplace⟩ := assign_eq_ok_iff.1 h
  exact Assignment.Distinct.placeAll hplace
    ⟨List.nodup_nil, fun p hp => absurd hp List.not_mem_nil, List.nil_subset _⟩

end ScopedFn.Provenance
