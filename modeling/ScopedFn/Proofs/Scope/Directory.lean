import ScopedFn.Proofs.Path.Normal
import ScopedFn.Scope.Directory

/-!
# The directory that counts for a file

The directory that scopes are compared with is the normal form of a list of segments, and the
comparison of texts is one of lists of segments.

* `Scope.resourceDir_eq` : the directory that counts for a file, by its segments
  `Scope.dirSegments`;
* `Scope.isWithin_ofSegments` : a directory lies within a scope other than the global one and the
  roots iff the segments of the scope begin those of the directory.
-/

set_option autoImplicit false

namespace ScopedFn.Scope

open ScopedFn.Path

variable {root root' : ℕ} {ss ds : List (List Char)}

/-- **The comparison of texts is one of segments.** -/
theorem isWithin_ofSegments {rooted rooted' : Bool} (hs : IsNormal rooted ss) (hss : ss ≠ [])
    (hd : IsNormal rooted' ds) :
    isWithin (ofSegments root' ds) (ofSegments root ss) = true ↔ root' = root ∧ ss <+: ds := by
  have hne : ofSegments root ss ≠ [] := ofSegments_ne_nil hss fun s h => (hs.of_mem h).1
  have hlast : (ofSegments root ss).getLast? ≠ some '/' := getLast?_ofSegments hss fun s h => hs.of_mem h
  have htrim := trimEnd_eq_self hlast
  simp only [isWithin, global, hne, htrim, decide_false, Bool.false_or, Bool.or_eq_true,
    decide_eq_true_eq, List.isPrefixOf_iff_prefix]
  constructor
  · -- either way the segments of the directory are those of the scope and some more
    intro h
    obtain ⟨rest, hrest⟩ : ∃ rest, segments (ofSegments root' ds) =
        segments (ofSegments root ss) ++ rest := by
      rcases h with h | ⟨t, h⟩
      · exact ⟨[], by rw [h, List.append_nil]⟩
      · exact ⟨segments t, by rw [← h, List.append_assoc]; exact segments_append _ _⟩
    rw [segments_ofSegments fun s h => (hs.of_mem h).2, segments_ofSegments fun s h => (hd.of_mem h).2,
      if_neg hss, List.append_assoc] at hrest
    obtain ⟨hroot, rfl⟩ := leading_of_segments_eq (fun s h => (hs.of_mem h).1) hss
      (fun s h => (hd.of_mem h).1) hrest
    exact ⟨hroot, List.prefix_append _ _⟩
  · rintro ⟨rfl, ts, rfl⟩
    by_cases hts : ts = []
    · exact .inl (by rw [hts, List.append_nil])
    · exact .inr ⟨joinSegments ts, by rw [ofSegments_append hss hts]; simp⟩

/-- The segments of the directory that counts for a file. -/
def dirSegments (path : Path) : List (List Char) :=
  let ss := normalSegments path.dirname
  if ss.getLast? = some reservedName then ss.dropLast else ss

theorem isNormal_dirSegments (path : Path) :
    IsNormal (rootSlashes path.dirname != 0) (dirSegments path) := by
  have h := isNormal_normalSegments path.dirname
  unfold dirSegments
  dsimp only
  split_ifs
  · exact h.dropLast
  · exact h

theorem orGlobal_ofSegments {rooted : Bool} (h : IsNormal rooted ss) :
    orGlobal (ofSegments root ss) = ofSegments root ss := by
  unfold orGlobal
  split_ifs with hcur
  · exact (hcur.resolve_left (ofSegments_ne_current h)).symm
  · rfl

theorem fileDir_eq (path : Path) :
    fileDir path = ofSegments (rootSlashes path.dirname) (normalSegments path.dirname) := by
  by_cases h : rootSlashes path.dirname ≠ 0 ∨ normalSegments path.dirname ≠ []
  · rw [fileDir, normalize_eq _ h, orGlobal_ofSegments (isNormal_normalSegments _)]
  · obtain ⟨hroot, hss⟩ := not_or.1 h
    rw [fileDir, Path.normalize, not_not.1 hroot, not_not.1 hss]
    decide

/-- The directory that counts for a file, by its segments. -/
theorem resourceDir_eq (path : Path) :
    resourceDir path = ofSegments (rootSlashes path.dirname) (dirSegments path) := by
  have hn := isNormal_normalSegments path.dirname
  rw [resourceDir, fileDir_eq, liftReserved, dirSegments]
  rcases List.eq_nil_or_concat (normalSegments path.dirname) with hss | ⟨init, s, hss⟩
  · rw [hss, basename_ofSegments_nil]
    rfl
  · rw [List.concat_eq_append] at hss
    rw [hss] at hn ⊢
    rw [basename_ofSegments (hn.of_mem (by simp)).2,
      dirname_ofSegments (fun t ht => hn.of_mem (List.mem_append_left _ ht)) (hn.of_mem (by simp)).2]
    have hinit := hn.dropLast
    rw [List.dropLast_concat] at hinit
    rw [orGlobal_ofSegments hinit]
    by_cases hname : s = reservedName <;> simp [hname]

end ScopedFn.Scope
