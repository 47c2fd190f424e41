import ScopedFn.Proofs.Provenance.Place

/-!
# Spellings of a path

Paths of one normal form lead to one file. A path that ends with a name is told by the name and by
the normal form of what stands before it. Another spelling may end with something else, and then
leads through a directory that has the name of the file; so it does not leave the scope either.

* `Path.normalize_eq_iff` : paths of one normal form;
* `Path.normalSegments_append_name` : a path that ends with a name;
* `Scope.isWithin_of_normalize_eq` : a spelling of a file in a scope is in the scope.
-/

set_option autoImplicit false

namespace ScopedFn.Path

variable {p q head head' name name' : Path} {rooted : Bool}

/-- Paths have one normal form if the same segments are left of them below the same root. -/
theorem normalize_eq_iff : normalize p = normalize q ↔
    rootSlashes p = rootSlashes q ∧ normalSegments p = normalSegments q := by
  constructor
  · intro h
    have htidy := congrArg Lexical.ofPath h
    rw [ofPath_normalize, ofPath_normalize] at htidy
    exact ⟨congrArg Lexical.root htidy, congrArg Lexical.parts htidy⟩
  · rintro ⟨hroot, hsegments⟩
    rw [normalize, normalize, hroot, hsegments]

/-- What stands before the last segment of a path: nothing, or all up to a separator. -/
def IsHead (head : Path) : Prop := head = [] ∨ head.getLast? = some '/'

/-- Every path is a last segment and what stands before it. -/
theorem exists_head_append (p : Path) : ∃ head name, p = head ++ name ∧ IsHead head ∧ '/' ∉ name := by
  induction p using List.reverseRecOn with
  | nil => exact ⟨[], [], rfl, .inl rfl, List.not_mem_nil⟩
  | append_singleton p c ih =>
    by_cases hc : c = '/'
    · exact ⟨p ++ [c], [], (List.append_nil _).symm, .inr (by simp [hc]), List.not_mem_nil⟩
    · obtain ⟨head, name, rfl, hhead, hname⟩ := ih
      refine ⟨head, name ++ [c], List.append_assoc _ _ _, hhead, ?_⟩
      simpa [hname] using fun h : '/' = c => hc h.symm

/-- The last segment has no effect on the root. -/
theorem rootSlashes_append_segment (hhead : IsHead head) (hne : head ≠ []) (hname : '/' ∉ name) :
    rootSlashes (head ++ name) = rootSlashes head := by
  have hrel : ¬ IsAbsolute name := fun h => hname (List.mem_of_mem_head? h)
  by_cases habs : IsAbsolute head
  · exact rootSlashes_append habs (.inr hrel)
  · obtain ⟨c, head, rfl⟩ := List.exists_cons_of_ne_nil hne
    have hc : ¬ IsAbsolute (c :: head ++ name) := by simpa [IsAbsolute] using habs
    rw [rootSlashes_eq_zero habs, rootSlashes_eq_zero hc]

/-- What the last segment makes of the segments before it. -/
theorem foldl_segments_append (hhead : IsHead head) (hname : '/' ∉ name) :
    (segments (head ++ name)).foldl (pushSegment rooted) [] =
      pushSegment rooted ((segments head).foldl (pushSegment rooted) []) name := by
  have hsegments : segments name = [name] := Text.splitOn_eq_singleton hname
  obtain rfl | hlast := hhead
  · rw [List.nil_append, hsegments]
    rfl
  · obtain ⟨front, rfl⟩ := List.getLast?_eq_some_iff.1 hlast
    rw [List.append_assoc, List.singleton_append, segments_append, segments_append, hsegments,
      List.foldl_append, List.foldl_append]
    rfl

theorem normalSegments_append (hhead : IsHead head) (hne : head ≠ []) (hname : '/' ∉ name) :
    normalSegments (head ++ name) =
      (pushSegment (rootSlashes head != 0) (normalSegments head).reverse name).reverse := by
  rw [normalSegments, foldl_segments_append hhead hname, rootSlashes_append_segment hhead hne hname,
    normalSegments, List.reverse_reverse]

/-- **A path that ends with a name** has the name as the last segment that is left. -/
theorem normalSegments_append_name (hhead : IsHead head) (hname : IsName name) :
    rootSlashes (head ++ name) = rootSlashes head ∧
      normalSegments (head ++ name) = normalSegments head ++ [name] := by
  by_cases hne : head = []
  · subst hne
    have hrel : ¬ IsAbsolute name := fun h => hname.slash_notMem (List.mem_of_mem_head? h)
    refine ⟨rootSlashes_eq_zero hrel, ?_⟩
    rw [normalSegments, foldl_segments_append hhead hname.slash_notMem, pushSegment_name hname]
    rfl
  · refine ⟨rootSlashes_append_segment hhead hne hname.slash_notMem, ?_⟩
    rw [normalSegments_append hhead hne hname.slash_notMem, pushSegment_name hname,
      List.reverse_cons, List.reverse_reverse]

/-- A spelling that ends with a name ends with the same name. -/
theorem eq_of_normalize_eq (hhead : IsHead head) (hname : IsName name) (hhead' : IsHead head')
    (hname' : IsName name') (h : normalize (head ++ name) = normalize (head' ++ name')) :
    rootSlashes head = rootSlashes head' ∧ normalSegments head = normalSegments head' ∧
      name = name' := by
  obtain ⟨hroot, hsegments⟩ := normalSegments_append_name hhead hname
  obtain ⟨hroot', hsegments'⟩ := normalSegments_append_name hhead' hname'
  obtain ⟨hr, hs⟩ := normalize_eq_iff.1 h
  rw [hsegments, hsegments'] at hs
  obtain ⟨hsame, hlast⟩ := List.append_inj' hs rfl
  exact ⟨hroot.symm.trans (hr.trans hroot'), hsame, List.singleton_inj.1 hlast⟩

/-- Other spellings lead through a directory of that name. -/
theorem prefix_of_normalize_eq (hhead : IsHead head) (hname : IsName name) (hhead' : IsHead head')
    (hslash : '/' ∉ name') (hname' : ¬ IsName name')
    (h : normalize (head ++ name) = normalize (head' ++ name')) :
    rootSlashes head = rootSlashes head' ∧
      normalSegments head ++ [name] <+: normalSegments head' := by
  obtain ⟨hroot, hsegments⟩ := normalSegments_append_name hhead hname
  obtain ⟨hr, hs⟩ := normalize_eq_iff.1 h
  rw [hsegments] at hs
  have hcases : name' = [] ∨ name' = ['.'] ∨ name' = parentSegment := by
    by_contra hother
    simp only [not_or] at hother
    exact hname' ⟨hother.1, hother.2.1, hother.2.2, hslash⟩
  -- without a directory before it, nothing or a parent segment would be left
  have hne : head' ≠ [] := by
    rintro rfl
    have hlast := congrArg List.getLast? hs
    rw [List.getLast?_concat, List.nil_append] at hlast
    obtain rfl | rfl | rfl := hcases
    · cases hlast
    · cases hlast
    · exact hname.ne_parent (Option.some.inj hlast)
  refine ⟨hroot.symm.trans (hr.trans (rootSlashes_append_segment hhead' hne hslash)), ?_⟩
  rw [normalSegments_append hhead' hne hslash] at hs
  obtain hskip | rfl : (name' = [] ∨ name' = ['.']) ∨ name' = parentSegment := or_assoc.2 hcases
  · rw [pushSegment_skip hskip, List.reverse_reverse] at hs
    exact hs ▸ List.prefix_rfl
  · -- the last directory is given up again
    obtain hnil | ⟨front, last, hlast⟩ := List.eq_nil_or_concat (normalSegments head')
    · rw [hnil, List.reverse_nil, pushSegment_parent_nil] at hs
      have hmem : name ∈ (if (rootSlashes head' != 0) = true then [] else [parentSegment]).reverse :=
        hs ▸ List.mem_append_right _ List.mem_cons_self
      split at hmem
      · exact absurd hmem List.not_mem_nil
      · exact absurd (List.mem_singleton.1 hmem) hname.ne_parent
    · rw [hlast, List.concat_eq_append, List.reverse_append, List.reverse_singleton,
        List.singleton_append, pushSegment_parent_cons] at hs
      split_ifs at hs with hparent
      · rw [List.reverse_cons] at hs
        exact absurd (List.singleton_inj.1 (List.append_inj' hs rfl).2) hname.ne_parent
      · rw [List.reverse_reverse] at hs
        rw [hlast, hs, List.concat_eq_append]
        exact List.prefix_append _ _

end ScopedFn.Path

namespace ScopedFn.Scope

open ScopedFn.Path

variable {p q head name scope : Path} {root : ℕ} {rooted : Bool} {ds ds' : List (List Char)}

theorem ofSegments_isPrefix (h : ds <+: ds') : ofSegments root ds <+: ofSegments root ds' := by
  obtain ⟨ts, rfl⟩ := h
  by_cases hds : ds = []
  · rw [hds, List.nil_append, ofSegments, joinSegments_nil, List.append_nil]
    exact List.prefix_append _ _
  · by_cases hts : ts = []
    · simp only [hts, List.append_nil, List.prefix_rfl]
    · rw [ofSegments_append hds hts]
      exact List.prefix_append _ _

theorem trimEnd_replicate (n : ℕ) : trimEnd (List.replicate n '/') = [] := by
  simp [trimEnd]

/-- The separator behind a directory is found in what lies below it. -/
theorem trimEnd_isPrefix_ofSegments {ts : List (List Char)} (hds : IsNormal rooted ds)
    (hts : ts ≠ []) (hne : ofSegments root ds ≠ []) :
    trimEnd (ofSegments root ds) ++ ['/'] <+: ofSegments root (ds ++ ts) := by
  by_cases hnil : ds = []
  · subst hnil
    have hroot : ofSegments root [] = List.replicate root '/' := List.append_nil _
    rw [hroot] at hne ⊢
    obtain ⟨n, rfl⟩ := Nat.exists_eq_succ_of_ne_zero fun h : root = 0 => hne (by rw [h]; rfl)
    rw [trimEnd_replicate, ofSegments, List.replicate_succ]
    exact ⟨List.replicate n '/' ++ joinSegments ([] ++ ts), rfl⟩
  · rw [trimEnd_eq_self (getLast?_ofSegments hnil fun s hs => hds.of_mem hs),
      ofSegments_append hnil hts]
    exact ⟨joinSegments ts, by simp⟩

/-- What lies below a directory in the scope lies in the scope. -/
theorem isWithin_mono (hds : IsNormal rooted ds) (h : ds <+: ds')
    (hwithin : isWithin (ofSegments root ds) scope = true) :
    isWithin (ofSegments root ds') scope = true := by
  simp only [isWithin, Bool.or_eq_true, decide_eq_true_eq, List.isPrefixOf_iff_prefix] at hwithin ⊢
  obtain (hglobal | rfl) | hbegins := hwithin
  · exact .inl (.inl hglobal)
  · obtain ⟨ts, rfl⟩ := h
    by_cases hts : ts = []
    · exact .inl (.inr (by rw [hts, List.append_nil]))
    · by_cases hne : ofSegments root ds = []
      · exact .inl (.inl hne)
      · exact .inr (trimEnd_isPrefix_ofSegments hds hts hne)
  · exact .inr (hbegins.trans (ofSegments_isPrefix h))

/-! ### The directory of a spelling -/

/-- A path is what is left of it without the separators at its end, and these. -/
theorem exists_trimEnd_append (p : Path) : ∃ n, p = trimEnd p ++ List.replicate n '/' ∧
    (trimEnd p).getLast? ≠ some '/' := by
  induction p using List.reverseRecOn with
  | nil => exact ⟨0, rfl, nofun⟩
  | append_singleton p c ih =>
    by_cases hc : c = '/'
    · obtain ⟨n, hp, hlast⟩ := ih
      have htrim : trimEnd (p ++ [c]) = trimEnd p := by simp [trimEnd, hc]
      refine ⟨n + 1, ?_, htrim ▸ hlast⟩
      rw [htrim, List.replicate_succ', ← List.append_assoc, ← hp, hc]
    · have hlast : (p ++ [c]).getLast? ≠ some '/' := by simpa using hc
      rw [trimEnd_eq_self hlast]
      exact ⟨0, (List.append_nil _).symm, hlast⟩

theorem foldl_segments_replicate (p : Path) (n : ℕ) :
    (segments (p ++ List.replicate n '/')).foldl (pushSegment rooted) [] =
      (segments p).foldl (pushSegment rooted) [] := by
  induction n with
  | zero => rw [List.replicate_zero, List.append_nil]
  | succ n ih =>
    rw [List.replicate_succ', ← List.append_assoc, segments_append, List.foldl_append, ih]
    rfl

/-- Separators at the end have no effect if something stands before them. -/
theorem normal_trimEnd (hne : trimEnd p ≠ []) : rootSlashes (trimEnd p) = rootSlashes p ∧
    normalSegments (trimEnd p) = normalSegments p := by
  obtain ⟨n, hp, hlast⟩ := exists_trimEnd_append p
  generalize trimEnd p = t at *
  subst hp
  have hroot : rootSlashes (t ++ List.replicate n '/') = rootSlashes t := by
    by_cases habs : IsAbsolute t
    · exact rootSlashes_append habs (.inl hlast)
    · obtain ⟨c, t, rfl⟩ := List.exists_cons_of_ne_nil hne
      have habs' : ¬ IsAbsolute (c :: t ++ List.replicate n '/') := by
        simpa [IsAbsolute] using habs
      rw [rootSlashes_eq_zero habs, rootSlashes_eq_zero habs']
  refine ⟨hroot.symm, ?_⟩
  rw [normalSegments, normalSegments, hroot, foldl_segments_replicate]

/-- The directory of a path that is cut behind its last separator. -/
theorem dirname_append_segment (hhead : IsHead head) (hname : '/' ∉ name) :
    rootSlashes (dirname (head ++ name)) = rootSlashes head ∧
      normalSegments (dirname (head ++ name)) = normalSegments head := by
  rw [dirname, splitLast_append hhead hname]
  dsimp only
  split_ifs with hall
  · exact ⟨rfl, rfl⟩
  · refine normal_trimEnd fun hnil => hall ?_
    obtain ⟨n, hhead', -⟩ := exists_trimEnd_append head
    rw [hhead', hnil, List.nil_append, List.all_replicate]
    simp

/-- **Another spelling of a file in the scope** is in the scope as well. -/
theorem isWithin_of_normalize_eq (hhead : IsHead head) (hname : IsName name)
    (hreserved : name ≠ reservedName) (h : normalize (head ++ name) = normalize q)
    (hwithin : isWithin (resourceDir (head ++ name)) scope = true) :
    isWithin (resourceDir q) scope = true := by
  obtain ⟨head', name', rfl, hhead', hslash⟩ := exists_head_append q
  obtain ⟨hroot, hdir⟩ := dirname_append_segment hhead hname.slash_notMem
  obtain ⟨hroot', hdir'⟩ := dirname_append_segment hhead' hslash
  rw [resourceDir_eq, dirSegments, hroot, hdir] at hwithin
  rw [resourceDir_eq, dirSegments, hroot', hdir']
  by_cases hname' : IsName name'
  · -- the same name in the same directory
    obtain ⟨hr, hs, -⟩ := eq_of_normalize_eq hhead hname hhead' hname' h
    rwa [← hr, ← hs]
  · -- a directory with the name of the file
    obtain ⟨hr, hs⟩ := prefix_of_normalize_eq hhead hname hhead' hslash hname' h
    have hbelow : normalSegments head ++ [name] <+:
        if (normalSegments head').getLast? = some reservedName then (normalSegments head').dropLast
        else normalSegments head' :=
      (Provenance.prefix_lifted_iff (by simp)).2 ⟨hs, fun _ => by simpa using hreserved⟩
    have hnormal := isNormal_dirSegments (head ++ name)
    rw [dirSegments, hroot, hdir] at hnormal
    rw [← hr]
    refine isWithin_mono hnormal (List.IsPrefix.trans ?_ hbelow) hwithin
    split_ifs
    · exact (List.dropLast_prefix _).trans (List.prefix_append _ _)
    · exact List.prefix_append _ _

end ScopedFn.Scope
