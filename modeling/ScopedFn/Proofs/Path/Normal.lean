import ScopedFn.Proofs.Path.Segments

/-!
# Normal paths

A normal list of segments has its parent segments in front, none at all below a root, and only
names behind them.

* `Path.isNormal_normalSegments` : the segments that normalisation leaves are normal, whatever
  the path;
* `Path.normalSegments_join` : normalising a path that is appended to an absolute one resolves its
  segments from the place of the absolute one;
* `Path.ofPath_normalize` : the tidy form of a normalised path has the segments that
  normalisation left;
* `Path.resolve_parents_append` : normal segments resolved against a place go up as often as they
  have parent segments and down along their names.
-/

set_option autoImplicit false

namespace ScopedFn.Path

/-- A segment that names a file or directory. -/
structure IsName (s : List Char) : Prop where
  /-- It is not empty. -/
  ne_nil : s ≠ []
  /-- It is not the current directory. -/
  ne_current : s ≠ ['.']
  /-- It is not the parent directory. -/
  ne_parent : s ≠ parentSegment
  /-- It is a single segment. -/
  slash_notMem : '/' ∉ s

/-- Normal segments: parent segments, of which there are none below a root, and then names. -/
def IsNormal (rooted : Bool) (ss : List (List Char)) : Prop :=
  ∃ ups names, ss = List.replicate ups parentSegment ++ names ∧ (∀ s ∈ names, IsName s) ∧
    (rooted = true → ups = 0)

variable {rooted : Bool} {ss done : List (List Char)} {s : List Char}

theorem parentSegment_ne_nil : parentSegment ≠ [] := by decide

theorem slash_notMem_parentSegment : '/' ∉ parentSegment := by decide

theorem IsNormal.of_names (h : ∀ s ∈ ss, IsName s) : IsNormal rooted ss :=
  ⟨0, ss, by simp, h, fun _ => rfl⟩

/-- A normal segment is not empty and holds no separator. -/
theorem IsNormal.of_mem (h : IsNormal rooted ss) (hs : s ∈ ss) : s ≠ [] ∧ '/' ∉ s := by
  obtain ⟨ups, names, rfl, hn, -⟩ := h
  rcases List.mem_append.1 hs with hs | hs
  · obtain rfl := List.eq_of_mem_replicate hs
    exact ⟨parentSegment_ne_nil, slash_notMem_parentSegment⟩
  · exact ⟨(hn s hs).ne_nil, (hn s hs).slash_notMem⟩

theorem IsNormal.ne_current (h : IsNormal rooted ss) (hs : s ∈ ss) : s ≠ ['.'] := by
  obtain ⟨ups, names, rfl, hn, -⟩ := h
  rcases List.mem_append.1 hs with hs | hs
  · obtain rfl := List.eq_of_mem_replicate hs
    decide
  · exact (hn s hs).ne_current

theorem IsNormal.dropLast (h : IsNormal rooted ss) : IsNormal rooted ss.dropLast := by
  obtain ⟨ups, names, rfl, hn, hr⟩ := h
  by_cases hne : names = []
  · subst hne
    refine ⟨ups - 1, [], ?_, by simp, fun h => by simp [hr h]⟩
    simp [List.dropLast_replicate]
  · refine ⟨ups, names.dropLast, ?_, fun s hs => hn s (List.dropLast_subset _ hs), hr⟩
    rw [List.dropLast_append_of_ne_nil hne]

/-! ### Pushing segments -/

theorem pushSegment_skip (h : s = [] ∨ s = ['.']) : pushSegment rooted done s = done := by
  simp [pushSegment, h]

theorem pushSegment_name (h : IsName s) : pushSegment rooted done s = s :: done := by
  simp [pushSegment, h.ne_nil, h.ne_current, h.ne_parent]

theorem pushSegment_parent_nil :
    pushSegment rooted [] parentSegment = if rooted then [] else [parentSegment] := rfl

theorem pushSegment_parent_cons (last : List Char) (before : List (List Char)) :
    pushSegment rooted (last :: before) parentSegment =
      if last = parentSegment then parentSegment :: last :: before else before := rfl

/-- Behind a parent segment, normal segments hold nothing but parent segments. -/
theorem IsNormal.eq_replicate (h : IsNormal rooted (ss ++ [parentSegment])) :
    rooted = false ∧ ∃ n, ss = List.replicate n parentSegment := by
  obtain ⟨ups, names, hd, hn, hr⟩ := h
  -- the last segment is no name, so there are no names at all
  rcases List.eq_nil_or_concat names with rfl | ⟨init, t, rfl⟩
  · cases ups with
    | zero => simp at hd
    | succ n =>
      rw [List.replicate_succ', List.append_nil] at hd
      refine ⟨by cases rooted <;> simp_all, n, (List.append_inj' hd rfl).1⟩
  · rw [List.concat_eq_append, ← List.append_assoc] at hd
    have ht := (List.append_inj' hd rfl).2
    exact absurd (List.cons.inj ht).1.symm (hn t (by simp)).ne_parent

/-- A pushed segment leaves the segments normal; the stack is kept in reverse. -/
theorem isNormal_pushSegment (h : IsNormal rooted done.reverse) (hs : '/' ∉ s) :
    IsNormal rooted (pushSegment rooted done s).reverse := by
  by_cases hskip : s = [] ∨ s = ['.']
  · rwa [pushSegment_skip hskip]
  by_cases hparent : s = parentSegment
  · subst hparent
    cases done with
    | nil =>
      rw [pushSegment_parent_nil]
      cases rooted
      · exact ⟨1, [], rfl, by simp, by simp⟩
      · exact .of_names (by simp)
    | cons last before =>
      rw [List.reverse_cons] at h
      rw [pushSegment_parent_cons]
      -- behind a parent segment another one is kept, behind a name it takes the name away
      split_ifs with hlast
      · subst hlast
        obtain ⟨hr, n, hn⟩ := h.eq_replicate
        refine ⟨n + 2, [], ?_, by simp, by simp [hr]⟩
        simp [hn, List.replicate_succ']
      · simpa using h.dropLast
  · obtain ⟨hne, hcur⟩ := not_or.1 hskip
    have hname : IsName s := ⟨hne, hcur, hparent, hs⟩
    obtain ⟨ups, names, hd, hn, hr⟩ := h
    rw [pushSegment_name hname]
    refine ⟨ups, names ++ [s], by simp [hd], fun t ht => ?_, hr⟩
    rcases List.mem_append.1 ht with ht | ht
    · exact hn t ht
    · exact List.mem_singleton.1 ht ▸ hname

theorem isNormal_foldl_pushSegment (hs : ∀ s ∈ ss, '/' ∉ s) (h : IsNormal rooted done.reverse) :
    IsNormal rooted (ss.foldl (pushSegment rooted) done).reverse := by
  induction ss generalizing done with
  | nil => exact h
  | cons s ss ih =>
    exact ih (fun t ht => hs t (List.mem_cons_of_mem _ ht))
      (isNormal_pushSegment h (hs s List.mem_cons_self))

/-- **Normalisation leaves normal segments.** -/
theorem isNormal_normalSegments (cs : Path) : IsNormal (rootSlashes cs != 0) (normalSegments cs) :=
  isNormal_foldl_pushSegment (fun _ h => slash_notMem_of_mem_segments h) (.of_names (by simp))

theorem foldl_pushSegment_names (h : ∀ s ∈ ss, IsName s) :
    ss.foldl (pushSegment rooted) done = ss.reverse ++ done := by
  induction ss generalizing done with
  | nil => rfl
  | cons s ss ih =>
    rw [List.foldl_cons, pushSegment_name (h s List.mem_cons_self),
      ih fun t ht => h t (List.mem_cons_of_mem _ ht)]
    simp

theorem foldl_pushSegment_parents (h : ∀ s ∈ done, IsName s) (n : ℕ) :
    (List.replicate n parentSegment).foldl (pushSegment true) done = done.drop n := by
  induction n generalizing done with
  | zero => rfl
  | succ n ih =>
    have hpush : pushSegment true done parentSegment = done.drop 1 := by
      cases done with
      | nil => rfl
      | cons last before =>
        rw [pushSegment_parent_cons, if_neg (h last List.mem_cons_self).ne_parent]
        rfl
    rw [List.replicate_succ, List.foldl_cons, hpush,
      ih fun s hs => h s (List.drop_subset _ _ hs), List.drop_drop, Nat.add_comm 1 n]

/-- The place that some segments lead to from a place, in a tree without links. -/
def resolve (base ss : List (List Char)) : List (List Char) :=
  (ss.foldl (pushSegment true) base.reverse).reverse

/-- From a place, normal segments lead up once for each parent segment and then down along the
names. -/
theorem resolve_parents_append {base names : List (List Char)} (hb : ∀ s ∈ base, IsName s)
    (hn : ∀ s ∈ names, IsName s) (ups : ℕ) :
    resolve base (List.replicate ups parentSegment ++ names) =
      base.take (base.length - ups) ++ names := by
  have hb' : ∀ s ∈ base.reverse, IsName s := fun s hs => hb s (List.mem_reverse.1 hs)
  rw [resolve, List.foldl_append, foldl_pushSegment_parents hb', foldl_pushSegment_names hn]
  simp [List.drop_reverse]

/-! ### Appending to an absolute path -/

section Join

variable {a b : Path}

theorem join_of_not_isAbsolute (hb : ¬ IsAbsolute b) :
    join a b = if a = [] ∨ a.getLast? = some '/' then a ++ b else a ++ '/' :: b :=
  if_neg hb

theorem rootSlashes_join (ha : IsAbsolute a) (hb : ¬ IsAbsolute b) :
    rootSlashes (join a b) = rootSlashes a := by
  rw [join_of_not_isAbsolute hb]
  split_ifs with hlast
  · exact rootSlashes_append ha (.inr hb)
  · exact rootSlashes_append ha (.inl (not_or.1 hlast).2)

/-- The segments of an appended path come behind those of the path before it, but for an empty
segment at the seam. -/
theorem segments_join (hane : a ≠ []) (hb : ¬ IsAbsolute b) :
    ∃ front, (segments a = front ∨ segments a = front ++ [[]]) ∧
      segments (join a b) = front ++ segments b := by
  rw [join_of_not_isAbsolute hb]
  split_ifs with hlast
  · obtain ⟨init, rfl⟩ := List.getLast?_eq_some_iff.1 (hlast.resolve_left hane)
    refine ⟨segments init, .inr ?_, ?_⟩
    · exact segments_append init []
    · rw [List.append_assoc]
      exact segments_append init b
  · exact ⟨segments a, .inl rfl, segments_append a b⟩

/-- The empty segment at the seam is skipped. -/
theorem foldl_segments_join (hane : a ≠ []) (hb : ¬ IsAbsolute b) :
    (segments (join a b)).foldl (pushSegment rooted) [] =
      (segments b).foldl (pushSegment rooted) ((segments a).foldl (pushSegment rooted) []) := by
  obtain ⟨front, hfront, hjoin⟩ := segments_join hane hb
  rw [hjoin, List.foldl_append]
  rcases hfront with h | h
  · rw [h]
  · simp only [h, List.foldl_append, List.foldl_cons, List.foldl_nil, pushSegment_skip, true_or]

/-- **Normalising what is appended to an absolute path** resolves its segments from there. -/
theorem normalSegments_join (ha : IsAbsolute a) (hb : ¬ IsAbsolute b) :
    normalSegments (join a b) = resolve (normalSegments a) (segments b) := by
  have hroot : (rootSlashes a != 0) = true := by simpa using rootSlashes_ne_zero ha
  have hane : a ≠ [] := by rintro rfl; simp [IsAbsolute] at ha
  rw [normalSegments, rootSlashes_join ha hb, hroot, foldl_segments_join hane hb, normalSegments,
    hroot, resolve, List.reverse_reverse]

end Join

/-! ### Normal forms -/

section NormalForm

variable {root : ℕ}

theorem ofSegments_ne_current (h : IsNormal rooted ss) : ofSegments root ss ≠ ['.'] := by
  intro heq
  have hsegments : segments (ofSegments root ss) = _ :=
    segments_ofSegments fun s hs => (h.of_mem hs).2
  rw [heq] at hsegments
  -- the current directory would have to be one of the segments
  have hmem : ['.'] ∈ List.replicate root [] ++ if ss = [] then [[]] else ss := by
    rw [← hsegments]
    decide
  rcases List.mem_append.1 hmem with hmem | hmem
  · simpa using List.eq_of_mem_replicate hmem
  · split_ifs at hmem
    · simp at hmem
    · exact h.ne_current hmem rfl

theorem normalize_eq (cs : Path) (h : rootSlashes cs ≠ 0 ∨ normalSegments cs ≠ []) :
    cs.normalize = ofSegments (rootSlashes cs) (normalSegments cs) := by
  have hn := isNormal_normalSegments cs
  have hne : ofSegments (rootSlashes cs) (normalSegments cs) ≠ [] := by
    rw [ofSegments, Ne, List.append_eq_nil_iff, List.replicate_eq_nil_iff,
      joinSegments_eq_nil fun s hs => (hn.of_mem hs).1]
    simpa [imp_iff_not_or] using h
  simp [normalize, hne]

/-- The tidy form of a normalised path has the segments that normalisation left. -/
theorem ofPath_normalize (cs : Path) :
    Lexical.ofPath cs.normalize = ⟨rootSlashes cs, normalSegments cs⟩ := by
  have hn := isNormal_normalSegments cs
  by_cases hempty : rootSlashes cs = 0 ∧ normalSegments cs = []
  · rw [normalize, hempty.1, hempty.2]
    decide
  · rw [normalize_eq cs (by tauto), Lexical.ofPath, segments_ofSegments fun s hs => (hn.of_mem hs).2,
      rootSlashes_ofSegments (rootSlashes_le_two cs) fun s hs => hn.of_mem hs]
    congr 1
    rw [List.filter_append, List.filter_eq_nil_iff.2 (by simp), List.nil_append]
    split_ifs with hss
    · simp [hss]
    · exact List.filter_eq_self.2 fun s hs => by simp [(hn.of_mem hs).1, hn.ne_current hs]

end NormalForm

end ScopedFn.Path
