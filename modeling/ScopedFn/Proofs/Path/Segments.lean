import Mathlib.Data.List.Basic
import ScopedFn.Path

/-!
# Segments and the paths made of them

Splitting a path into segments and joining segments to a path undo each other.

* `Path.segments_append` : the segments of two paths with a separator between them;
* `Path.segments_joinSegments` : joining and splitting gives the segments back, if no segment
  holds a separator;
* `Path.splitLast_append` : the last segment is what follows the last separator, from which
  `Path.dirname_ofSegments` and `Path.basename_ofSegments` read directory and name off the
  segments.
-/

set_option autoImplicit false

namespace ScopedFn

namespace Text

variable {separator : Char}

theorem splitOn_append (a b : List Char) :
    splitOn separator (a ++ separator :: b) = splitOn separator a ++ splitOn separator b := by
  induction a with
  | nil => simp [splitOn]
  | cons c a ih =>
    by_cases hc : c = separator
    · simp [splitOn, hc, ih]
    · simp only [List.cons_append, splitOn, hc, ↓reduceIte, ih]
      cases hs : splitOn separator a with
      | nil => exact absurd hs (splitOn_ne_nil a)
      | cons p ps => rfl

theorem splitOn_eq_singleton {cs : List Char} (h : separator ∉ cs) : splitOn separator cs = [cs] := by
  induction cs with
  | nil => rfl
  | cons c cs ih =>
    obtain ⟨hc, hcs⟩ := not_or.1 (List.mem_cons.not.1 h)
    simp only [splitOn, Ne.symm hc, ↓reduceIte, ih hcs]

end Text

namespace Path

theorem segments_append (a b : Path) : segments (a ++ '/' :: b) = segments a ++ segments b :=
  Text.splitOn_append a b

theorem slash_notMem_of_mem_segments {cs : Path} {s : List Char} (h : s ∈ segments cs) : '/' ∉ s :=
  Text.not_mem_of_mem_splitOn h

@[simp] theorem joinSegments_nil : joinSegments [] = [] := rfl

@[simp] theorem joinSegments_singleton (s : List Char) : joinSegments [s] = s := by
  simp [joinSegments, List.intercalate]

theorem joinSegments_cons (s : List Char) {ss : List (List Char)} (h : ss ≠ []) :
    joinSegments (s :: ss) = s ++ '/' :: joinSegments ss := by
  obtain ⟨t, ts, rfl⟩ := List.exists_cons_of_ne_nil h
  simp [joinSegments, List.intercalate]

theorem joinSegments_append {ss ts : List (List Char)} (hs : ss ≠ []) (ht : ts ≠ []) :
    joinSegments (ss ++ ts) = joinSegments ss ++ '/' :: joinSegments ts := by
  induction ss with
  | nil => exact absurd rfl hs
  | cons s ss ih =>
    by_cases h : ss = []
    · subst h
      simpa using joinSegments_cons s ht
    · rw [List.cons_append, joinSegments_cons s (by simp [h]), ih h, joinSegments_cons s h]
      simp

/-- Joining and splitting gives the segments back. -/
theorem segments_joinSegments {ss : List (List Char)} (hne : ss ≠ []) (h : ∀ s ∈ ss, '/' ∉ s) :
    segments (joinSegments ss) = ss := by
  induction ss with
  | nil => exact absurd rfl hne
  | cons s ss ih =>
    have hs : segments s = [s] := Text.splitOn_eq_singleton (h s List.mem_cons_self)
    by_cases hss : ss = []
    · simp [hss, hs]
    · rw [joinSegments_cons s hss, segments_append, hs,
        ih hss fun t ht => h t (List.mem_cons_of_mem _ ht)]
      rfl

theorem joinSegments_eq_nil {ss : List (List Char)} (h : ∀ s ∈ ss, s ≠ []) :
    joinSegments ss = [] ↔ ss = [] := by
  refine ⟨fun hj => ?_, by rintro rfl; rfl⟩
  cases ss with
  | nil => rfl
  | cons s ss =>
    have hs := h s List.mem_cons_self
    by_cases hss : ss = []
    · simp [hss, hs] at hj
    · simp [joinSegments_cons s hss] at hj

/-! ### The last segment -/

/-- What ends in a separator, or is empty, is all that precedes the last segment. -/
theorem splitLast_append {head s : List Char} (hhead : head = [] ∨ head.getLast? = some '/')
    (hs : '/' ∉ s) : splitLast (head ++ s) = (head, s) := by
  have hrev : ∀ c ∈ s.reverse, (c != '/') = true := by
    intro c hc
    simp only [bne_iff_ne, ne_eq]
    rintro rfl
    exact hs (List.mem_reverse.1 hc)
  -- the last segment is read off from behind, up to the first separator
  have htake : (head ++ s).reverse.takeWhile (· != '/') = s.reverse := by
    rw [List.reverse_append, List.takeWhile_append_of_pos hrev]
    have : head.reverse.takeWhile (· != '/') = [] := by
      rcases hhead with rfl | hhead
      · rfl
      · obtain ⟨h', rfl⟩ := List.getLast?_eq_some_iff.1 hhead
        simp
    rw [this, List.append_nil]
  simp only [splitLast, htake, List.reverse_reverse]
  simp

theorem trimEnd_append_slash {cs : Path} (h : cs.getLast? ≠ some '/') :
    trimEnd (cs ++ ['/']) = cs := by
  rcases List.eq_nil_or_concat cs with rfl | ⟨init, c, rfl⟩
  · rfl
  · have hc : c ≠ '/' := by simpa using h
    simp [trimEnd, hc]

theorem trimEnd_eq_self {cs : Path} (h : cs.getLast? ≠ some '/') : trimEnd cs = cs := by
  rcases List.eq_nil_or_concat cs with rfl | ⟨init, c, rfl⟩
  · rfl
  · have hc : c ≠ '/' := by simpa using h
    simp [trimEnd, hc]

theorem getLast?_joinSegments {ss : List (List Char)} (hne : ss ≠ [])
    (h : ∀ s ∈ ss, s ≠ [] ∧ '/' ∉ s) : (joinSegments ss).getLast? ≠ some '/' := by
  induction ss with
  | nil => exact absurd rfl hne
  | cons s ss ih =>
    by_cases hss : ss = []
    · subst hss
      rw [joinSegments_singleton]
      exact fun hl => (h s List.mem_cons_self).2 (List.mem_of_getLast? hl)
    · have hmem := fun t ht => h t (List.mem_cons_of_mem s ht)
      have hj : joinSegments ss ≠ [] := fun hj => hss ((joinSegments_eq_nil fun t ht => (hmem t ht).1).1 hj)
      rw [joinSegments_cons s hss, List.getLast?_append_of_ne_nil _ (by simp),
        List.getLast?_cons_of_ne_nil hj]
      exact ih hss hmem

/-! ### Leading separators -/

/-- The path starts at the root. -/
def IsAbsolute (p : Path) : Prop := p.head? = some '/'

instance (p : Path) : Decidable (IsAbsolute p) := inferInstanceAs (Decidable (_ = _))

theorem isAbsolute_iff {p : Path} : IsAbsolute p ↔ ∃ rest, p = '/' :: rest := by
  cases p <;> simp [IsAbsolute]

theorem rootSlashes_append {a b : Path} (ha : IsAbsolute a)
    (hab : a.getLast? ≠ some '/' ∨ ¬ IsAbsolute b) : rootSlashes (a ++ b) = rootSlashes a := by
  -- only the first three characters count, so what follows matters behind one or two of them
  obtain ⟨rest, rfl⟩ := isAbsolute_iff.1 ha
  match rest with
  | c :: d :: rest => by_cases hc : c = '/' <;> by_cases hd : d = '/' <;> simp [rootSlashes, hc, hd]
  | [c] =>
    by_cases hc : c = '/'
    · subst hc
      cases b with
      | nil => rfl
      | cons d b =>
        have hd : d ≠ '/' := by simpa [IsAbsolute] using hab
        simp [rootSlashes, hd]
    · simp [rootSlashes, hc]
  | [] =>
    cases b with
    | nil => rfl
    | cons c b =>
      have hc : c ≠ '/' := by simpa [IsAbsolute] using hab
      simp [rootSlashes, hc]

theorem rootSlashes_ne_zero {a : Path} (ha : IsAbsolute a) : rootSlashes a ≠ 0 := by
  obtain ⟨rest, rfl⟩ := isAbsolute_iff.1 ha
  unfold rootSlashes
  split <;> simp_all

theorem rootSlashes_eq_zero {a : Path} (ha : ¬ IsAbsolute a) : rootSlashes a = 0 := by
  unfold rootSlashes
  split <;> simp_all [IsAbsolute]

theorem rootSlashes_le_two (cs : Path) : rootSlashes cs ≤ 2 := by
  unfold rootSlashes
  split <;> simp

theorem IsAbsolute.of_isPrefix {a b : Path} (ha : IsAbsolute a) (h : a <+: b) : IsAbsolute b := by
  obtain ⟨t, rfl⟩ := isAbsolute_iff.1 ha
  obtain ⟨u, rfl⟩ := h
  rfl

theorem trimEnd_isPrefix (cs : Path) : trimEnd cs <+: cs := by
  have h := List.reverse_prefix.2 (List.dropWhile_suffix (l := cs.reverse) (· == '/'))
  rwa [List.reverse_reverse] at h

/-- The directory part begins the path. -/
theorem dirname_isPrefix (cs : Path) : dirname cs <+: cs := by
  have hhead : (splitLast cs).1 <+: cs := List.take_prefix _ _
  unfold dirname
  dsimp only
  split_ifs
  · exact hhead
  · exact (trimEnd_isPrefix _).trans hhead

/-! ### Paths of segments -/

section OfSegments

variable {root : ℕ} {ss ts : List (List Char)} {s : List Char}

theorem head?_joinSegments (h : ∀ s ∈ ss, s ≠ [] ∧ '/' ∉ s) : ¬ IsAbsolute (joinSegments ss) := by
  cases ss with
  | nil => simp [IsAbsolute]
  | cons s ss =>
    obtain ⟨hne, hs⟩ := h s List.mem_cons_self
    obtain ⟨c, cs, rfl⟩ := List.exists_cons_of_ne_nil hne
    have hc : c ≠ '/' := fun hc => hs (hc ▸ List.mem_cons_self)
    by_cases hss : ss = []
    · simpa [hss, IsAbsolute] using hc
    · simpa [joinSegments_cons _ hss, IsAbsolute] using hc

theorem rootSlashes_ofSegments (hroot : root ≤ 2) (h : ∀ s ∈ ss, s ≠ [] ∧ '/' ∉ s) :
    rootSlashes (ofSegments root ss) = root := by
  have hss := head?_joinSegments h
  match root, hroot with
  | 0, _ => exact rootSlashes_eq_zero hss
  | 1, _ | 2, _ =>
    unfold ofSegments
    cases hj : joinSegments ss with
    | nil => rfl
    | cons c cs =>
      have hc : c ≠ '/' := by simpa [hj, IsAbsolute] using hss
      simp [rootSlashes, hc, List.replicate_succ]

theorem segments_ofSegments (h : ∀ s ∈ ss, '/' ∉ s) :
    segments (ofSegments root ss) = List.replicate root [] ++ if ss = [] then [[]] else ss := by
  induction root with
  | zero =>
    -- the empty path has one segment, which is empty
    split_ifs with hss
    · subst hss; rfl
    · simpa [ofSegments] using segments_joinSegments hss h
  | succ n ih =>
    rw [List.replicate_succ, List.cons_append, ← ih]
    exact segments_append [] (ofSegments n ss)

theorem ofSegments_append_singleton :
    ofSegments root (ss ++ [s]) =
      (if ss = [] then List.replicate root '/' else ofSegments root ss ++ ['/']) ++ s := by
  split_ifs with hss
  · simp [hss, ofSegments]
  · rw [ofSegments, joinSegments_append hss (by simp)]
    simp [ofSegments]

theorem getLast?_ofSegments (hne : ss ≠ []) (h : ∀ s ∈ ss, s ≠ [] ∧ '/' ∉ s) :
    (ofSegments root ss).getLast? ≠ some '/' := by
  have hj : joinSegments ss ≠ [] := mt (joinSegments_eq_nil fun s hs => (h s hs).1).1 hne
  rw [ofSegments, List.getLast?_append_of_ne_nil _ hj]
  exact getLast?_joinSegments hne h

theorem splitLast_ofSegments (hs : '/' ∉ s) :
    splitLast (ofSegments root (ss ++ [s])) =
      (if ss = [] then List.replicate root '/' else ofSegments root ss ++ ['/'], s) := by
  rw [ofSegments_append_singleton]
  refine splitLast_append ?_ hs
  split_ifs
  · cases root <;> simp [List.getLast?_replicate]
  · simp

theorem basename_ofSegments (hs : '/' ∉ s) : basename (ofSegments root (ss ++ [s])) = s := by
  rw [basename, splitLast_ofSegments hs]

theorem basename_ofSegments_nil : basename (ofSegments root []) = [] := by
  have h : splitLast (ofSegments root ([] ++ [[]])) = _ := splitLast_ofSegments (by simp)
  exact congrArg Prod.snd h

theorem ofSegments_ne_nil (hne : ss ≠ []) (h : ∀ s ∈ ss, s ≠ []) : ofSegments root ss ≠ [] := by
  simp [ofSegments, joinSegments_eq_nil h, hne]

theorem dirname_ofSegments (h : ∀ t ∈ ss, t ≠ [] ∧ '/' ∉ t) (hs : '/' ∉ s) :
    dirname (ofSegments root (ss ++ [s])) = ofSegments root ss := by
  rw [dirname, splitLast_ofSegments hs]
  dsimp only
  split_ifs with hss hall hall
  · simp [hss, ofSegments]
  · simp at hall
  · -- the part before the last separator does not end in one, so it has other characters
    have hne : ofSegments root ss ≠ [] := ofSegments_ne_nil hss fun t ht => (h t ht).1
    have hlast : (ofSegments root ss).getLast? ≠ some '/' := getLast?_ofSegments hss h
    rw [List.getLast?_eq_some_getLast hne] at hlast
    have hslash := List.all_eq_true.1 hall _ (List.mem_append_left ['/'] (List.getLast_mem hne))
    exact absurd (by simpa using hslash) (by simpa using hlast)
  · exact trimEnd_append_slash (getLast?_ofSegments hss h)

theorem ofSegments_append (hs : ss ≠ []) (ht : ts ≠ []) :
    ofSegments root (ss ++ ts) = ofSegments root ss ++ '/' :: joinSegments ts := by
  rw [ofSegments, joinSegments_append hs ht]
  simp [ofSegments]

/-- Leading separators and segments can be read off the segments of a path. -/
theorem leading_of_segments_eq {n m : ℕ} (hs : ∀ s ∈ ss, s ≠ []) (hss : ss ≠ [])
    (ht : ∀ t ∈ ts, t ≠ []) {rest : List (List Char)}
    (h : List.replicate n [] ++ (if ts = [] then [[]] else ts) =
      List.replicate m [] ++ (ss ++ rest)) : n = m ∧ ts = ss ++ rest := by
  obtain ⟨s, ss, rfl⟩ := List.exists_cons_of_ne_nil hss
  have hsne := hs s List.mem_cons_self
  -- separators are taken off both sides until a segment that is not empty ends one of them
  induction n generalizing m with
  | zero =>
    split_ifs at h with htn
    · cases m with
      | zero => simp [hsne] at h
      | succ m => simp [List.replicate_succ] at h
    · obtain ⟨t, ts, rfl⟩ := List.exists_cons_of_ne_nil htn
      cases m with
      | zero => exact ⟨rfl, by simpa using h⟩
      | succ m => simp [List.replicate_succ, ht t List.mem_cons_self] at h
  | succ n ih =>
    cases m with
    | zero => simp [List.replicate_succ, Ne.symm hsne] at h
    | succ m =>
      simp only [List.replicate_succ, List.cons_append, List.cons.injEq, true_and] at h
      obtain ⟨hnm, hts⟩ := ih h
      exact ⟨congrArg (· + 1) hnm, hts⟩

end OfSegments

end Path

end ScopedFn
