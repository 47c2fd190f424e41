import ScopedFn.Proofs.Scope.Nesting

/-!
# Containment, segment by segment

The directories that count for files are normal forms, and the texts of normal forms are compared as
the lists of their segments are. So a directory is never within a scope for the letters that both
begin with.

* `Path.leading`, `Path.parts` : the separators that a path begins with, and the segments behind;
* `Path.IsTidy` : a normal form, the current directory being the empty text;
* `Path.isTidy_ofSegments` : normal segments below at most two separators make a tidy path;
* `Scope.isWithin_segmentwise` : the directory that counts for a file, and when it is within the one
  that counts for another file.
-/

set_option autoImplicit false

namespace ScopedFn

namespace Path

variable {root : ℕ} {ss : List (List Char)}

/-- The separators that a path begins with. -/
def leading (d : Path) : Path := d.takeWhile (· == '/')

/-- The segments behind the leading separators, empty ones included; nothing has no segments. -/
def parts (d : Path) : List (List Char) :=
  if d.dropWhile (· == '/') = [] then [] else segments (d.dropWhile (· == '/'))

/-- A path in normal form, or the empty text in place of the current directory. -/
structure IsTidy (d : Path) : Prop where
  /-- Normalising it changes nothing, and it is not the text of the current directory. -/
  fixed : d = [] ∨ (d.normalize = d ∧ d ≠ ['.'])
  /-- Its segments are names, behind parent segments if it is relative. -/
  normal : IsNormal (decide (IsAbsolute d)) d.parts
  /-- It begins with two separators at most. -/
  root : d.leading.length ≤ 2
  /-- It ends with a separator only if it is a root. -/
  last : d.getLast? ≠ some '/' ∨ d = ['/'] ∨ d = ['/', '/']

/-! ### Paths of segments -/

theorem span_ofSegments (h : ∀ s ∈ ss, s ≠ [] ∧ '/' ∉ s) :
    leading (ofSegments root ss) = List.replicate root '/' ∧
      (ofSegments root ss).dropWhile (· == '/') = joinSegments ss := by
  have hroot : ∀ c ∈ List.replicate root '/', (c == '/') = true := fun c hc => by
    rw [List.eq_of_mem_replicate hc]
    rfl
  have hrel : ¬ IsAbsolute (joinSegments ss) := head?_joinSegments h
  rw [leading, ofSegments, List.takeWhile_append_of_pos hroot, List.dropWhile_append_of_pos hroot]
  cases hj : joinSegments ss with
  | nil => exact ⟨List.append_nil _, rfl⟩
  | cons c cs =>
    have hc : (c == '/') = false := by simpa [hj, IsAbsolute] using hrel
    simp [hc]

theorem leading_ofSegments (h : ∀ s ∈ ss, s ≠ [] ∧ '/' ∉ s) :
    leading (ofSegments root ss) = List.replicate root '/' := (span_ofSegments h).1

theorem parts_ofSegments (h : ∀ s ∈ ss, s ≠ [] ∧ '/' ∉ s) : parts (ofSegments root ss) = ss := by
  have hnil := joinSegments_eq_nil fun s hs => (h s hs).1
  rw [parts, (span_ofSegments h).2]
  split_ifs with hj
  · exact (hnil.1 hj).symm
  · exact segments_joinSegments (mt hnil.2 hj) fun s hs => (h s hs).2

theorem ofSegments_nil (root : ℕ) : ofSegments root [] = List.replicate root '/' := List.append_nil _

theorem isAbsolute_ofSegments (h : ∀ s ∈ ss, s ≠ [] ∧ '/' ∉ s) :
    IsAbsolute (ofSegments root ss) ↔ root ≠ 0 := by
  cases root with
  | zero => exact iff_of_false (head?_joinSegments h) (by simp)
  | succ n => exact iff_of_true rfl n.succ_ne_zero

/-- **Normal segments make a tidy path.** -/
theorem isTidy_ofSegments (hroot : root ≤ 2) (h : IsNormal (root != 0) ss) :
    IsTidy (ofSegments root ss) := by
  have hmem : ∀ s ∈ ss, s ≠ [] ∧ '/' ∉ s := fun s hs => h.of_mem hs
  refine ⟨?_, ?_, ?_, ?_⟩
  · by_cases hempty : root = 0 ∧ ss = []
    · exact .inl (by rw [hempty.1, hempty.2]; rfl)
    · have hslashes : rootSlashes (ofSegments root ss) = root := rootSlashes_ofSegments hroot hmem
      have hnormal : normalSegments (ofSegments root ss) = ss := normalSegments_ofSegments hroot h
      refine .inr ⟨?_, ofSegments_ne_current h⟩
      rw [normalize_eq _ (by rw [hslashes, hnormal]; tauto), hslashes, hnormal]
  · have hrooted : decide (IsAbsolute (ofSegments root ss)) = (root != 0) := by
      rw [Bool.eq_iff_iff, decide_eq_true_iff, isAbsolute_ofSegments hmem, bne_iff_ne]
    rwa [hrooted, parts_ofSegments hmem]
  · rwa [leading_ofSegments hmem, List.length_replicate]
  · by_cases hss : ss = []
    · rw [hss, ofSegments_nil]
      have hcases : root = 0 ∨ root = 1 ∨ root = 2 := by omega
      rcases hcases with hr | hr | hr <;> rw [hr]
      · exact .inl (by decide)
      · exact .inr (.inl rfl)
      · exact .inr (.inr rfl)
    · exact .inl (getLast?_ofSegments hss hmem)

end Path

namespace Scope

open ScopedFn.Path

variable {dir : Path} {root root' : ℕ} {ss ds : List (List Char)}

/-- Below a root lies every path that starts at one. -/
theorem isWithin_replicate (hroot : root ≠ 0) :
    isWithin dir (List.replicate root '/') = true ↔ IsAbsolute dir := by
  obtain ⟨n, rfl⟩ := Nat.exists_eq_succ_of_ne_zero hroot
  rw [isWithin_iff, trimEnd_replicate]
  constructor
  · rintro (h | rfl | ⟨rest, rfl⟩)
    · cases h
    · rfl
    · rfl
  · intro h
    obtain ⟨rest, rfl⟩ := isAbsolute_iff.1 h
    exact .inr (.inr (List.prefix_append ['/'] rest))

/-- A text that goes on behind the scope otherwise than with a separator is not within it. -/
theorem not_isWithin_append {scope t : Path} {c : Char} (hne : scope ≠ global)
    (hlast : scope.getLast? ≠ some '/') (hc : c ≠ '/') :
    isWithin (scope ++ c :: t) scope = false := by
  rw [← Bool.not_eq_true, isWithin_iff, trimEnd_eq_self hlast]
  rintro (h | h | h)
  · exact hne h
  · simp at h
  · have hslash := (List.prefix_append_right_inj scope).1 h
    exact hc (List.cons_prefix_cons.1 hslash).1.symm

/-- For normal segments and all roots, the comparison of texts is one of separators and segments. -/
theorem isWithin_ofSegments_iff {rooted rooted' : Bool} (hroot : root ≤ 2) (hs : IsNormal rooted ss)
    (hd : IsNormal rooted' ds) :
    isWithin (ofSegments root' ds) (ofSegments root ss) = true ↔
      ofSegments root ss = [] ∨
      (ofSegments root ss = ['/'] ∨ ofSegments root ss = ['/', '/']) ∧
        IsAbsolute (ofSegments root' ds) ∨
      List.replicate root '/' = List.replicate root' '/' ∧ ss <+: ds := by
  have hds : ∀ s ∈ ds, s ≠ [] ∧ '/' ∉ s := fun s h => hd.of_mem h
  rw [List.replicate_left_inj]
  by_cases hss : ss = []
  · subst hss
    rw [ofSegments_nil, and_iff_left List.nil_prefix]
    by_cases hzero : root = 0
    · subst hzero
      exact iff_of_true rfl (.inl rfl)
    · -- the separators of a root are those of what lies below it, or not, but there are some
      have hsame : root = root' → IsAbsolute (ofSegments root' ds) := fun h =>
        (isAbsolute_ofSegments hds).2 (h ▸ hzero)
      rw [isWithin_replicate hzero]
      obtain rfl | rfl : root = 1 ∨ root = 2 := by omega
      · simpa using hsame
      · simpa using hsame
  · have hlast : (ofSegments root ss).getLast? ≠ some '/' :=
      getLast?_ofSegments hss fun s h => hs.of_mem h
    have hne : ofSegments root ss ≠ [] := ofSegments_ne_nil hss fun s h => (hs.of_mem h).1
    have hone : ofSegments root ss ≠ ['/'] := fun h => hlast (h ▸ rfl)
    have htwo : ofSegments root ss ≠ ['/', '/'] := fun h => hlast (h ▸ rfl)
    rw [isWithin_ofSegments hs hss hd]
    simp only [hne, hone, htwo, or_self, false_and, false_or, eq_comm]

/-- **Containment is a comparison of segments.** The directory that counts for a file is tidy. One is
within another iff that is the global scope, or a root that both have, or both begin with the same
separators and the segments of the scope begin those of the directory. So a directory whose text only
begins with that of a scope is not within it. -/
theorem isWithin_segmentwise (p q : Path) :
    IsTidy (resourceDir p) ∧
      (isWithin (resourceDir q) (resourceDir p) = true ↔
        resourceDir p = [] ∨
        (resourceDir p = ['/'] ∨ resourceDir p = ['/', '/']) ∧ IsAbsolute (resourceDir q) ∨
        (resourceDir p).leading = (resourceDir q).leading ∧
          (resourceDir p).parts <+: (resourceDir q).parts) ∧
      ∀ (c : Char) (t : Path), (resourceDir p).parts ≠ [] → c ≠ '/' →
        resourceDir q = resourceDir p ++ c :: t →
          isWithin (resourceDir q) (resourceDir p) = false := by
  have hp := isNormal_dirSegments p
  have hq := isNormal_dirSegments q
  have hroot := rootSlashes_le_two p.dirname
  rw [resourceDir_eq, resourceDir_eq]
  generalize rootSlashes p.dirname = root at *
  generalize rootSlashes q.dirname = root' at *
  generalize dirSegments p = ss at *
  generalize dirSegments q = ds at *
  have hss : ∀ s ∈ ss, s ≠ [] ∧ '/' ∉ s := fun s hs => hp.of_mem hs
  have hds : ∀ s ∈ ds, s ≠ [] ∧ '/' ∉ s := fun s hs => hq.of_mem hs
  refine ⟨isTidy_ofSegments hroot hp, ?_, fun c t hparts hc hdir => ?_⟩
  · rw [leading_ofSegments hss, leading_ofSegments hds, parts_ofSegments hss, parts_ofSegments hds]
    exact isWithin_ofSegments_iff hroot hp hq
  · rw [parts_ofSegments hss] at hparts
    rw [hdir]
    exact not_isWithin_append (ofSegments_ne_nil hparts fun s hs => (hss s hs).1)
      (getLast?_ofSegments hparts hss) hc

-- of the same letters, but not of the same directory
example : isWithin (resourceDir "apps-extra/x.yaml".toList) (resourceDir "apps/fn.yaml".toList) =
    false := by decide

end Scope

end ScopedFn
