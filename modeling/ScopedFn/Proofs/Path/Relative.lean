import Mathlib.Data.List.Induction
import ScopedFn.Proofs.Path.Normal

/-!
# Relative paths

What is appended to a relative path is followed from the place of that path. Outside of any root
there is always a parent directory, so parent segments that lead above the beginning stay.

* `Path.follow` : the segments that are reached from some segments;
* `Path.normalSegments_join_relative` : normalising an appended path follows its segments;
* `Path.normalSegments_ofSegments` : normalising changes nothing about normal segments;
* `Path.normalSegments_dirname_join` : the directory of a file that is appended to a path is the
  place of that path.
-/

set_option autoImplicit false

namespace ScopedFn.Path

variable {a b file : Path} {base ss ts : List (List Char)}

/-- The segments that some segments lead to from others, outside of any root. -/
def follow (base ss : List (List Char)) : List (List Char) :=
  (ss.foldl (pushSegment false) base.reverse).reverse

theorem follow_nil (base : List (List Char)) : follow base [] = base := List.reverse_reverse base

theorem follow_append (base ss ts : List (List Char)) :
    follow base (ss ++ ts) = follow (follow base ss) ts := by
  rw [follow, follow, follow, List.foldl_append, List.reverse_reverse]

theorem normalSegments_of_relative (ha : ¬ IsAbsolute a) :
    normalSegments a = ((segments a).foldl (pushSegment false) []).reverse := by
  rw [normalSegments, rootSlashes_eq_zero ha]
  rfl

theorem join_ne_nil (ha : a ≠ []) : join a b ≠ [] := by
  unfold join
  split_ifs with hb
  · rintro rfl
    simp at hb
  · simp [ha]
  · simp

theorem not_isAbsolute_join (ha : ¬ IsAbsolute a) (hb : ¬ IsAbsolute b) : ¬ IsAbsolute (join a b) := by
  rw [join_of_not_isAbsolute hb]
  cases a with
  | nil => simpa using hb
  | cons c a => split_ifs <;> simpa [IsAbsolute] using ha

/-- **Normalising what is appended to a relative path** follows its segments from there. -/
theorem normalSegments_join_relative (ha : ¬ IsAbsolute a) (hane : a ≠ []) (hb : ¬ IsAbsolute b) :
    normalSegments (join a b) = follow (normalSegments a) (segments b) := by
  rw [normalSegments_of_relative (not_isAbsolute_join ha hb), foldl_segments_join hane hb,
    normalSegments_of_relative ha, follow, List.reverse_reverse]

theorem foldl_pushSegment_parents_relative (n k : ℕ) :
    (List.replicate n parentSegment).foldl (pushSegment false) (List.replicate k parentSegment) =
      List.replicate (k + n) parentSegment := by
  induction n generalizing k with
  | zero => rfl
  | succ n ih =>
    have hpush : pushSegment false (List.replicate k parentSegment) parentSegment =
        List.replicate (k + 1) parentSegment := by
      cases k with
      | zero => rfl
      | succ k => rw [List.replicate_succ, pushSegment_parent_cons, if_pos rfl]; rfl
    rw [List.replicate_succ, List.foldl_cons, hpush, ih, Nat.add_assoc, Nat.add_comm 1 n]

/-- Normal segments are pushed one behind the other. -/
theorem foldl_pushSegment_normal {rooted : Bool} (h : IsNormal rooted ss) :
    ss.foldl (pushSegment rooted) [] = ss.reverse := by
  obtain ⟨ups, names, rfl, hn, hr⟩ := h
  cases rooted with
  | true =>
    obtain rfl := hr rfl
    rw [List.replicate_zero, List.nil_append, foldl_pushSegment_names hn, List.append_nil]
  | false =>
    have hups := foldl_pushSegment_parents_relative ups 0
    rw [List.replicate_zero, Nat.zero_add] at hups
    rw [List.foldl_append, hups, foldl_pushSegment_names hn, List.reverse_append,
      List.reverse_replicate]

/-- Empty segments are skipped. -/
theorem foldl_pushSegment_empty (rooted : Bool) (n : ℕ) :
    (List.replicate n []).foldl (pushSegment rooted) [] = [] := by
  induction n with
  | zero => rfl
  | succ n ih => exact ih

/-- Normal segments are what normalisation leaves of their path. -/
theorem normalSegments_ofSegments {root : ℕ} (hroot : root ≤ 2) (h : IsNormal (root != 0) ss) :
    normalSegments (ofSegments root ss) = ss := by
  rw [normalSegments, rootSlashes_ofSegments hroot fun s hs => h.of_mem hs,
    segments_ofSegments fun s hs => (h.of_mem hs).2, List.foldl_append,
    foldl_pushSegment_empty]
  split_ifs with hss
  · rw [hss]
    rfl
  · rw [foldl_pushSegment_normal h, List.reverse_reverse]

/-! ### Files in a directory -/

theorem normalSegments_append_slash (ha : ¬ IsAbsolute a) (hane : a ≠ []) :
    normalSegments (a ++ ['/']) = normalSegments a := by
  have hrel : ¬ IsAbsolute (a ++ ['/']) := by
    obtain ⟨c, a, rfl⟩ := List.exists_cons_of_ne_nil hane
    simpa [IsAbsolute] using ha
  rw [normalSegments_of_relative hrel, normalSegments_of_relative ha, segments_append, List.foldl_append]
  rfl

/-- Separators at the end do not matter. -/
theorem normalSegments_trimEnd (ha : ¬ IsAbsolute a) : normalSegments (trimEnd a) = normalSegments a := by
  induction a using List.reverseRecOn with
  | nil => rfl
  | append_singleton a c ih =>
    by_cases hc : c = '/'
    · subst hc
      have hane : a ≠ [] := fun h => ha (by simp [h, IsAbsolute])
      have hrel : ¬ IsAbsolute a := fun h => ha (h.of_isPrefix (List.prefix_append a _))
      have htrim : trimEnd (a ++ ['/']) = trimEnd a := by simp [trimEnd]
      rw [htrim, ih hrel, normalSegments_append_slash hrel hane]
    · rw [trimEnd_eq_self (by simpa using hc)]

theorem dirname_append {head name : Path} (hhead : ¬ IsAbsolute head) (hne : head ≠ [])
    (hlast : head.getLast? = some '/') (hname : '/' ∉ name) :
    dirname (head ++ name) = trimEnd head := by
  rw [dirname, splitLast_append (.inr hlast) hname]
  obtain ⟨c, head, rfl⟩ := List.exists_cons_of_ne_nil hne
  have hc : c ≠ '/' := by simpa [IsAbsolute] using hhead
  simp [hc]

theorem normalSegments_dirname_join (ha : ¬ IsAbsolute a) (hane : a ≠ []) (hfile : '/' ∉ file) :
    normalSegments (dirname (join a file)) = normalSegments a := by
  have hrel : ¬ IsAbsolute file := fun h => hfile (List.mem_of_mem_head? h)
  rw [join_of_not_isAbsolute hrel]
  split_ifs with hlast
  · rw [dirname_append ha hane (hlast.resolve_left hane) hfile, normalSegments_trimEnd ha]
  · have hslash : (a ++ ['/']).getLast? = some '/' := by simp
    have ha' : ¬ IsAbsolute (a ++ ['/']) := by
      obtain ⟨c, a, rfl⟩ := List.exists_cons_of_ne_nil hane
      simpa [IsAbsolute] using ha
    have hcons : a ++ '/' :: file = (a ++ ['/']) ++ file := by simp
    rw [hcons, dirname_append ha' (by simp) hslash hfile,
      trimEnd_append_slash (not_or.1 hlast).2]

end ScopedFn.Path
