import Mathlib.Data.Finset.Card
import ScopedFn.Proofs.Provenance.Names
import ScopedFn.Proofs.Scope.Spelling

/-!
# The search for a free path

A path is tried as it is, and then with the numbers from one on, until a free one is found. The
search itself has no limit. It ends all the same: the candidates are different from each other, and
every candidate that is passed over is taken.

* `Provenance.Search` : the search, one candidate after the other, for as long as it takes;
* `Provenance.search_iff` : a search passes over the candidates that are taken up to a free one;
* `Provenance.le_card_of_forall_mem` : no more candidates are passed over than paths are taken;
* `Provenance.search_ends` : every search ends, after how many candidates, and with which path.
-/

set_option autoImplicit false

namespace ScopedFn

namespace Path

/-- Cutting off an extension loses no character. -/
theorem length_splitExtension (p : Path) :
    (splitExtension p).1.length + (splitExtension p).2.length = p.length := by
  obtain ⟨head, name, rfl, hhead, hname⟩ := exists_head_append p
  rw [splitExtension, splitLast_append hhead hname]
  dsimp only
  split_ifs with hcut
  · simp only [List.length_append, List.length_take, List.length_cons]
    omega
  · rfl

end Path

namespace Provenance

open ScopedFn.Path

variable {path p : Path} {taken : List Path} {i n tries : ℕ}

/-! ### Candidates -/

/-- The paths that are tried: the path as it is, then the path with a number. -/
def candidate (path : Path) : ℕ → Path
  | 0 => path
  | n + 1 => numbered path (n + 1)

/-- A number makes a path longer. -/
theorem length_lt_numbered (path : Path) (n : ℕ) : path.length < (numbered path n).length := by
  have hlength := length_splitExtension path
  simp only [numbered, List.length_append, List.length_cons]
  omega

/-- No path is tried twice. -/
theorem candidate_injective (path : Path) : Function.Injective (candidate path) := by
  have hne : ∀ n, numbered path n ≠ path := fun n h =>
    absurd (congrArg List.length h) (length_lt_numbered path n).ne'
  intro a b h
  cases a with
  | zero =>
    cases b with
    | zero => rfl
    | succ b => exact absurd h.symm (hne (b + 1))
  | succ a =>
    cases b with
    | zero => exact absurd h (hne (a + 1))
    | succ b => exact numbered_injective path h

/-- Candidates that are all taken are no more than the paths that are taken. -/
theorem le_card_of_forall_mem (h : ∀ i < n, candidate path i ∈ taken) : n ≤ taken.toFinset.card := by
  have hsubset : (Finset.range n).image (candidate path) ⊆ taken.toFinset := by
    intro q hq
    obtain ⟨i, hi, rfl⟩ := Finset.mem_image.1 hq
    exact List.mem_toFinset.2 (h i (Finset.mem_range.1 hi))
  have hle := Finset.card_le_card hsubset
  rwa [Finset.card_image_of_injective _ (candidate_injective path), Finset.card_range] at hle

/-! ### The search -/

/-- From a candidate on, the search tries so many candidates and ends with a path. -/
inductive Search (taken : List Path) (path : Path) : ℕ → ℕ → Path → Prop
  /-- It ends with a candidate that is free. -/
  | free {i : ℕ} (h : candidate path i ∉ taken) : Search taken path i 1 (candidate path i)
  /-- It passes over a candidate that is taken. -/
  | next {i tries : ℕ} {p : Path} (h : candidate path i ∈ taken)
      (rest : Search taken path (i + 1) tries p) : Search taken path i (tries + 1) p

/-- A search passes over candidates that are taken, up to one that is free. -/
theorem search_iff : Search taken path i tries p ↔
    ∃ n, tries = n + 1 ∧ p = candidate path (i + n) ∧ candidate path (i + n) ∉ taken ∧
      ∀ k < n, candidate path (i + k) ∈ taken := by
  constructor
  · intro h
    induction h with
    | free hfree => exact ⟨0, rfl, rfl, hfree, nofun⟩
    | @next i tries p hmem _ ih =>
      obtain ⟨n, rfl, rfl, hfree, hpassed⟩ := ih
      refine ⟨n + 1, rfl, by rw [Nat.add_right_comm, Nat.add_assoc],
        by rwa [Nat.add_right_comm, Nat.add_assoc] at hfree, fun k hk => ?_⟩
      cases k with
      | zero => exact hmem
      | succ k =>
        have hk := hpassed k (by omega)
        rwa [Nat.add_right_comm, Nat.add_assoc] at hk
  · rintro ⟨n, rfl, rfl, hfree, hpassed⟩
    induction n generalizing i with
    | zero => exact .free hfree
    | succ n ih =>
      have hi : i + (n + 1) = i + 1 + n := by omega
      rw [hi] at hfree ⊢
      refine .next (hpassed 0 (by omega)) (ih hfree fun k hk => ?_)
      rw [Nat.add_right_comm, Nat.add_assoc]
      exact hpassed (k + 1) (by omega)

/-- The search from the path on finds the path that is given. -/
theorem exists_search (taken : List Path) (path : Path) :
    ∃ n, freePath taken path = candidate path n ∧ candidate path n ∉ taken ∧
      ∀ k < n, candidate path k ∈ taken := by
  by_cases h : path ∈ taken
  · obtain ⟨n, hn, hfree, hnew, hleast⟩ := exists_freePath h
    obtain ⟨n, rfl⟩ := Nat.exists_eq_add_of_le' hn
    refine ⟨n + 1, hfree, hnew, fun k hk => ?_⟩
    cases k with
    | zero => exact h
    | succ k => exact hleast (k + 1) (by omega) hk
  · exact ⟨0, by rw [freePath, if_neg (by simpa using h)]; rfl, h, nofun⟩

/-- **The search ends, and its end is exact.** Whatever paths are taken, the search from the path on
ends in one way only: after no more candidates than there are taken paths, and one. What it finds is
the path that is given. That one is free. It is the path itself if this is free, and else the path
with the least number, put before its extension, that makes a free one. -/
theorem search_ends (taken : List Path) (path : Path) :
    ∃ tries, (∀ t p, Search taken path 0 t p ↔ t = tries ∧ p = freePath taken path) ∧
      tries ≤ taken.toFinset.card + 1 ∧ freePath taken path ∉ taken ∧
      ((path ∉ taken ∧ freePath taken path = path) ∨
        (path ∈ taken ∧ ∃ base extension n, splitExtension path = (base, extension) ∧ 1 ≤ n ∧
          freePath taken path = base ++ '_' :: Nat.toDigits 10 n ++ extension ∧
          ∀ k, 1 ≤ k → k < n → base ++ '_' :: Nat.toDigits 10 k ++ extension ∈ taken)) := by
  obtain ⟨n, hgiven, hfree, hpassed⟩ := exists_search taken path
  refine ⟨n + 1, fun t p => ?_, Nat.succ_le_succ (le_card_of_forall_mem hpassed),
    freePath_notMem taken path, ?_⟩
  · rw [search_iff]
    simp only [Nat.zero_add]
    constructor
    · rintro ⟨m, rfl, rfl, hm, hbefore⟩
      -- neither of two ends can lie before the other
      obtain rfl : m = n := by
        rcases Nat.lt_trichotomy m n with hlt | heq | hgt
        · exact absurd (hpassed m hlt) hm
        · exact heq
        · exact absurd (hbefore n hgt) hfree
      exact ⟨rfl, hgiven.symm⟩
    · rintro ⟨rfl, rfl⟩
      exact ⟨n, rfl, hgiven, hfree, hpassed⟩
  · by_cases h : path ∈ taken
    · obtain ⟨n, hn, hgiven, -, hleast⟩ := exists_freePath h
      exact .inr ⟨h, _, _, n, rfl, hn, hgiven, hleast⟩
    · exact .inl ⟨h, by rw [freePath, if_neg (by simpa using h)]⟩

/-- A name that begins with its only dot has no extension, so the number comes last. -/
example : freePath [".env".toList, ".env_1".toList] ".env".toList = ".env_2".toList := by decide

end Provenance

end ScopedFn
