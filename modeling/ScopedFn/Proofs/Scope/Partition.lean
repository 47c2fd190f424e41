import Mathlib.Data.List.Basic
import ScopedFn.Scope.Partition

/-!
# Both sides of a partition

A partition by a scope sends each resource to the side that its own metadata tells, whatever
stands around it.

* `Scope.exists_split_iff` : a partition succeeds if the metadata of all resources can be read;
* `Scope.split_ok` : the two sides of a partition that succeeds;
* `Scope.split_append` : dividing what has been divided and put together again;
* `Scope.outside_sublist` and `Scope.perm_of_split` : the resources out of scope stand in the order
  of the collection, and the sides together hold each resource once.
-/

set_option autoImplicit false

namespace ScopedFn.Scope

/-- The resource has readable metadata that puts it in the scope. -/
def lies (scope : Path) (r : Resource) : Bool := r.getMeta.toOption.any (holds scope)

theorem lies_eq {scope : Path} {r : Resource} {m : Meta} (hm : r.getMeta = .ok m) :
    lies scope r = holds scope m := by
  rw [lies, hm]
  rfl

variable {scope : Path} {rs : List Resource} {s : Split}

theorem splitFrom_ok {position : Nat} (h : splitFrom scope position rs = .ok s) :
    s.inside = rs.filter (lies scope) ∧ s.outside = rs.filter fun r => !lies scope r := by
  induction rs generalizing position s with
  | nil =>
    obtain rfl := Except.ok.inj h
    exact ⟨rfl, rfl⟩
  | cons r rs ih =>
    unfold splitFrom at h
    cases hm : r.getMeta with
    | error fault => simp [hm] at h
    | ok m =>
      cases hrest : splitFrom scope (position + 1) rs with
      | error fault => simp [hm, hrest, bind, Except.bind] at h
      | ok rest =>
        obtain ⟨hin, hout⟩ := ih hrest
        simp only [hm, hrest, bind, Except.bind, pure, Except.pure, Except.ok.injEq] at h
        subst h
        by_cases hh : holds scope m <;> simp [lies_eq hm, hh, hin, hout]

theorem exists_splitFrom_iff {position : Nat} :
    (∃ s, splitFrom scope position rs = .ok s) ↔ ∀ r ∈ rs, ∃ m, r.getMeta = .ok m := by
  induction rs generalizing position with
  | nil => exact iff_of_true ⟨_, rfl⟩ nofun
  | cons r rs ih =>
    rw [List.forall_mem_cons, ← @ih (position + 1), splitFrom]
    cases r.getMeta with
    | error fault => simp
    | ok m => cases splitFrom scope (position + 1) rs <;> simp [bind, Except.bind, pure, Except.pure]

/-- A partition succeeds if nothing has to be read, or all metadata can be read. -/
theorem exists_split_iff {globalScope : Bool} :
    (∃ s, split scope rs globalScope = .ok s) ↔
      (globalScope || holdsAll scope) = true ∨ ∀ r ∈ rs, ∃ m, r.getMeta = .ok m := by
  unfold split
  split_ifs with hall
  · exact iff_of_true ⟨_, rfl⟩ (.inl hall)
  · rw [exists_splitFrom_iff, or_iff_right hall]

/-- The sides of a partition that succeeds: all and nothing for a function of global scope, else
the resources that lie in the scope and the others. -/
theorem split_ok {globalScope : Bool} (h : split scope rs globalScope = .ok s) :
    (globalScope || holdsAll scope) = true ∧ s = ⟨rs, []⟩ ∨
      (globalScope || holdsAll scope) = false ∧ s.inside = rs.filter (lies scope) ∧
        s.outside = rs.filter fun r => !lies scope r := by
  unfold split at h
  split_ifs at h with hall
  · exact .inl ⟨hall, (Except.ok.inj h).symm⟩
  · exact .inr ⟨by simpa using hall, splitFrom_ok h⟩

/-- A collection that is divided already is divided in the same way. -/
theorem split_append {globalScope : Bool} {inside outside : List Resource}
    (hnot : (globalScope || holdsAll scope) = false)
    (hmetas : ∀ r ∈ inside ++ outside, ∃ m, r.getMeta = .ok m)
    (hin : ∀ r ∈ inside, lies scope r = true) (hout : ∀ r ∈ outside, lies scope r = false) :
    split scope (inside ++ outside) globalScope = .ok ⟨inside, outside⟩ := by
  obtain ⟨⟨inside', outside'⟩, hs⟩ :=
    (@exists_split_iff scope _ globalScope).2 (.inr hmetas)
  obtain ⟨hall, -⟩ | ⟨-, hinside, houtside⟩ := split_ok hs
  · exact absurd (hnot.symm.trans hall) (by simp)
  have hinside' : inside' = inside := by
    rw [show inside' = _ from hinside, List.filter_append, List.filter_eq_self.2 hin,
      List.filter_eq_nil_iff.2 fun r hr => by simp [hout r hr], List.append_nil]
  have houtside' : outside' = outside := by
    rw [show outside' = _ from houtside, List.filter_append,
      List.filter_eq_nil_iff.2 fun r hr => by simp [hin r hr],
      List.filter_eq_self.2 fun r hr => by simp [hout r hr], List.nil_append]
  rw [hs, hinside', houtside']

/-- The resources out of scope stand in the order of the collection. -/
theorem outside_sublist {globalScope : Bool} (h : split scope rs globalScope = .ok s) :
    s.outside.Sublist rs := by
  obtain ⟨-, rfl⟩ | ⟨-, -, hout⟩ := split_ok h
  · exact List.nil_sublist rs
  · rw [hout]
    exact List.filter_sublist

/-- Each resource of the collection is on one side, once. -/
theorem perm_of_split {globalScope : Bool} (h : split scope rs globalScope = .ok s) :
    (s.inside ++ s.outside).Perm rs := by
  obtain ⟨-, rfl⟩ | ⟨-, hin, hout⟩ := split_ok h
  · simp
  · rw [hin, hout]
    exact List.filter_append_perm (lies scope) rs

end ScopedFn.Scope
