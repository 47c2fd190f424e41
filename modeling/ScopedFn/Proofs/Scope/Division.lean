import ScopedFn.Fault
import ScopedFn.Proofs.Resource.Reading
import ScopedFn.Proofs.Scope.Partition

/-!
# What a partition gives

A partition by a scope gives both sides, or nothing. If the scope does not hold all anyway, each
resource is on the side that its path annotation tells. A resource whose metadata cannot be read
spoils the partition. The first such one is to be reported with its position, and it is, unless
what is wrong with it is a part that is given as no text.

* `Scope.Divided` : a collection divided resource by resource, both sides in its order;
* `Scope.split_eq_error_iff` : which resource spoils a partition, and with which fault;
* `Scope.SplitsStrictly` : what a partition is to give;
* `Scope.splitsStrictly_iff` : the scopes and collections for which it does.
-/

set_option autoImplicit false

namespace ScopedFn.Scope

open Resource

variable {scope : Path} {rs inside outside : List Resource}

/-! ### Divided collections -/

/-- The resource lies inside the scope: it has a path annotation, not an empty one, and the
directory that counts for the path is within the scope. -/
def IsInside (scope : Path) (r : Resource) : Prop :=
  ∃ m path, r.getMeta = .ok m ∧ m.annotations.get? pathKey = some path ∧ path ≠ "" ∧
    isWithin (resourceDir path.toList) scope = true

theorem lies_iff {r : Resource} : lies scope r = true ↔ IsInside scope r := by
  unfold lies IsInside holds Meta.path?
  cases r.getMeta with
  | error fault => simp [Except.toOption]
  | ok m => simp [Except.toOption, Option.any_eq_true]

/-- The collection is divided resource by resource, both sides in its order. -/
inductive Divided (scope : Path) : List Resource → List Resource → List Resource → Prop where
  /-- Nothing is left. -/
  | nil : Divided scope [] [] []
  /-- A resource inside the scope. -/
  | inside {r : Resource} {rs inside outside : List Resource} (hr : IsInside scope r)
    (h : Divided scope rs inside outside) : Divided scope (r :: rs) (r :: inside) outside
  /-- Any other resource. -/
  | outside {r : Resource} {rs inside outside : List Resource} (hr : ¬IsInside scope r)
    (h : Divided scope rs inside outside) : Divided scope (r :: rs) inside (r :: outside)

namespace Divided

theorem length_add (h : Divided scope rs inside outside) :
    inside.length + outside.length = rs.length := by
  induction h with
  | nil => rfl
  | inside _ _ ih => simp only [List.length_cons]; omega
  | outside _ _ ih => simp only [List.length_cons]; omega

theorem inside_sublist (h : Divided scope rs inside outside) : inside.Sublist rs := by
  induction h with
  | nil => exact .slnil
  | inside _ _ ih => exact ih.cons_cons _
  | outside _ _ ih => exact ih.cons _

theorem outside_sublist (h : Divided scope rs inside outside) : outside.Sublist rs := by
  induction h with
  | nil => exact .slnil
  | inside _ _ ih => exact ih.cons _
  | outside _ _ ih => exact ih.cons_cons _

end Divided

theorem divided_filter (scope : Path) (rs : List Resource) :
    Divided scope rs (rs.filter (lies scope)) (rs.filter fun r => !lies scope r) := by
  induction rs with
  | nil => exact .nil
  | cons r rs ih =>
    cases hr : lies scope r with
    | true => simpa [hr] using ih.inside (lies_iff.1 hr)
    | false => simpa [hr] using ih.outside (mt lies_iff.2 (by simp [hr]))

/-! ### Spoiled partitions -/

variable {cause : OrNoText MetaFault}

theorem splitFrom_eq_error_iff {start : ℕ} {e : OrNoText SplitFault} :
    splitFrom scope start rs = .error e ↔
      ∃ n cause, IsFirstUnreadable rs n cause ∧ e = cause.map fun fault => ⟨start + n, fault⟩ := by
  induction rs generalizing start with
  | nil => simp [splitFrom, IsFirstUnreadable]
  | cons r rs ih =>
    rw [splitFrom]
    cases hr : r.getMeta with
    | error cause =>
      constructor
      · intro h
        exact ⟨0, cause, isFirstUnreadable_zero.2 hr, (Except.error.inj h).symm⟩
      · rintro ⟨n, cause', hfirst, rfl⟩
        cases n with
        | zero =>
          rw [isFirstUnreadable_zero, hr] at hfirst
          obtain rfl := Except.error.inj hfirst
          rfl
        | succ n => simp [isFirstUnreadable_succ, hr] at hfirst
    | ok m =>
      have hrest : (do
          let rest ← splitFrom scope (start + 1) rs
          return if holds scope m then { rest with inside := r :: rest.inside }
            else { rest with outside := r :: rest.outside } :
              Except (OrNoText SplitFault) Split) = .error e ↔
          splitFrom scope (start + 1) rs = .error e := by
        cases splitFrom scope (start + 1) rs <;> simp [bind, Except.bind, pure, Except.pure]
      rw [hrest, ih]
      constructor
      · rintro ⟨n, cause, hfirst, rfl⟩
        refine ⟨n + 1, cause, isFirstUnreadable_succ.2 ⟨⟨m, hr⟩, hfirst⟩, ?_⟩
        rw [Nat.add_right_comm, Nat.add_assoc]
      · rintro ⟨n, cause, hfirst, rfl⟩
        cases n with
        | zero => simp [isFirstUnreadable_zero, hr] at hfirst
        | succ n =>
          refine ⟨n, cause, (isFirstUnreadable_succ.1 hfirst).2, ?_⟩
          rw [Nat.add_right_comm, Nat.add_assoc]

/-! ### What a partition gives -/

/-- The scope holds everything, or the function is said to be of global scope. -/
def HoldsAll (scope : Path) (globalScope : Bool) : Prop :=
  globalScope = true ∨ scope = [] ∨ scope = ['.'] ∨ scope = ['/']

theorem holdsAll_iff {globalScope : Bool} :
    (globalScope || holdsAll scope) = true ↔ HoldsAll scope globalScope := by
  simp only [holdsAll, Bool.or_eq_true, decide_eq_true_iff, or_assoc]
  rfl

theorem split_eq_error_iff {globalScope : Bool} {e : OrNoText SplitFault} :
    split scope rs globalScope = .error e ↔ ¬HoldsAll scope globalScope ∧
      ∃ position cause, IsFirstUnreadable rs position cause ∧
        e = cause.map fun fault => ⟨position, fault⟩ := by
  rw [← holdsAll_iff, split]
  split_ifs with hall
  · exact iff_of_false nofun fun h => h.1 hall
  · rw [and_iff_right hall, splitFrom_eq_error_iff]
    simp only [Nat.zero_add]

/-- A partition gives everything, or reports, or divides. -/
structure SplitsStrictly (scope : Path) (rs : List Resource) (globalScope : Bool) : Prop where
  /-- If the scope holds everything, all resources are inside, whatever their metadata. -/
  all : HoldsAll scope globalScope → split scope rs globalScope = .ok ⟨rs, []⟩
  /-- Else the first resource whose metadata cannot be read is reported, with its position in the
  details of the fault. -/
  reported : ¬HoldsAll scope globalScope → ∀ position cause, IsFirstUnreadable rs position cause →
    ∃ fault, split scope rs globalScope = .error (.fault ⟨position, fault⟩) ∧
      ∀ v, ("position", v) ∈ (Fault.partition position fault).details ↔ v = .int position
  /-- If there is no such resource, the collection is divided. -/
  divided : ¬HoldsAll scope globalScope → (∀ r ∈ rs, ∃ m, r.getMeta = .ok m) →
    ∃ inside outside, split scope rs globalScope = .ok ⟨inside, outside⟩ ∧
      Divided scope rs inside outside ∧ inside.Sublist rs ∧ outside.Sublist rs ∧
        inside.length + outside.length = rs.length

theorem position_mem_details_iff {position : ℕ} {fault : MetaFault} {v : Value} :
    ("position", v) ∈ (Fault.partition position fault).details ↔ v = .int position := by
  cases fault <;> simp [Fault.details, MetaFault.details]

/-- **What a partition gives.** It gives everything, or reports, or divides, unless the first
resource whose metadata cannot be read is one with a part that is given as no text. -/
theorem splitsStrictly_iff (scope : Path) (rs : List Resource) (globalScope : Bool) :
    SplitsStrictly scope rs globalScope ↔ HoldsAll scope globalScope ∨
      ¬∃ position cause, IsFirstUnreadable rs position (.noText cause) := by
  constructor
  · intro h
    refine or_iff_not_imp_left.2 fun hnot => ?_
    rintro ⟨position, cause, hfirst⟩
    obtain ⟨fault, hsplit, -⟩ := h.reported hnot _ _ hfirst
    have hnone := split_eq_error_iff.2 ⟨hnot, position, _, hfirst, rfl⟩
    cases hsplit.symm.trans hnone
  · intro h
    refine ⟨fun hall => ?_, fun hnot position cause hfirst => ?_, fun hnot hmetas => ?_⟩
    · rw [split, if_pos (holdsAll_iff.2 hall)]
    · cases cause with
      | fault fault =>
        exact ⟨fault, split_eq_error_iff.2 ⟨hnot, position, _, hfirst, rfl⟩,
          fun _ => position_mem_details_iff⟩
      | noText cause => exact absurd ⟨position, cause, hfirst⟩ (h.resolve_left hnot)
    · obtain ⟨⟨inside, outside⟩, hs⟩ :=
        (@exists_split_iff scope rs globalScope).2 (.inr hmetas)
      obtain ⟨hall, -⟩ | ⟨-, hinside, houtside⟩ := split_ok hs
      · exact absurd (holdsAll_iff.1 hall) hnot
      · have hdivided := divided_filter scope rs
        rw [← hinside, ← houtside] at hdivided
        exact ⟨inside, outside, hs, hdivided, hdivided.inside_sublist, hdivided.outside_sublist,
          hdivided.length_add⟩

/-- A resource whose name is a number with too many digits spoils the partition by a directory, and
nothing says which one it is. -/
theorem split_longNamed : ¬SplitsStrictly "apps".toList [longNamed] false := by
  rw [splitsStrictly_iff]
  simp only [HoldsAll, not_or, not_not]
  exact ⟨by decide, 0, .numberTooLong, isFirstUnreadable_zero.2 getMeta_longNamed⟩

end ScopedFn.Scope
