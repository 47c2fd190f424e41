import ScopedFn.Proofs.Value.Document
import ScopedFn.Value.Circular

/-!
# Values that do not contain themselves

Where nothing refers to what it lies in, a part is taken out as it is, and a map with parts taken out
of it has the same parts.

* `Value.allAcyclic_iff`, `Value.areAcyclic_iff` : a value contains itself iff a part refers to what is
  around it;
* `Value.inside_of_isAcyclic`, `Value.beside_of_isAcyclic` : a part that refers to nothing around it;
* `Value.IsDocument.isAcyclic` : what documents can hold.
-/

set_option autoImplicit false

namespace ScopedFn

theorem Atom.isReference_of_isProper {a : Atom} (h : a.isProper = true) : a.isReference = false := by
  cases a <;> first | rfl | cases h

namespace Value

variable {v : Value} {vs : List Value} {es : MapEntries}

theorem allAcyclic_iff : allAcyclic vs = true ↔ ∀ v ∈ vs, v.isAcyclic = true := by
  induction vs with
  | nil => simp [allAcyclic]
  | cons v vs ih => rw [allAcyclic, Bool.and_eq_true, ih, List.forall_mem_cons]

theorem areAcyclic_iff : areAcyclic es = true ↔ ∀ e ∈ es, e.2.isAcyclic = true := by
  induction es with
  | nil => simp [areAcyclic]
  | cons e es ih => rw [areAcyclic, Bool.and_eq_true, ih, List.forall_mem_cons]

theorem isAcyclic_of_mem (h : areAcyclic es = true) {k : Atom} (hmem : (k, v) ∈ es) :
    v.isAcyclic = true :=
  areAcyclic_iff.1 h (k, v) hmem

theorem areAcyclic_put (h : areAcyclic es = true) (hv : v.isAcyclic = true) (k : Atom) :
    areAcyclic (Entries.put Atom.same k v es) = true := by
  rw [areAcyclic_iff] at h ⊢
  have hall := @Entries.forall_put _ _ Atom.same k v (fun _ => True) (fun w => w.isAcyclic = true) es
    trivial hv fun e he => ⟨trivial, h e he⟩
  exact fun e he => (hall e he).2

/-- What documents can hold refers to nothing around it. -/
theorem IsDocument.isAcyclic (h : v.IsDocument) : v.isAcyclic = true := by
  induction h with
  | atom h => rw [Value.isAcyclic, Atom.isReference_of_isProper h, Bool.not_false]
  | list _ ih | tuple _ ih => exact allAcyclic_iff.2 ih
  | map _ _ _ ih => exact areAcyclic_iff.2 ih
  | set => rfl

/-! ### Parts -/

/-- A part that refers to nothing is taken out as it is. -/
theorem inside_of_isAcyclic (h : v.isAcyclic = true) (whole : Value) : v.inside whole = v :=
  if_pos h

/-- A value that refers to nothing stands for its copies. -/
theorem beside_of_isAcyclic (h : v.isAcyclic = true) (whole : Value) : v.beside whole = v :=
  if_pos h

end Value

end ScopedFn
