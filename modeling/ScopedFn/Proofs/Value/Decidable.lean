import ScopedFn.Envelope
import ScopedFn.Proofs.Value.Renaming

/-!
# Deciding whether two values are one

Whether two values are equal, identities included, is decided by going through both at once. So
what a program gives on a given input can be checked by running it.

* `Atom.isExactly`, `Value.isExactly` : the comparison;
* `Value.isExactly_iff` : it tells whether two values are equal.
-/

set_option autoImplicit false

namespace ScopedFn

namespace Atom

mutual

/-- The two atoms are equal, identities included. -/
def isExactly : Atom → Atom → Bool
  | .null, .null => true
  | .bool b, .bool c => b == c
  | .int m, .int n => m == n
  | .float x, .float y => decide (x = y)
  | .nan i, .nan j => i == j
  | .text s, .text t | .torn s, .torn t => s == t
  | .bytes b, .bytes c => b == c
  | .date i d, .date j e => i == j && decide (d = e)
  | .dateTime i t, .dateTime j u => i == j && decide (t = u)
  | .foreign i, .foreign j => i == j
  | .enclosing i isList, .enclosing j isList' => i == j && isList == isList'
  | .tuple i xs, .tuple j ys => i == j && areExactly xs ys
  | _, _ => false

/-- The atoms are equal one by one. -/
def areExactly : List Atom → List Atom → Bool
  | [], [] => true
  | x :: xs, y :: ys => isExactly x y && areExactly xs ys
  | _, _ => false

end

theorem areExactly_iff {xs ys : List Atom} (h : ∀ x ∈ xs, ∀ y, x.isExactly y ↔ x = y) :
    areExactly xs ys ↔ xs = ys := by
  induction xs generalizing ys with
  | nil => cases ys <;> simp [areExactly]
  | cons x xs ih =>
    obtain ⟨hx, hxs⟩ := List.forall_mem_cons.1 h
    cases ys with
    | nil => simp [areExactly]
    | cons y ys => rw [areExactly, Bool.and_eq_true, hx y, ih hxs, List.cons.injEq]

theorem isExactly_iff {a b : Atom} : a.isExactly b ↔ a = b := by
  induction a using Atom.induction generalizing b with
  | scalar a ha =>
    cases a with
    | tuple id items => exact absurd rfl (ha id items)
    | _ => cases b <;> simp [isExactly]
  | tuple i xs ih =>
    cases b with
    | tuple j ys => simp [isExactly, areExactly_iff fun x hx _ => ih x hx]
    | _ => simp [isExactly]

instance : DecidableEq Atom := fun _ _ => decidable_of_iff _ isExactly_iff

end Atom

namespace Value

mutual

/-- The two values are equal, identities included. -/
def isExactly : Value → Value → Bool
  | .atom a, .atom b => decide (a = b)
  | .list i vs, .list j ws => i == j && areExactly vs ws
  | .tuple i vs, .tuple j ws => i == j && areExactly vs ws
  | .map i es, .map j fs => i == j && entriesAreExactly es fs
  | .set i ms, .set j ns => i == j && decide (ms = ns)
  | _, _ => false

/-- The values are equal one by one. -/
def areExactly : List Value → List Value → Bool
  | [], [] => true
  | v :: vs, w :: ws => isExactly v w && areExactly vs ws
  | _, _ => false

/-- The entries are equal one by one. -/
def entriesAreExactly : List (Atom × Value) → List (Atom × Value) → Bool
  | [], [] => true
  | (k, v) :: es, (l, w) :: fs => decide (k = l) && isExactly v w && entriesAreExactly es fs
  | _, _ => false

end

theorem areExactly_iff {vs ws : List Value} (h : ∀ v ∈ vs, ∀ w, v.isExactly w ↔ v = w) :
    areExactly vs ws ↔ vs = ws := by
  induction vs generalizing ws with
  | nil => cases ws <;> simp [areExactly]
  | cons v vs ih =>
    obtain ⟨hv, hvs⟩ := List.forall_mem_cons.1 h
    cases ws with
    | nil => simp [areExactly]
    | cons w ws => rw [areExactly, Bool.and_eq_true, hv w, ih hvs, List.cons.injEq]

theorem entriesAreExactly_iff {es fs : MapEntries}
    (h : ∀ e ∈ es, ∀ w, e.2.isExactly w ↔ e.2 = w) : entriesAreExactly es fs ↔ es = fs := by
  induction es generalizing fs with
  | nil => cases fs <;> simp [entriesAreExactly]
  | cons e es ih =>
    obtain ⟨he, hes⟩ := List.forall_mem_cons.1 h
    cases fs with
    | nil => simp [entriesAreExactly]
    | cons f fs =>
      rw [entriesAreExactly, Bool.and_eq_true, Bool.and_eq_true, he f.2, ih hes, List.cons.injEq,
        Prod.ext_iff, decide_eq_true_iff]

/-- **The comparison tells whether two values are equal.** -/
theorem isExactly_iff {v w : Value} : v.isExactly w ↔ v = w := by
  induction v using Value.induction generalizing w with
  | atom a => cases w <;> simp [isExactly]
  | list i vs ih =>
    cases w with
    | list j ws => simp [isExactly, areExactly_iff fun v hv _ => ih v hv]
    | _ => simp [isExactly]
  | tuple i vs ih =>
    cases w with
    | tuple j ws => simp [isExactly, areExactly_iff fun v hv _ => ih v hv]
    | _ => simp [isExactly]
  | map i es ih =>
    cases w with
    | map j fs => simp [isExactly, entriesAreExactly_iff fun e he _ => ih e he]
    | _ => simp [isExactly]
  | set i ms => cases w <;> simp [isExactly]

instance : DecidableEq Value := fun _ _ => decidable_of_iff _ isExactly_iff

end Value

deriving instance DecidableEq for Resource
deriving instance DecidableEq for ExitFault
deriving instance DecidableEq for Fault
deriving instance DecidableEq for Failure
deriving instance DecidableEq for Envelope.Decoded

end ScopedFn
