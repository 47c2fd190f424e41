import ScopedFn.Scope.Directory

/-!
# Partition by scope

`split` divides a collection into the resources in a scope and the others, both in their order.
A resource without a path lies outside of every scope but the global one. If the metadata of a
resource cannot be read, there is no partition at all. The fault names the first such resource if
its metadata has the wrong shape; if a part of it is given as no text, nothing names it.
-/

set_option autoImplicit false

namespace ScopedFn.Scope

/-- The two sides of a partition. -/
structure Split where
  /-- The resources in scope. -/
  inside : List Resource
  /-- The other resources. -/
  outside : List Resource
  deriving Repr

/-- A resource that spoils a partition: its position and what is wrong with it. -/
structure SplitFault where
  /-- Position in the collection. -/
  position : Nat
  /-- Why its metadata cannot be read. -/
  fault : MetaFault
  deriving DecidableEq, Repr

/-- The scope holds every resource. -/
def holdsAll (scope : Path) : Bool := scope = global || scope = ['.'] || scope = ['/']

/-- The resource with this metadata lies in the scope. -/
def holds (scope : Path) (m : Meta) : Bool :=
  m.path?.any fun path => isWithin (resourceDir path.toList) scope

/-- Divides the resources from a position on. -/
def splitFrom (scope : Path) : Nat → List Resource → Except (OrNoText SplitFault) Split
  | _, [] => .ok ⟨[], []⟩
  | position, r :: rs =>
    match r.getMeta with
    | .error cause => .error (cause.map fun fault => ⟨position, fault⟩)
    | .ok m => do
      let rest ← splitFrom scope (position + 1) rs
      return if holds scope m then { rest with inside := r :: rest.inside }
        else { rest with outside := r :: rest.outside }

/-- Divides a collection; a function of global scope gets all of it. -/
def split (scope : Path) (rs : List Resource) (globalScope : Bool) :
    Except (OrNoText SplitFault) Split :=
  if globalScope || holdsAll scope then .ok ⟨rs, []⟩ else splitFrom scope 0 rs

end ScopedFn.Scope
