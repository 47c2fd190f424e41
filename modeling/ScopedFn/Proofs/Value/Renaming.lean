import ScopedFn.Proofs.Value.Objects

/-!
# Renaming the objects of a value

The numbers that serve as identities have no meaning of their own: a value with other identities,
equal ones where there were equal ones, says the same. A renaming treats three kinds of objects
apart. Tuples of plain atoms are kept by a copy, everything else but a not-a-number is made anew by
it, and of not-a-numbers nothing shows in a document.

* `Value.rename` : a value with its identities renamed;
* `Value.shift_eq_rename` : to copy a value is to rename what a copy makes anew;
* `Value.rename_congr` : only the identities that can occur in a value matter.
-/

set_option autoImplicit false

namespace ScopedFn

/-- New names for identities. Different objects stay different, and what is no object is none. -/
structure Labelling where
  /-- The new name of an identity. -/
  label : ObjectId → ObjectId
  /-- Different objects stay different. -/
  injective : Function.Injective label
  /-- What is no object is none. -/
  noObject : label noObject = noObject

instance : CoeFun Labelling fun _ => ObjectId → ObjectId := ⟨Labelling.label⟩

namespace Labelling

/-- All names stay as they are. -/
def same : Labelling := ⟨id, Function.injective_id, rfl⟩

/-- One labelling after the other. -/
def trans (f g : Labelling) : Labelling where
  label := g ∘ f
  injective := g.injective.comp f.injective
  noObject := by rw [Function.comp_apply, f.noObject, g.noObject]

theorem eq_noObject (g : Labelling) {id : ObjectId} :
    g id = ScopedFn.noObject ↔ id = ScopedFn.noObject := by
  have h := g.injective.eq_iff (a := id) (b := ScopedFn.noObject)
  rwa [g.noObject] at h

end Labelling

/-- A renaming of identities. -/
structure Renaming where
  /-- The new identities of objects that a copy makes anew. -/
  object : ObjectId → ObjectId
  /-- Different objects stay different. -/
  injective : Function.Injective object
  /-- The new identities of tuples that a copy keeps. -/
  tuple : Labelling
  /-- The new identities of not-a-numbers. -/
  nan : ObjectId → ObjectId

namespace Renaming

/-- The new identity of a tuple, which a copy keeps if it is plain. -/
def ofTuple (ρ : Renaming) (plain : Bool) : ObjectId → ObjectId :=
  if plain then ρ.tuple else ρ.object

/-- One renaming after the other. -/
def trans (ρ σ : Renaming) : Renaming where
  object := σ.object ∘ ρ.object
  injective := σ.injective.comp ρ.injective
  tuple := ρ.tuple.trans σ.tuple
  nan := σ.nan ∘ ρ.nan

/-- What a copy does to identities. -/
def moved (k : ℕ) : Renaming := ⟨(· + k), fun _ _ => Nat.add_right_cancel, .same, id⟩

/-- One labelling for all objects. A not-a-number is none. -/
def uniform (g : Labelling) : Renaming := ⟨g, g.injective, g, fun _ => noObject⟩

/-- The renamings agree on the identities before the given one. -/
structure AgreeBelow (ρ : Renaming) (hi : ℕ) (σ : Renaming) : Prop where
  /-- They agree on objects that a copy makes anew. -/
  object : ∀ id < hi, ρ.object id = σ.object id
  /-- They agree on tuples that a copy keeps. -/
  tuple : ∀ id < hi, ρ.tuple id = σ.tuple id
  /-- They agree on not-a-numbers. -/
  nan : ∀ id < hi, ρ.nan id = σ.nan id

variable {ρ σ : Renaming} {lo hi : ℕ}

theorem ofTuple_trans (plain : Bool) (id : ObjectId) :
    (ρ.trans σ).ofTuple plain id = σ.ofTuple plain (ρ.ofTuple plain id) := by
  cases plain <;> rfl

theorem ofTuple_uniform (g : Labelling) (plain : Bool) : (uniform g).ofTuple plain = g := by
  cases plain <;> rfl

theorem AgreeBelow.ofTuple (h : ρ.AgreeBelow hi σ) (plain : Bool) {id : ObjectId} (hid : id < hi) :
    ρ.ofTuple plain id = σ.ofTuple plain id := by
  cases plain
  · exact h.object id hid
  · exact h.tuple id hid

end Renaming

/-! ### Atoms -/

namespace Atom

mutual

/-- The atom with its identities renamed. -/
def rename (ρ : Renaming) : Atom → Atom
  | .nan id => .nan (ρ.nan id)
  | .date id d => .date (ρ.object id) d
  | .dateTime id t => .dateTime (ρ.object id) t
  | .foreign id => .foreign (ρ.object id)
  | .enclosing id isList => .enclosing (ρ.object id) isList
  | .tuple id items => .tuple (ρ.ofTuple (allPlain items) id) (renameAll ρ items)
  | a => a

/-- The atoms with their identities renamed. -/
def renameAll (ρ : Renaming) : List Atom → List Atom
  | [] => []
  | a :: as => rename ρ a :: renameAll ρ as

end

/-- A property of atoms follows from that of the atoms inside. -/
@[elab_as_elim]
theorem induction {P : Atom → Prop} (scalar : ∀ a, (∀ id items, a ≠ .tuple id items) → P a)
    (tuple : ∀ id items, (∀ a ∈ items, P a) → P (.tuple id items)) (a : Atom) : P a := by
  refine Atom.rec (motive_1 := P) (motive_2 := fun as => ∀ a ∈ as, P a) (scalar _ nofun)
    (fun _ => scalar _ nofun) (fun _ => scalar _ nofun) (fun _ => scalar _ nofun)
    (fun _ => scalar _ nofun) (fun _ => scalar _ nofun) (fun _ => scalar _ nofun)
    (fun _ => scalar _ nofun) (fun _ _ => scalar _ nofun) (fun _ _ => scalar _ nofun)
    (fun _ => scalar _ nofun) (fun _ _ => scalar _ nofun) tuple ?_ ?_ a
  · simp
  · intro a as ha has
    simpa using ⟨ha, has⟩

variable {ρ σ : Renaming} {k hi : ℕ}

theorem renameAll_eq (ρ : Renaming) (as : List Atom) : renameAll ρ as = as.map (rename ρ) := by
  induction as with
  | nil => rfl
  | cons a as ih => rw [renameAll, ih, List.map_cons]

theorem shiftAll_eq (k : Nat) (as : List Atom) : shiftAll k as = as.map (shift k) := by
  induction as with
  | nil => rfl
  | cons a as ih => rw [shiftAll, ih, List.map_cons]

theorem allPlain_eq (as : List Atom) : allPlain as = as.all isPlain := by
  induction as with
  | nil => rfl
  | cons a as ih => rw [allPlain, ih, List.all_cons]

theorem allPlain_iff {as : List Atom} : allPlain as = true ↔ ∀ a ∈ as, a.isPlain = true := by
  rw [allPlain_eq, List.all_eq_true]

theorem allPlain_renameAll {as : List Atom} (h : ∀ a ∈ as, (a.rename ρ).isPlain = a.isPlain) :
    allPlain (renameAll ρ as) = allPlain as := by
  rw [Bool.eq_iff_iff, allPlain_iff, allPlain_iff, renameAll_eq, List.forall_mem_map]
  exact forall₂_congr fun a ha => by rw [h a ha]

/-- Renaming keeps what is plain so. -/
@[simp] theorem isPlain_rename (ρ : Renaming) (a : Atom) : (a.rename ρ).isPlain = a.isPlain := by
  induction a using Atom.induction with
  | scalar a h => cases a <;> first | rfl | exact absurd rfl (h _ _)
  | tuple id items ih => rw [rename, isPlain, isPlain, allPlain_renameAll ih]

theorem rename_rename (ρ σ : Renaming) (a : Atom) : (a.rename ρ).rename σ = a.rename (ρ.trans σ) := by
  induction a using Atom.induction with
  | scalar a h => cases a <;> first | rfl | exact absurd rfl (h _ _)
  | tuple id items ih =>
    rw [rename, rename, rename, allPlain_renameAll fun a _ => isPlain_rename ρ a,
      Renaming.ofTuple_trans, renameAll_eq, renameAll_eq, renameAll_eq, List.map_map]
    exact congrArg _ (List.map_congr_left ih)

/-- A copy of what is plain is the same object. -/
theorem shift_eq_self {a : Atom} (h : a.isPlain = true) : a.shift k = a := by
  cases a <;> simp_all [isPlain, shift]

theorem shift_eq_rename (k : Supply) (a : Atom) : a.shift k = a.rename (.moved k) := by
  induction a using Atom.induction with
  | scalar a h => cases a <;> first | rfl | exact absurd rfl (h _ _)
  | tuple id items ih =>
    rw [shift, rename, renameAll_eq, ← List.map_congr_left ih, shiftAll_eq]
    -- a plain tuple is kept by the copy, and its members are kept with it
    split
    · rename_i hplain
      have hself : ∀ a ∈ items, a.shift k = a := fun a ha => shift_eq_self (allPlain_iff.1 hplain a ha)
      rw [(List.map_congr_left hself).trans (List.map_id items), hplain]
      rfl
    · rename_i hplain
      rw [eq_false_of_ne_true hplain]
      rfl

/-- Only the identities that can occur in an atom matter. -/
theorem rename_congr {a : Atom} (hagree : ρ.AgreeBelow hi σ) (ha : a.bound ≤ hi) :
    a.rename ρ = a.rename σ := by
  induction a using Atom.induction with
  | scalar a h =>
    cases a with
    | nan id => exact congrArg Atom.nan (hagree.nan id ha)
    | date id d => exact congrArg (Atom.date · d) (hagree.object id ha)
    | dateTime id t => exact congrArg (Atom.dateTime · t) (hagree.object id ha)
    | foreign id => exact congrArg Atom.foreign (hagree.object id ha)
    | enclosing id isList => exact congrArg (Atom.enclosing · isList) (hagree.object id ha)
    | tuple id items => exact absurd rfl (h id items)
    | _ => rfl
  | tuple id items ih =>
    obtain ⟨hid, hitems⟩ := max_le_iff.1 ha
    rw [rename, rename, renameAll_eq, renameAll_eq, hagree.ofTuple _ hid,
      List.map_congr_left fun a hmem => ih a hmem (Value.boundAll_le_iff.1 hitems a hmem)]

end Atom

/-! ### Values -/

namespace Value

mutual

/-- The value with its identities renamed. -/
def rename (ρ : Renaming) : Value → Value
  | .atom a => .atom (a.rename ρ)
  | .list id items => .list (ρ.object id) (renameItems ρ items)
  | .tuple id items => .tuple (ρ.ofTuple (allPlain items) id) (renameItems ρ items)
  | .map id es => .map (ρ.object id) (renameEntries ρ es)
  | .set id ms => .set (ρ.object id) (Atom.renameAll ρ ms)

/-- The items with their identities renamed. -/
def renameItems (ρ : Renaming) : List Value → List Value
  | [] => []
  | v :: vs => rename ρ v :: renameItems ρ vs

/-- The entries with their identities renamed. -/
def renameEntries (ρ : Renaming) : List (Atom × Value) → List (Atom × Value)
  | [] => []
  | (k, v) :: es => (k.rename ρ, rename ρ v) :: renameEntries ρ es

end

variable {ρ σ : Renaming} {k hi : ℕ} {v : Value}

theorem renameItems_eq (ρ : Renaming) (vs : List Value) : renameItems ρ vs = vs.map (rename ρ) := by
  induction vs with
  | nil => rfl
  | cons v vs ih => rw [renameItems, ih, List.map_cons]

theorem renameEntries_eq (ρ : Renaming) (es : MapEntries) :
    renameEntries ρ es = es.map fun p => (p.1.rename ρ, p.2.rename ρ) := by
  induction es with
  | nil => rfl
  | cons p es ih => rw [renameEntries, ih, List.map_cons]

theorem allPlain_renameItems {vs : List Value} (h : ∀ v ∈ vs, (v.rename ρ).isPlain = v.isPlain) :
    allPlain (renameItems ρ vs) = allPlain vs := by
  rw [Bool.eq_iff_iff, allPlain_iff, allPlain_iff, renameItems_eq, List.forall_mem_map]
  exact forall₂_congr fun v hv => by rw [h v hv]

/-- Renaming keeps what is plain so. -/
@[simp] theorem isPlain_rename (ρ : Renaming) (v : Value) : (v.rename ρ).isPlain = v.isPlain := by
  induction v using Value.induction with
  | atom a => exact Atom.isPlain_rename ρ a
  | tuple id items ih => rw [rename, isPlain, isPlain, allPlain_renameItems ih]
  | list id items | map id es | set id ms => rfl

theorem rename_rename (ρ σ : Renaming) (v : Value) :
    (v.rename ρ).rename σ = v.rename (ρ.trans σ) := by
  induction v using Value.induction with
  | atom a => exact congrArg Value.atom (Atom.rename_rename ρ σ a)
  | list id items ih =>
    rw [rename, rename, rename, renameItems_eq, renameItems_eq, renameItems_eq, List.map_map]
    exact congrArg _ (List.map_congr_left ih)
  | tuple id items ih =>
    rw [rename, rename, rename, allPlain_renameItems fun v _ => isPlain_rename ρ v,
      Renaming.ofTuple_trans, renameItems_eq, renameItems_eq, renameItems_eq, List.map_map]
    exact congrArg _ (List.map_congr_left ih)
  | map id es ih =>
    rw [rename, rename, rename, renameEntries_eq, renameEntries_eq, renameEntries_eq, List.map_map]
    exact congrArg _ (List.map_congr_left fun p hp =>
      Prod.ext (Atom.rename_rename ρ σ p.1) (ih p hp))
  | set id ms =>
    rw [rename, rename, rename, Atom.renameAll_eq, Atom.renameAll_eq, Atom.renameAll_eq, List.map_map]
    exact congrArg _ (List.map_congr_left fun a _ => Atom.rename_rename ρ σ a)

/-- A copy of what is plain is the same object. -/
theorem shift_eq_self (h : v.isPlain = true) : v.shift k = v := by
  cases v with
  | atom a => exact congrArg Value.atom (Atom.shift_eq_self h)
  | tuple id items =>
    rw [isPlain] at h
    rw [shift, if_pos h]
  | list id items | map id es | set id ms => simp [isPlain] at h

/-- **A copy is a renaming.** -/
theorem shift_eq_rename (k : Supply) (v : Value) : v.shift k = v.rename (.moved k) := by
  induction v using Value.induction with
  | atom a => exact congrArg Value.atom (Atom.shift_eq_rename k a)
  | list id items ih =>
    rw [shift, rename, shiftItems_eq, renameItems_eq, List.map_congr_left ih]
    rfl
  | tuple id items ih =>
    rw [shift, rename, renameItems_eq, ← List.map_congr_left ih, shiftItems_eq]
    split
    · rename_i hplain
      have hself : ∀ v ∈ items, v.shift k = v := fun v hv => shift_eq_self (allPlain_iff.1 hplain v hv)
      rw [(List.map_congr_left hself).trans (List.map_id items), hplain]
      rfl
    · rename_i hplain
      rw [eq_false_of_ne_true hplain]
      rfl
  | map id es ih =>
    rw [shift, rename, shiftEntries_eq, renameEntries_eq]
    exact congrArg _ (List.map_congr_left fun p hp => Prod.ext (Atom.shift_eq_rename k p.1) (ih p hp))
  | set id ms =>
    rw [shift, rename, Atom.shiftAll_eq, Atom.renameAll_eq]
    exact congrArg _ (List.map_congr_left fun a _ => Atom.shift_eq_rename k a)

/-- Only the identities that can occur in a value matter. -/
theorem rename_congr (hagree : ρ.AgreeBelow hi σ) (hv : v.bound ≤ hi) : v.rename ρ = v.rename σ := by
  induction v using Value.induction with
  | atom a => exact congrArg Value.atom (Atom.rename_congr hagree hv)
  | list id items ih =>
    obtain ⟨hid, hitems⟩ := bound_list_le_iff.1 hv
    rw [rename, rename, renameItems_eq, renameItems_eq, hagree.object id hid,
      List.map_congr_left fun v hmem => ih v hmem (hitems v hmem)]
  | tuple id items ih =>
    obtain ⟨hid, hitems⟩ := bound_tuple_le_iff.1 hv
    rw [rename, rename, renameItems_eq, renameItems_eq, hagree.ofTuple _ hid,
      List.map_congr_left fun v hmem => ih v hmem (hitems v hmem)]
  | map id es ih =>
    obtain ⟨hid, hes⟩ := bound_map_le_iff.1 hv
    rw [rename, rename, renameEntries_eq, renameEntries_eq, hagree.object id hid]
    refine congrArg _ (List.map_congr_left fun p hp => Prod.ext ?_ (ih p hp (hes p hp).2))
    exact Atom.rename_congr hagree (hes p hp).1
  | set id ms =>
    obtain ⟨hid, hms⟩ := bound_set_le_iff.1 hv
    rw [rename, rename, Atom.renameAll_eq, Atom.renameAll_eq, hagree.object id hid,
      List.map_congr_left fun a hmem => Atom.rename_congr hagree (hms a hmem)]

end Value

end ScopedFn
