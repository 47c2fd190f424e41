import ScopedFn.Proofs.Value.Contents
import ScopedFn.Proofs.Value.Key

/-!
# What documents can hold

The values that the text of a document can denote: their atoms are no foreign objects, a not-a-number
never stands in the place of a number, and the keys of each map differ. Values that contain themselves
are left out. For the others the identities of objects play no part in which keys are one.

* `Value.IsDocument` : the values that documents can hold;
* `Value.IsDocument.keyed` : the keys of their maps differ;
* `Atom.same_contents` : being one key is a matter of contents.
-/

set_option autoImplicit false

namespace ScopedFn

namespace Atom

mutual

/-- A document can hold the atom. -/
def isProper : Atom → Bool
  | .foreign _ | .enclosing _ _ => false
  | .float x => !x.isNaN
  | .tuple _ items => areProper items
  | _ => true

/-- A document can hold the atoms. -/
def areProper : List Atom → Bool
  | [] => true
  | a :: as => isProper a && areProper as

end

variable {a b : Atom}

theorem areProper_iff {as : List Atom} : areProper as = true ↔ ∀ a ∈ as, a.isProper = true := by
  induction as with
  | nil => simp [areProper]
  | cons a as ih => simp [areProper, ih]

theorem sameInstant_self (t : DateTime) : t.sameInstant t = true := by
  unfold DateTime.sameInstant
  cases t.offset <;> simp

theorem sameAll_self {as : List Atom} (h : ∀ a ∈ as, a.same a = true) : sameAll as as = true := by
  induction as with
  | nil => rfl
  | cons a as ih =>
    obtain ⟨ha, has⟩ := List.forall_mem_cons.1 h
    rw [sameAll, ha, ih has, Bool.and_self]

/-- What a document can hold is the same key as itself. -/
theorem same_self (h : a.isProper = true) : a.same a = true := by
  induction a using Atom.induction with
  | scalar a ha => cases a <;> simp_all [same, isProper, integer?, Binary64.eq, sameInstant_self]
  | tuple id items ih =>
    rw [isProper, areProper_iff] at h
    exact sameAll_self fun a ha => ih a ha (h a ha)

theorem sameAll_contents {as : List Atom}
    (h : ∀ a ∈ as, ∀ b, a.contents.same b.contents = a.same b) (bs : List Atom) :
    sameAll (contentsAll as) (contentsAll bs) = sameAll as bs := by
  induction as generalizing bs with
  | nil => cases bs <;> rfl
  | cons a as ih =>
    obtain ⟨ha, has⟩ := List.forall_mem_cons.1 h
    cases bs with
    | nil => rfl
    | cons b bs => rw [contentsAll, contentsAll, sameAll, sameAll, ha, ih has]

/-- **Being one key is a matter of contents**, but for foreign objects. -/
theorem same_contents (h : a.isProper = true) (b : Atom) : a.contents.same b.contents = a.same b := by
  induction a using Atom.induction generalizing b with
  | scalar a ha => cases a <;> cases b <;> simp_all [same, contents, isProper, integer?]
  | tuple id items ih =>
    rw [isProper, areProper_iff] at h
    cases b with
    | tuple j bs => exact sameAll_contents (fun a ha => ih a ha (h a ha)) bs
    | _ => simp [same, contents, integer?]

end Atom

namespace Value

/-- The values that a document can hold and that do not contain themselves. -/
inductive IsDocument : Value → Prop where
  /-- A scalar. -/
  | atom {a : Atom} (h : a.isProper = true) : IsDocument (.atom a)
  /-- A list of such values. -/
  | list {id : ObjectId} {items : List Value} (h : ∀ v ∈ items, IsDocument v) :
    IsDocument (.list id items)
  /-- A tuple of such values. -/
  | tuple {id : ObjectId} {items : List Value} (h : ∀ v ∈ items, IsDocument v) :
    IsDocument (.tuple id items)
  /-- A map of such values; its keys differ. -/
  | map {id : ObjectId} {es : MapEntries} (keys : ∀ e ∈ es, e.1.isProper = true)
    (distinct : es.Pairwise fun e f => e.1.same f.1 = false) (h : ∀ e ∈ es, IsDocument e.2) :
    IsDocument (.map id es)
  /-- A set of scalars that differ. -/
  | set {id : ObjectId} {ms : List Atom} (members : ∀ m ∈ ms, m.isProper = true)
    (distinct : ms.Pairwise fun m n => m.same n = false) : IsDocument (.set id ms)

variable {id : ObjectId} {es : MapEntries}

theorem isDocument_map : IsDocument (.map id es) ↔
    (∀ e ∈ es, e.1.isProper = true) ∧ (es.Pairwise fun e f => e.1.same f.1 = false) ∧
      ∀ e ∈ es, IsDocument e.2 :=
  ⟨fun | .map keys distinct h => ⟨keys, distinct, h⟩, fun ⟨keys, distinct, h⟩ => .map keys distinct h⟩

theorem IsDocument.keyed (h : IsDocument (.map id es)) : es.Keyed := by
  obtain ⟨keys, distinct, -⟩ := isDocument_map.1 h
  exact ⟨fun e he => Atom.same_self (keys e he), distinct⟩

theorem IsDocument.of_mem {k : Atom} {v : Value} (h : IsDocument (.map id es)) (hmem : (k, v) ∈ es) :
    IsDocument v := (isDocument_map.1 h).2.2 (k, v) hmem

/-- The entries at the beginning of a map make a map. -/
theorem IsDocument.of_append {before after : MapEntries} (h : IsDocument (.map id (before ++ after)))
    (id' : ObjectId) : IsDocument (.map id' before) := by
  obtain ⟨keys, distinct, hes⟩ := isDocument_map.1 h
  exact .map (fun e he => keys e (List.mem_append_left _ he)) (List.pairwise_append.1 distinct).1
    fun e he => hes e (List.mem_append_left _ he)

/-! ### Copies and contents -/

theorem contents_shift (k : Supply) (v : Value) : (v.shift k).contents = v.contents := by
  rw [shift_eq_rename]
  exact contents_rename (fun _ => rfl) v

theorem contentsOfEntries_shiftEntries (k : Supply) (es : MapEntries) :
    contentsOfEntries (shiftEntries k es) = contentsOfEntries es := by
  have h := contents_shift k (.map noObject es)
  rw [shift, contents, contents] at h
  exact (Value.map.inj h).2

@[simp] theorem typeName_contents (v : Value) : v.contents.typeName = v.typeName := by
  cases v with
  | atom a => cases a <;> rfl
  | _ => rfl

theorem typeName_eq_of_contents {v w : Value} (h : v.contents = w.contents) :
    v.typeName = w.typeName := by
  rw [← typeName_contents, h, typeName_contents]

end Value

namespace MapEntries

open Entries (find? put)

variable {k : Atom} {es : MapEntries}

/-- What is found under a key is a matter of contents. -/
theorem find?_contents (hk : k.isProper = true) :
    find? Atom.same k.contents (Value.contentsOfEntries es) = (find? Atom.same k es).map Value.contents := by
  induction es with
  | nil => rfl
  | cons e es ih =>
    obtain ⟨key, v⟩ := e
    rw [Value.contentsOfEntries, find?, find?, Atom.same_comm, Atom.same_contents hk, Atom.same_comm, ih]
    split <;> rfl

/-- Setting a key is a matter of contents. -/
theorem contents_put (hk : k.isProper = true) (v : Value) (es : MapEntries) :
    Value.contentsOfEntries (put Atom.same k v es) =
      put Atom.same k.contents v.contents (Value.contentsOfEntries es) := by
  induction es with
  | nil => rfl
  | cons e es ih =>
    obtain ⟨key, w⟩ := e
    rw [Value.contentsOfEntries, put, put, Atom.same_comm key.contents, Atom.same_contents hk,
      Atom.same_comm k, ← ih]
    split <;> rfl

end MapEntries

end ScopedFn
