import ScopedFn.Proofs.Json.Written
import ScopedFn.Proofs.Value.Display
import ScopedFn.Proofs.Value.Key

/-!
# What JSON can express

Not every value of a document has a canonical text. Dates, byte strings, sets and tuples that are
keys have none, nor integers with too many digits, nor maps whose keys cannot be ordered.

* `Json.IsExpressible` : the values that have one, said part by part;
* `Json.exists_canonical_iff` : they are the values that the canonical text is given for;
* `Json.textFault?_of_isExpressible` : they are given as text by themselves, too.
-/

set_option autoImplicit false

namespace ScopedFn.Json

/-- The atoms that have a text: all but torn texts, bytes, dates, foreign objects, tuples, long
integers and what stands for a list or map around them. -/
def IsWord : Atom → Prop
  | .null | .bool _ | .float _ | .nan _ | .text _ => True
  | .int n => n.natAbs < 10 ^ Numeric.decimalDigitLimit
  | .torn _ | .bytes _ | .date _ _ | .dateTime _ _ | .foreign _ | .enclosing _ _
  | .tuple _ _ => False

/-- The keys can be ordered: there are not two of them, or all are texts, or all are numbers. -/
def AreComparable (keys : List Atom) : Prop :=
  keys.length ≤ 1 ∨ (∀ k ∈ keys, isText k = true) ∨ ∀ k ∈ keys, isNumber k = true

/-- The values that JSON can express. -/
inductive IsExpressible : Value → Prop where
  /-- An atom that has a text. -/
  | atom {a : Atom} (ha : IsWord a) : IsExpressible (.atom a)
  /-- A list of such values. -/
  | list {id : ObjectId} {items : List Value} (h : ∀ v ∈ items, IsExpressible v) :
    IsExpressible (.list id items)
  /-- A tuple of such values. -/
  | tuple {id : ObjectId} {items : List Value} (h : ∀ v ∈ items, IsExpressible v) :
    IsExpressible (.tuple id items)
  /-- A map of such values, with keys that have texts and can be ordered. -/
  | map {id : ObjectId} {es : MapEntries} (order : AreComparable (es.map (·.1)))
    (keys : ∀ e ∈ es, IsWord e.1) (h : ∀ e ∈ es, IsExpressible e.2) : IsExpressible (.map id es)

theorem isExpressible_atom {a : Atom} : IsExpressible (.atom a) ↔ IsWord a :=
  ⟨fun | .atom ha => ha, .atom⟩

theorem isExpressible_list {id : ObjectId} {items : List Value} :
    IsExpressible (.list id items) ↔ ∀ v ∈ items, IsExpressible v :=
  ⟨fun | .list h => h, .list⟩

theorem isExpressible_tuple {id : ObjectId} {items : List Value} :
    IsExpressible (.tuple id items) ↔ ∀ v ∈ items, IsExpressible v :=
  ⟨fun | .tuple h => h, .tuple⟩

theorem isExpressible_map {id : ObjectId} {es : MapEntries} :
    IsExpressible (.map id es) ↔ AreComparable (es.map (·.1)) ∧ (∀ e ∈ es, IsWord e.1) ∧
      ∀ e ∈ es, IsExpressible e.2 :=
  ⟨fun | .map order keys h => ⟨order, keys, h⟩, fun ⟨order, keys, h⟩ => .map order keys h⟩

/-- The fields of what JSON can express can be expressed. -/
theorem isExpressible_field {v : Value} (h : IsExpressible v) (path : List String) :
    IsExpressible (v.field path) := by
  induction path generalizing v with
  | nil => exact h
  | cons key path ih =>
    cases h with
    | @map id es _ _ hvalues =>
      rw [Value.field, MapEntries.get, MapEntries.get?]
      cases hfind : Entries.find? Atom.same (.text key) es with
      | none => exact ih (.atom trivial)
      | some w =>
        obtain ⟨k, hmem, -⟩ := MapEntries.exists_mem_of_find? hfind
        exact ih (hvalues _ hmem)
    | _ => exact .atom trivial

theorem areOrdered_iff {keys : List Atom} : areOrdered keys = true ↔ AreComparable keys := by
  rw [areOrdered, AreComparable, Bool.or_eq_true, Bool.or_eq_true, decide_eq_true_iff,
    List.all_eq_true, List.all_eq_true, or_assoc]

theorem exists_plainAtom_iff {a : Atom} : (∃ cs, plainAtom a = .ok cs) ↔ IsWord a := by
  cases a with
  | int n =>
    simp only [plainAtom, integer_ok_iff, exists_and_left, exists_eq', and_true]
    rfl
  | _ => simp [plainAtom, IsWord]

theorem exists_atom_iff {a : Atom} : (∃ cs, atom a = .ok cs) ↔ IsWord a := by
  cases a with
  | text s => simp [atom, IsWord]
  | _ =>
    rw [← exists_plainAtom_iff]
    rfl

theorem exists_map_ok_iff {α β : Type} {x : Except Fault α} {f : α → β} :
    (∃ b, x.map f = .ok b) ↔ ∃ a, x = .ok a := by
  cases x <;> simp [Except.map]

theorem exists_lineOf_iff {e : Atom × Except Fault (List Char)} :
    (∃ cs, lineOf e = .ok cs) ↔ IsWord e.1 ∧ ∃ cs, e.2 = .ok cs := by
  rw [← exists_plainAtom_iff, lineOf]
  rcases plainAtom e.1 with fault | key <;> rcases e.2 with fault' | text <;>
    simp [bind, Except.bind, pure, Except.pure]

theorem exists_object_iff {es : List (Atom × Except Fault (List Char))} :
    (∃ cs, object es = .ok cs) ↔ ∀ e ∈ es, IsWord e.1 ∧ ∃ cs, e.2 = .ok cs := by
  have hsort : ∀ e, e ∈ sortByKey es ↔ e ∈ es := fun e => (List.mergeSort_perm _ _).mem_iff
  rw [object_eq, exists_map_ok_iff, Result.mapM_ok_iff]
  simp only [hsort]
  exact forall₂_congr fun e _ => exists_lineOf_iff

theorem exists_chars_list_iff {id : ObjectId} {items : List Value}
    (ih : ∀ v ∈ items, (∃ cs, chars v = .ok cs) ↔ IsExpressible v) :
    (∃ cs, chars (.list id items) = .ok cs) ↔ ∀ v ∈ items, IsExpressible v := by
  have hchars : chars (.list id items) = (charsOfItems items).map fun ts =>
      '[' :: commas ts ++ [']'] := by
    rw [chars]
    rcases charsOfItems items with fault | ts <;> rfl
  rw [hchars, exists_map_ok_iff, charsOfItems_eq, Result.mapM_ok_iff]
  exact forall₂_congr ih

theorem exists_chars_map_iff {id : ObjectId} {es : MapEntries}
    (ih : ∀ e ∈ es, (∃ cs, chars e.2 = .ok cs) ↔ IsExpressible e.2) :
    (∃ cs, chars (.map id es) = .ok cs) ↔ AreComparable (es.map (·.1)) ∧
      (∀ e ∈ es, IsWord e.1) ∧ ∀ e ∈ es, IsExpressible e.2 := by
  have hobject : (∃ cs, object (charsOfEntries es) = .ok cs) ↔
      (∀ e ∈ es, IsWord e.1) ∧ ∀ e ∈ es, IsExpressible e.2 := by
    rw [exists_object_iff, charsOfEntries_eq, List.forall_mem_map, ← forall₂_and]
    exact forall₂_congr fun e he => and_congr_right fun _ => ih e he
  rw [chars, ← areOrdered_iff, ← hobject]
  cases areOrdered (es.map (·.1)) with
  | false =>
    refine iff_of_false ?_ fun h => Bool.false_ne_true h.1
    rintro ⟨cs, h⟩
    cases h
  | true => exact ⟨fun h => ⟨rfl, h⟩, fun h => h.2⟩

/-- **A value has a canonical text iff JSON can express it.** -/
theorem exists_chars_iff {v : Value} : (∃ cs, chars v = .ok cs) ↔ IsExpressible v := by
  induction v using Value.induction with
  | atom a => rw [chars, exists_atom_iff, isExpressible_atom]
  | list id items ih => rw [exists_chars_list_iff ih, isExpressible_list]
  | tuple id items ih =>
    have hchars : chars (.tuple id items) = chars (.list id items) := by rw [chars, chars]
    rw [hchars, exists_chars_list_iff ih, isExpressible_tuple]
  | map id es ih => rw [exists_chars_map_iff ih, isExpressible_map]
  | set id ms =>
    refine iff_of_false ?_ ?_
    · rintro ⟨cs, h⟩
      cases h
    · rintro ⟨⟩

/-- **A value is put in bytes iff JSON can express it.** -/
theorem exists_canonical_iff {v : Value} : (∃ s, canonical v = .ok s) ↔ IsExpressible v := by
  rw [← exists_chars_iff, canonical]
  rcases chars v with fault | cs
  · refine iff_of_false ?_ (by simp)
    rintro ⟨s, h⟩
    cases fault with
    | unpaired =>
      obtain ⟨-, -, h⟩ := Result.ok_of_bind h
      cases h
    | _ => cases h
  · exact iff_of_true ⟨_, rfl⟩ ⟨_, rfl⟩

theorem textFault?_of_isWord {a : Atom} (h : IsWord a) : a.textFault? = none := by
  cases a with
  | int n =>
    have hfew : n.natAbs < 10 ^ Numeric.decimalDigitLimit := h
    rw [Atom.textFault?, Nat.pow_eq, if_pos hfew]
  | tuple id items => exact h.elim
  | _ => rfl

/-- What JSON can express is given as text. -/
theorem textFault?_of_isExpressible {v : Value} (h : IsExpressible v) : v.textFault? = none := by
  induction h with
  | atom ha => exact textFault?_of_isWord ha
  | list _ ih | tuple _ ih => exact Value.textFaultIn?_eq_none_iff.2 ih
  | map _ keys _ ih =>
    exact Value.textFaultInEntries?_eq_none_iff.2 fun e he =>
      ⟨textFault?_of_isWord (keys e he), ih e he⟩

end ScopedFn.Json
