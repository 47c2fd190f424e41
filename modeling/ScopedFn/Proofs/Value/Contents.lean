import ScopedFn.Proofs.Resource.Reading
import ScopedFn.Proofs.Resource.Renaming

/-!
# The contents of a value

What a value says apart from which objects say it: kinds, order of items, order and spelling of
keys, all scalars. Values of the same contents differ in the identities of their objects only. The
one not-a-number of documents is told from others, as it is by the comparison of keys.

* `Value.contents` : the value with no identities;
* `Value.contents_rename` : renaming objects keeps the contents;
* `Resource.getMeta_contents` : the metadata of a resource is a matter of contents.
-/

set_option autoImplicit false

namespace ScopedFn

/-! ### Atoms -/

namespace Atom

mutual

/-- The atom with no identities. -/
def contents : Atom → Atom
  | .date _ d => .date noObject d
  | .dateTime _ t => .dateTime noObject t
  | .foreign _ => .foreign noObject
  | .enclosing _ isList => .enclosing noObject isList
  | .tuple _ items => .tuple noObject (contentsAll items)
  | a => a

/-- The atoms with no identities. -/
def contentsAll : List Atom → List Atom
  | [] => []
  | a :: as => contents a :: contentsAll as

end

variable {ρ : Renaming}

theorem contentsAll_eq (as : List Atom) : contentsAll as = as.map contents := by
  induction as with
  | nil => rfl
  | cons a as ih => rw [contentsAll, ih, List.map_cons]

theorem contents_rename (hnan : ∀ id, ρ.nan id = id) (a : Atom) : (a.rename ρ).contents = a.contents := by
  induction a using Atom.induction with
  | scalar a h =>
    cases a with
    | nan id => exact congrArg Atom.nan (hnan id)
    | tuple id items => exact absurd rfl (h id items)
    | _ => rfl
  | tuple id items ih =>
    rw [rename, contents, contents, contentsAll_eq, contentsAll_eq, renameAll_eq, List.map_map]
    exact congrArg _ (List.map_congr_left ih)

theorem quotedAll_eq (as : List Atom) : quotedAll as = as.map quoted := by
  induction as with
  | nil => rfl
  | cons a as ih => rw [quotedAll, ih, List.map_cons]

@[simp] theorem quoted_contents (a : Atom) : a.contents.quoted = a.quoted := by
  induction a using Atom.induction with
  | scalar a h => cases a <;> first | rfl | exact absurd rfl (h _ _)
  | tuple id items ih =>
    rw [contents, quoted, quoted, contentsAll_eq, quotedAll_eq, quotedAll_eq, List.map_map]
    exact congrArg _ (List.map_congr_left ih)

@[simp] theorem display_contents (a : Atom) : a.contents.display = a.display := by
  cases a with
  | tuple id items => exact quoted_contents (.tuple id items)
  | _ => rfl

@[simp] theorem isFilled_contents (a : Atom) : a.contents.isFilled = a.isFilled := by
  cases a with
  | tuple id items => cases items <;> rfl
  | _ => rfl

theorem textFaultIn?_contentsAll {as : List Atom}
    (h : ∀ a ∈ as, a.contents.textFault? = a.textFault?) :
    textFaultIn? (contentsAll as) = textFaultIn? as := by
  induction as with
  | nil => rfl
  | cons a as ih =>
    obtain ⟨ha, has⟩ := List.forall_mem_cons.1 h
    rw [contentsAll, textFaultIn?, textFaultIn?, ha, ih has]

@[simp] theorem textFault?_contents (a : Atom) : a.contents.textFault? = a.textFault? := by
  induction a using Atom.induction with
  | scalar a h => cases a <;> first | rfl | exact absurd rfl (h _ _)
  | tuple id items ih => exact textFaultIn?_contentsAll ih

theorem shownInside_contents (a : Atom) : a.contents.shownInside = a.shownInside := by
  rw [shownInside, orTextFault, textFault?_contents, quoted_contents, shownInside, orTextFault]

theorem contents_eq_text {a : Atom} {s : String} : a.contents = .text s ↔ a = .text s := by
  cases a <;> simp [contents]

theorem contents_eq_null {a : Atom} : a.contents = .null ↔ a = .null := by
  cases a <;> simp [contents]

end Atom

/-! ### Values -/

namespace Value

mutual

/-- The value with no identities. -/
def contents : Value → Value
  | .atom a => .atom a.contents
  | .list _ items => .list noObject (contentsOfItems items)
  | .tuple _ items => .tuple noObject (contentsOfItems items)
  | .map _ es => .map noObject (contentsOfEntries es)
  | .set _ ms => .set noObject (Atom.contentsAll ms)

/-- The items with no identities. -/
def contentsOfItems : List Value → List Value
  | [] => []
  | v :: vs => contents v :: contentsOfItems vs

/-- The entries with no identities. -/
def contentsOfEntries : List (Atom × Value) → List (Atom × Value)
  | [] => []
  | (k, v) :: es => (k.contents, contents v) :: contentsOfEntries es

end

variable {ρ : Renaming} {v : Value}

theorem contentsOfItems_eq (vs : List Value) : contentsOfItems vs = vs.map contents := by
  induction vs with
  | nil => rfl
  | cons v vs ih => rw [contentsOfItems, ih, List.map_cons]

theorem contentsOfEntries_eq (es : MapEntries) :
    contentsOfEntries es = es.map fun p => (p.1.contents, p.2.contents) := by
  induction es with
  | nil => rfl
  | cons p es ih => rw [contentsOfEntries, ih, List.map_cons]

/-- **Renaming objects keeps the contents.** -/
theorem contents_rename (hnan : ∀ id, ρ.nan id = id) (v : Value) :
    (v.rename ρ).contents = v.contents := by
  induction v using Value.induction with
  | atom a => exact congrArg Value.atom (Atom.contents_rename hnan a)
  | list id items ih =>
    rw [rename, contents, contents, contentsOfItems_eq, contentsOfItems_eq, renameItems_eq,
      List.map_map]
    exact congrArg _ (List.map_congr_left ih)
  | tuple id items ih =>
    rw [rename, contents, contents, contentsOfItems_eq, contentsOfItems_eq, renameItems_eq,
      List.map_map]
    exact congrArg _ (List.map_congr_left ih)
  | map id es ih =>
    rw [rename, contents, contents, contentsOfEntries_eq, contentsOfEntries_eq, renameEntries_eq,
      List.map_map]
    exact congrArg _ (List.map_congr_left fun p hp =>
      Prod.ext (Atom.contents_rename hnan p.1) (ih p hp))
  | set id ms =>
    rw [rename, contents, contents, Atom.contentsAll_eq, Atom.contentsAll_eq, Atom.renameAll_eq,
      List.map_map]
    exact congrArg _ (List.map_congr_left fun a _ => Atom.contents_rename hnan a)

theorem contents_eq_text {s : String} : v.contents = .text s ↔ v = .text s := by
  cases v <;> simp [contents, Atom.contents_eq_text]

theorem contents_eq_null : v.contents = .null ↔ v = .null := by
  cases v <;> simp [contents, Atom.contents_eq_null]

/-! ### Display -/

@[simp] theorem isFilled_contents (v : Value) : v.contents.isFilled = v.isFilled := by
  cases v with
  | atom a => exact Atom.isFilled_contents a
  | list id items => cases items <;> rfl
  | tuple id items => cases items <;> rfl
  | map id es => cases es <;> rfl
  | set id ms => cases ms <;> rfl

theorem quotedItems_eq (vs : List Value) : quotedItems vs = vs.map quoted := by
  induction vs with
  | nil => rfl
  | cons v vs ih => rw [quotedItems, ih, List.map_cons]

theorem quotedEntries_eq (es : MapEntries) :
    quotedEntries es = es.map fun p => p.1.quoted ++ ": " ++ p.2.quoted := by
  induction es with
  | nil => rfl
  | cons p es ih => rw [quotedEntries, ih, List.map_cons]

@[simp] theorem quoted_contents (v : Value) : v.contents.quoted = v.quoted := by
  induction v using Value.induction with
  | atom a => exact Atom.quoted_contents a
  | list id items ih =>
    have hitems : quotedItems (contentsOfItems items) = quotedItems items := by
      rw [quotedItems_eq, quotedItems_eq, contentsOfItems_eq, List.map_map]
      exact List.map_congr_left ih
    rw [contents, quoted, quoted, hitems]
  | tuple id items ih =>
    have hitems : quotedItems (contentsOfItems items) = quotedItems items := by
      rw [quotedItems_eq, quotedItems_eq, contentsOfItems_eq, List.map_map]
      exact List.map_congr_left ih
    rw [contents, quoted, quoted, hitems]
  | map id es ih =>
    have hes : quotedEntries (contentsOfEntries es) = quotedEntries es := by
      rw [quotedEntries_eq, quotedEntries_eq, contentsOfEntries_eq, List.map_map]
      refine List.map_congr_left fun p hp => ?_
      rw [Function.comp_apply, Atom.quoted_contents, ih p hp]
    rw [contents, quoted, quoted, hes]
  | set id ms =>
    have hms : Atom.quotedAll (Atom.contentsAll ms) = Atom.quotedAll ms := by
      rw [Atom.quotedAll_eq, Atom.quotedAll_eq, Atom.contentsAll_eq, List.map_map]
      exact List.map_congr_left fun a _ => Atom.quoted_contents a
    have hempty : (Atom.contentsAll ms).isEmpty = ms.isEmpty := by cases ms <;> rfl
    rw [contents, quoted, quoted, hms, hempty]

@[simp] theorem display_contents (v : Value) : v.contents.display = v.display := by
  cases v with
  | atom a => exact Atom.display_contents a
  | list id items => exact quoted_contents (.list id items)
  | tuple id items => exact quoted_contents (.tuple id items)
  | map id es => exact quoted_contents (.map id es)
  | set id ms => exact quoted_contents (.set id ms)

theorem textFaultIn?_contentsOfItems {vs : List Value}
    (h : ∀ v ∈ vs, v.contents.textFault? = v.textFault?) :
    textFaultIn? (contentsOfItems vs) = textFaultIn? vs := by
  induction vs with
  | nil => rfl
  | cons v vs ih =>
    obtain ⟨hv, hvs⟩ := List.forall_mem_cons.1 h
    rw [contentsOfItems, textFaultIn?, textFaultIn?, hv, ih hvs]

theorem textFaultInEntries?_contentsOfEntries {es : MapEntries}
    (h : ∀ p ∈ es, p.2.contents.textFault? = p.2.textFault?) :
    textFaultInEntries? (contentsOfEntries es) = textFaultInEntries? es := by
  induction es with
  | nil => rfl
  | cons p es ih =>
    obtain ⟨hp, hes⟩ := List.forall_mem_cons.1 h
    rw [contentsOfEntries, textFaultInEntries?, textFaultInEntries?, Atom.textFault?_contents, hp,
      ih hes]

@[simp] theorem textFault?_contents (v : Value) : v.contents.textFault? = v.textFault? := by
  induction v using Value.induction with
  | atom a => exact Atom.textFault?_contents a
  | list id items ih => exact textFaultIn?_contentsOfItems ih
  | tuple id items ih => exact textFaultIn?_contentsOfItems ih
  | map id es ih => exact textFaultInEntries?_contentsOfEntries ih
  | set id ms => exact Atom.textFaultIn?_contentsAll fun a _ => Atom.textFault?_contents a

theorem shown_contents (v : Value) : v.contents.shown = v.shown := by
  rw [shown, orTextFault, textFault?_contents, display_contents, shown, orTextFault]

theorem shownFilled_contents (v : Value) : v.contents.shownFilled = v.shownFilled := by
  rw [shownFilled, isFilled_contents, shown_contents, shownFilled]

@[simp] theorem isNull_contents (v : Value) : v.contents.isNull = v.isNull := by
  cases v with
  | atom a => cases a <;> rfl
  | list id items | tuple id items | map id es | set id ms => rfl

end Value

/-! ### Maps and resources -/

namespace MapEntries

theorem same_text_contents (a : Atom) (key : String) :
    a.contents.same (.text key) = a.same (.text key) := by
  rw [Bool.eq_iff_iff, Atom.same_text, Atom.same_text, Atom.contents_eq_text]

/-- The value of a key is a matter of contents. -/
theorem get_contents (es : MapEntries) (key : String) :
    get (Value.contentsOfEntries es) key = (get es key).contents := by
  unfold get get?
  induction es with
  | nil => rfl
  | cons p es ih =>
    obtain ⟨k, v⟩ := p
    rw [Value.contentsOfEntries, Entries.find?, Entries.find?, same_text_contents]
    split
    · rfl
    · exact ih

end MapEntries

namespace textMap

variable {part : String} {k : Atom} {v : Value}

theorem entry_contents : entry part k.contents v.contents = entry part k v := by
  obtain ⟨s, rfl⟩ | h : (∃ s, k = .text s) ∨ ∀ s, k ≠ .text s := by cases k <;> simp
  · simp only [Atom.contents, entry, Value.isNull_contents, Value.shown_contents]
  · rw [entry_of_ne_text h, entry_of_ne_text fun s => mt Atom.contents_eq_text.1 (h s),
      Atom.shownInside_contents]

end textMap

theorem textMap_contents (part : String) (v : Value) : textMap part v.contents = textMap part v := by
  cases v with
  | atom a => cases a <;> rfl
  | list id items | tuple id items | set id ms => rfl
  | map id es =>
    rw [Value.contents, textMap, textMap, Value.contentsOfEntries_eq, List.mapM_map]
    exact congrArg es.mapM (funext fun _ => textMap.entry_contents)

namespace Resource

/-- The resource with no identities. -/
def contents (r : Resource) : Resource := ⟨noObject, Value.contentsOfEntries r.entries⟩

variable {r r' : Resource}

theorem toValue_contents (r : Resource) : r.contents.toValue = r.toValue.contents := rfl

theorem contents_eq_iff : r.contents = r'.contents ↔ r.toValue.contents = r'.toValue.contents := by
  rw [← toValue_contents, ← toValue_contents, toValue_injective.eq_iff]

theorem metadata_contents (r : Resource) :
    r.contents.metadata = r.metadata.map Value.contentsOfEntries := by
  unfold metadata contents
  rw [MapEntries.get_contents]
  cases r.entries.get "metadata" with
  | atom a => cases a <;> rfl
  | list id items | tuple id items | map id es | set id ms => rfl

/-- **The metadata of a resource is a matter of contents.** -/
theorem getMeta_contents (r : Resource) : r.contents.getMeta = r.getMeta := by
  have hversion : r.contents.apiVersion = r.apiVersion := by
    rw [apiVersion, contents, MapEntries.get_contents, Value.shownFilled_contents, apiVersion]
  have hkind : r.contents.kind = r.kind := by
    rw [kind, contents, MapEntries.get_contents, Value.shownFilled_contents, kind]
  unfold getMeta
  rw [metadata_contents, hversion, hkind]
  cases r.metadata with
  | error fault => rfl
  | ok metadata =>
    simp only [Except.map, Except.mapError, bind, Except.bind, MapEntries.get_contents,
      textMap_contents, Value.shownFilled_contents]

end Resource

end ScopedFn
