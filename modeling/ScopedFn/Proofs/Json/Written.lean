import Mathlib.Data.String.Basic
import ScopedFn.Proofs.Json.Atom
import ScopedFn.Proofs.Result

/-!
# Canonical texts

What the canonical text of a value looks like, said without the steps that build it.

* `Json.IsTree` : the values that JSON can express, with texts as keys;
* `Json.Written` : the text of such a value, the entries of its maps in the order of their keys;
* `Json.exists_written` : the canonical text is that text, if no integer has too many digits;
* `Json.chars_of_long` : otherwise there is none.
-/

set_option autoImplicit false

namespace ScopedFn.Json

/-- A field of a map, as an entry. -/
def entry (f : String × Value) : Atom × Value := (.text f.1, f.2)

/-- The values that JSON can express, with distinct texts as keys. -/
inductive IsTree : Value → Prop where
  /-- A text. -/
  | text (s : String) : IsTree (.text s)
  /-- Any other atom. -/
  | plain {a : Atom} (ha : IsPlain a) : IsTree (.atom a)
  /-- A list. -/
  | list {id : ObjectId} {items : List Value} (h : ∀ v ∈ items, IsTree v) : IsTree (.list id items)
  /-- A map. -/
  | map {id : ObjectId} {fields : List (String × Value)} (distinct : (fields.map (·.1)).Nodup)
    (h : ∀ f ∈ fields, IsTree f.2) : IsTree (.map id (fields.map entry))

/-- The text of a field, given those of values. -/
def line (t : Value → List Char) (f : String × Value) : List Char :=
  quote f.1.toList ++ ':' :: t f.2

/-- The characters are the text of the value: the items of a list in their order, the entries of a
map in the order of their keys, with nothing but commas between them. -/
inductive Written : Value → List Char → Prop where
  /-- A text stands in quotation marks. -/
  | text (s : String) : Written (.text s) (quote s.toList)
  /-- Any other atom stands as it is. -/
  | plain {a : Atom} {cs : List Char} (ha : IsPlain a) (h : plainAtom a = .ok cs) :
    Written (.atom a) cs
  /-- A list stands in brackets. -/
  | list {id : ObjectId} {items : List Value} {t : Value → List Char}
    (h : ∀ v ∈ items, Written v (t v)) :
    Written (.list id items) ('[' :: commas (items.map t) ++ [']'])
  /-- A map stands in braces. -/
  | map {id : ObjectId} {es : MapEntries} {fields : List (String × Value)} {t : Value → List Char}
    (entries : es.Perm (fields.map entry)) (ordered : (fields.map (·.1)).Pairwise (· < ·))
    (h : ∀ f ∈ fields, Written f.2 (t f.2)) :
    Written (.map id es) ('\x7b' :: commas (fields.map (line t)) ++ ['\x7d'])

/-! ### The order of fields -/

/-- The key of the first field comes no later than that of the second. -/
def fieldLe (f g : String × Value) : Bool := !decide (g.1 < f.1)

theorem fieldLe_iff {f g : String × Value} : fieldLe f g = true ↔ f.1 ≤ g.1 := by
  rw [fieldLe, Bool.not_eq_true', decide_eq_false_iff_not, not_lt]

variable {fields : List (String × Value)}

theorem ordered_mergeSort (h : (fields.map (·.1)).Nodup) :
    ((fields.mergeSort fieldLe).map (·.1)).Pairwise (· < ·) := by
  have hle : (fields.mergeSort fieldLe).Pairwise fun f g => fieldLe f g = true := by
    refine List.pairwise_mergeSort (fun a b c => ?_) (fun a b => ?_) fields
    · rw [fieldLe_iff, fieldLe_iff, fieldLe_iff]
      exact le_trans
    · rw [Bool.or_eq_true, fieldLe_iff, fieldLe_iff]
      exact le_total _ _
  have hne : (fields.mergeSort fieldLe).Pairwise fun f g => f.1 ≠ g.1 :=
    List.pairwise_map.1 ((((List.mergeSort_perm fields fieldLe).map _).nodup_iff).2 h)
  exact List.pairwise_map.2 ((hle.and hne).imp fun h => lt_of_le_of_ne (fieldLe_iff.1 h.1) h.2)

/-- The line of an entry, given the text of its value. -/
def lineOf (e : Atom × Except Fault (List Char)) : Except Fault (List Char) := do
  return quote (← plainAtom e.1) ++ ':' :: (← e.2)

theorem object_eq (es : List (Atom × Except Fault (List Char))) :
    object es =
      ((sortByKey es).mapM lineOf).map fun parts => '\x7b' :: commas parts ++ ['\x7d'] := by
  have hlines : object es = (sortByKey es).mapM lineOf >>= fun parts =>
      pure ('\x7b' :: commas parts ++ ['\x7d']) := rfl
  rw [hlines]
  rcases (sortByKey es).mapM lineOf with fault | parts <;> rfl

/-- The text of a map whose keys are texts. -/
theorem object_fields (t : Value → List Char) (fields : List (String × Value)) :
    object (fields.map fun f => (.text f.1, .ok (t f.2))) =
      .ok ('\x7b' :: commas ((fields.mergeSort fieldLe).map (line t)) ++ ['\x7d']) := by
  let pair (f : String × Value) : Atom × Except Fault (List Char) := (.text f.1, .ok (t f.2))
  have hsort : sortByKey (fields.map pair) = (fields.mergeSort fieldLe).map pair :=
    (List.map_mergeSort (f := pair) fun _ _ _ _ => rfl).symm
  have hlines (fields : List (String × Value)) :
      (fields.map pair).mapM lineOf = .ok (fields.map (line t)) := by
    induction fields with
    | nil => rfl
    | cons f fields ih =>
      rw [List.map_cons, List.mapM_cons, ih]
      rfl
  rw [object_eq, hsort, hlines]
  rfl

/-! ### The parts of a value -/

theorem charsOfItems_eq (vs : List Value) : charsOfItems vs = vs.mapM chars := by
  induction vs with
  | nil => rfl
  | cons v vs ih => rw [charsOfItems, ih, List.mapM_cons]

theorem charsOfEntries_eq (es : MapEntries) :
    charsOfEntries es = es.map fun e => (e.1, chars e.2) := by
  induction es with
  | nil => rfl
  | cons e es ih => rw [charsOfEntries, ih, List.map_cons]

theorem areOrdered_fields (fields : List (String × Value)) :
    areOrdered ((fields.map entry).map (·.1)) = true := by
  have htexts : ((fields.map entry).map (·.1)).all isText = true := by
    simp [entry, isText]
  rw [areOrdered, htexts, Bool.or_true, Bool.true_or]

/-! ### The canonical text -/

variable {v : Value}

/-- An integer that is part of a value. -/
inductive HasInteger (n : ℤ) : Value → Prop where
  /-- The integer itself. -/
  | int : HasInteger n (.int n)
  /-- In an item of a list. -/
  | item {id : ObjectId} {items : List Value} {v : Value} (hv : v ∈ items) (h : HasInteger n v) :
    HasInteger n (.list id items)
  /-- In a value of a map. -/
  | field {id : ObjectId} {es : MapEntries} {e : Atom × Value} (he : e ∈ es)
    (h : HasInteger n e.2) : HasInteger n (.map id es)

/-- No integer of a value has more digits than a text can have. -/
def IsShort (v : Value) : Prop :=
  ∀ n, HasInteger n v → n.natAbs < 10 ^ Numeric.decimalDigitLimit

theorem isShort_atom {a : Atom} :
    IsShort (.atom a) ↔ ∀ n, a = .int n → n.natAbs < 10 ^ Numeric.decimalDigitLimit := by
  constructor
  · rintro h n rfl
    exact h n .int
  · rintro h n ⟨⟩
    exact h n rfl

theorem isShort_list {id : ObjectId} {items : List Value} :
    IsShort (.list id items) ↔ ∀ v ∈ items, IsShort v := by
  constructor
  · intro h v hv n hn
    exact h n (.item hv hn)
  · rintro h n (_ | ⟨hv, hn⟩)
    exact h _ hv n hn

theorem isShort_fields {id : ObjectId} :
    IsShort (.map id (fields.map entry)) ↔ ∀ f ∈ fields, IsShort f.2 := by
  constructor
  · intro h f hf n hn
    exact h n (.field (List.mem_map_of_mem hf) hn)
  · rintro h n (_ | _ | ⟨he, hn⟩)
    obtain ⟨f, hf, rfl⟩ := List.mem_map.1 he
    exact h f hf n hn

/-- **The canonical text of a value whose integers have texts.** -/
theorem exists_written (hv : IsTree v) (hshort : IsShort v) :
    ∃ cs, chars v = .ok cs ∧ Written v cs := by
  induction hv with
  | text s => exact ⟨_, rfl, .text s⟩
  | @plain a ha =>
    cases a with
    | int n =>
      have hn := integer_ok_iff.2 ⟨isShort_atom.1 hshort n rfl, rfl⟩
      exact ⟨_, hn, .plain ha hn⟩
    | text _ | torn _ | bytes _ | date _ _ | dateTime _ _ | foreign _ | enclosing _ _
    | tuple _ _ => exact ha.elim
    | _ => exact ⟨_, rfl, .plain ha rfl⟩
  | @list id items _ ih =>
    have htexts : ∀ v ∈ items, ∃ cs, chars v = .ok cs ∧ Written v cs :=
      fun v hv => ih v hv (isShort_list.1 hshort v hv)
    choose! t hchars hwritten using htexts
    refine ⟨_, ?_, .list hwritten⟩
    rw [chars, charsOfItems_eq, Result.mapM_eq_ok hchars]
    rfl
  | @map id fields distinct _ ih =>
    have htexts : ∀ v ∈ fields.map (·.2), ∃ cs, chars v = .ok cs ∧ Written v cs := by
      intro v hv
      obtain ⟨f, hf, rfl⟩ := List.mem_map.1 hv
      exact ih f hf (isShort_fields.1 hshort f hf)
    choose! t hchars hwritten using htexts
    have hsorted := List.mergeSort_perm fields fieldLe
    refine ⟨_, ?_, .map (hsorted.symm.map entry) (ordered_mergeSort distinct)
      fun f hf => hwritten _ (List.mem_map_of_mem (hsorted.mem_iff.1 hf))⟩
    have hentries : charsOfEntries (fields.map entry) =
        fields.map fun f => (.text f.1, .ok (t f.2)) := by
      rw [charsOfEntries_eq, List.map_map]
      refine List.map_congr_left fun f hf => ?_
      rw [Function.comp_apply, entry, hchars _ (List.mem_map_of_mem hf)]
    rw [chars, areOrdered_fields, hentries]
    exact object_fields t fields

/-- A value that holds a longer integer has no canonical text. -/
theorem chars_of_long (hv : IsTree v) (hlong : ¬IsShort v) :
    chars v = .error .numberTooLong := by
  have hpart {v : Value} (hv : IsTree v) (ih : ¬IsShort v → chars v = .error .numberTooLong) :
      (∃ cs, chars v = .ok cs) ∨ chars v = .error .numberTooLong := by
    by_cases hshort : IsShort v
    · obtain ⟨cs, hcs, -⟩ := exists_written hv hshort
      exact .inl ⟨cs, hcs⟩
    · exact .inr (ih hshort)
  induction hv with
  | text s => exact absurd (isShort_atom.2 (by rintro n ⟨⟩)) hlong
  | @plain a ha =>
    simp only [isShort_atom, not_forall] at hlong
    obtain ⟨n, rfl, hlong⟩ := hlong
    rw [chars, atom, plainAtom, integer_eq, if_neg hlong]
    nofun
  | @list id items hitems ih =>
    simp only [isShort_list, not_forall] at hlong
    obtain ⟨v, hv, hlong⟩ := hlong
    rw [chars, charsOfItems_eq, Result.mapM_eq_error (fun v hv => hpart (hitems v hv) (ih v hv))
      ⟨v, hv, ih v hv hlong⟩]
    rfl
  | @map id fields _ hfields ih =>
    simp only [isShort_fields, not_forall] at hlong
    obtain ⟨f, hf, hlong⟩ := hlong
    have hlines : (sortByKey (charsOfEntries (fields.map entry))).mapM lineOf =
        .error .numberTooLong := by
      have hsort : ∀ e, e ∈ sortByKey (charsOfEntries (fields.map entry)) ↔
          ∃ f ∈ fields, (.text f.1, chars f.2) = e := by
        intro e
        rw [sortByKey, (List.mergeSort_perm _ _).mem_iff, charsOfEntries_eq, List.map_map,
          List.mem_map]
        rfl
      refine Result.mapM_eq_error (fun e he => ?_) ⟨_, (hsort _).2 ⟨f, hf, rfl⟩, ?_⟩
      · obtain ⟨f, hf, rfl⟩ := (hsort e).1 he
        rcases hpart (hfields f hf) (ih f hf) with ⟨cs, hcs⟩ | hfault
        · rw [hcs]
          exact .inl ⟨_, rfl⟩
        · rw [hfault]
          exact .inr rfl
      · rw [ih f hf hlong]
        rfl
    rw [chars, areOrdered_fields, object_eq, hlines]
    rfl

end ScopedFn.Json
