import Mathlib.Tactic.SplitIfs
import ScopedFn.Value.Display

/-!
# What is shown of a value

What is given as text is given as its display, and nothing that is filled as the empty text. So a
field that wants text is empty for a value that is not filled, and for no other.

* `Value.shown_eq_ok_iff`, `Value.shownFilled_eq_ok_iff` : which texts are given;
* `Value.shownFilled_eq_error_iff` : which fields are given as no text;
* `Value.displayFilled_eq_empty_iff` : which values give empty text fields;
* `Value.textFaultInEntries?_eq_none_iff` : a map is given as text iff its keys and values are.
-/

set_option autoImplicit false

namespace ScopedFn

theorem Binary64.Layout.write_ne_empty (l : Binary64.Layout) (d : Binary64.Digits) :
    l.write d ≠ "" := by
  unfold Binary64.Layout.write
  dsimp only
  split_ifs <;> simp

theorem quotedTuple_ne_empty (ts : List String) : quotedTuple ts ≠ "" := by
  unfold quotedTuple
  split <;> simp

theorem quotedDateTime_ne_empty (t : DateTime) : quotedDateTime t ≠ "" := by
  unfold quotedDateTime
  dsimp only
  generalize commaSeparated _ = parts
  simp

theorem Atom.quoted_ne_empty (a : Atom) : a.quoted ≠ "" := by
  cases a with
  | null => decide
  | bool b => cases b <;> decide
  | int n =>
    cases n <;> simp [quoted, toString, Int.repr, Nat.repr]
  | float x =>
    rw [quoted, Binary64.text]
    split_ifs <;> simp [displayLayout, Binary64.Layout.write_ne_empty]
  | nan id => simp [quoted, displayLayout]
  | text s => simp [quoted, Text.quoted]
  | torn s => simp [quoted, Text.quotedTorn]
  | bytes b => simp [quoted, Text.quotedBytes]
  | date id d => simp [quoted]
  | dateTime id t => exact quotedDateTime_ne_empty t
  | foreign id => simp [quoted]
  | enclosing id isList => cases isList <;> simp [quoted]
  | tuple id items => exact quotedTuple_ne_empty _

theorem Atom.display_ne_empty {a : Atom} (h : a.isFilled = true) : a.display ≠ "" := by
  cases a with
  | text s | torn s => simpa [isFilled, display] using h
  | date id d => simp [display, Date.text]
  | dateTime id t => simp [display, DateTime.text]
  | _ => exact quoted_ne_empty _

theorem Atom.shown_eq_ok_iff {a : Atom} {text : String} :
    a.shown = .ok text ↔ a.textFault? = none ∧ a.display = text := by
  unfold shown orTextFault
  cases a.textFault? <;> simp

namespace Value

theorem display_ne_empty {v : Value} (h : v.isFilled = true) : v.display ≠ "" := by
  cases v with
  | atom a => exact Atom.display_ne_empty h
  | list id items => simp [display, quoted]
  | tuple id items => exact quotedTuple_ne_empty _
  | map id es => simp [display, quoted]
  | set id ms =>
    simp only [display, quoted]
    split_ifs <;> simp

variable {v : Value} {text : String} {cause : TextFault}

theorem isNull_iff : v.isNull = true ↔ v = .null := by
  unfold isNull
  split
  · exact iff_of_true rfl rfl
  · rename_i hne
    exact iff_of_false (by simp) hne

/-- A text field is empty iff its value is not filled. -/
theorem displayFilled_eq_empty_iff : v.displayFilled = "" ↔ v.isFilled = false := by
  rw [displayFilled]
  split_ifs with h
  · simp [h, display_ne_empty h]
  · simp [h]

/-! ### Texts that are given -/

theorem shown_eq_ok_iff : v.shown = .ok text ↔ v.textFault? = none ∧ v.display = text := by
  unfold shown orTextFault
  cases v.textFault? <;> simp

theorem shown_eq_error_iff : v.shown = .error cause ↔ v.textFault? = some cause := by
  unfold shown orTextFault
  cases v.textFault? <;> simp

/-- What is not filled is given as text, for it holds nothing that could not be. -/
theorem textFault?_of_not_isFilled (h : v.isFilled = false) : v.textFault? = none := by
  cases v with
  | atom a =>
    cases a with
    | int n =>
      obtain rfl : n = 0 := by simpa [isFilled, Atom.isFilled] using h
      have hfew : Int.natAbs 0 < Nat.pow 10 Numeric.decimalDigitLimit := by
        rw [Nat.pow_eq]
        exact Nat.pow_pos (by decide)
      rw [textFault?, Atom.textFault?, if_pos hfew]
    | tuple id items =>
      obtain rfl : items = [] := by simpa [isFilled, Atom.isFilled] using h
      rfl
    | _ => rfl
  | list id items | tuple id items =>
    obtain rfl : items = [] := by simpa [isFilled] using h
    rfl
  | map id es =>
    obtain rfl : es = [] := by simpa [isFilled] using h
    rfl
  | set id ms =>
    obtain rfl : ms = [] := by simpa [isFilled] using h
    rfl

/-- What is given in a text field is the text of the field. -/
theorem shownFilled_eq_ok_iff :
    v.shownFilled = .ok text ↔ v.textFault? = none ∧ v.displayFilled = text := by
  rw [shownFilled, displayFilled]
  split_ifs with h
  · exact shown_eq_ok_iff
  · simp [textFault?_of_not_isFilled (eq_false_of_ne_true h)]

theorem shownFilled_eq_error_iff : v.shownFilled = .error cause ↔ v.textFault? = some cause := by
  rw [shownFilled]
  split_ifs with h
  · exact shown_eq_error_iff
  · simp [textFault?_of_not_isFilled (eq_false_of_ne_true h)]

theorem textFaultIn?_eq_none_iff {vs : List Value} :
    textFaultIn? vs = none ↔ ∀ v ∈ vs, v.textFault? = none := by
  induction vs with
  | nil => simp [textFaultIn?]
  | cons v vs ih => rw [textFaultIn?, Option.or_eq_none_iff, ih, List.forall_mem_cons]

theorem textFaultInEntries?_eq_none_iff {es : MapEntries} :
    textFaultInEntries? es = none ↔ ∀ p ∈ es, p.1.textFault? = none ∧ p.2.textFault? = none := by
  induction es with
  | nil => simp [textFaultInEntries?]
  | cons p es ih =>
    rw [textFaultInEntries?, Option.or_eq_none_iff, Option.or_eq_none_iff, ih, List.forall_mem_cons]

end Value

/-- What is found in a map is given as text if the map is. -/
theorem MapEntries.textFault?_get {es : MapEntries} (h : Value.textFaultInEntries? es = none)
    (key : String) : (es.get key).textFault? = none := by
  rw [Value.textFaultInEntries?_eq_none_iff] at h
  unfold get get?
  induction es with
  | nil => rfl
  | cons p es ih =>
    obtain ⟨hp, hes⟩ := List.forall_mem_cons.1 h
    rw [Entries.find?]
    split
    · exact hp.2
    · exact ih hes

end ScopedFn
