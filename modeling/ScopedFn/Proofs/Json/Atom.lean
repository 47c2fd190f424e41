import ScopedFn.Json.Canonical
import ScopedFn.Json.Reader
import ScopedFn.Proofs.Numeric.Decimal

/-!
# The texts of atoms

An atom is told from its text. A text in quotation marks reads back, so it ends where the reader
ends it. Other atoms are told apart by their characters, and a number by what the characters
denote.

* `Json.run_textRest_quoted` : the reader takes a quoted text back;
* `Json.quote_append_inj` : a quoted text tells which text it is, and where it ends;
* `Json.eq_of_plainAtom` : the text of any other atom tells which atom it is.
-/

set_option autoImplicit false

namespace ScopedFn.Json

/-! ### Texts in quotation marks -/

theorem digitsPadded_of_lt :
    ∀ k < 32, (Text.digitsPadded 16 4 k).length = 4 ∧
      (Text.digitsPadded 16 4 k).any (fun c => 0x7f < c.toNat) = false ∧
      Numeric.natOfDigits? 16 (Text.digitsPadded 16 4 k) = some k := by
  decide +kernel

theorem run_unicodeEscape {k : ℕ} (hk : k < 32) (r : List Char) :
    Parse.unicodeEscape.run (Text.digitsPadded 16 4 k ++ r) = .ok (Char.ofNat k, r) := by
  obtain ⟨hlength, hascii, hvalue⟩ := digitsPadded_of_lt k hk
  generalize Text.digitsPadded 16 4 k = digits at *
  have htake : (digits ++ r).take 4 = digits := List.take_left' hlength
  have hdrop : (digits ++ r).drop 4 = r := List.drop_left' hlength
  have hhex : Parse.hex4.run (digits ++ r) = .ok (k, r) := by
    unfold Parse.hex4
    simp only [StateT.run_bind, StateT.run_get, pure_bind, htake, hlength, hascii]
    simp [hvalue, Parse.drop, hdrop]
    rfl
  have hlow : ¬0xd800 ≤ k := by omega
  have hchar : Text.charOf k = Char.ofNat k := by
    simp [Text.charOf, Text.isSurrogate, Text.firstSurrogate, hlow]
  unfold Parse.unicodeEscape
  rw [StateT.run_bind, hhex]
  simp [hlow, hchar, Except.bind, bind]
  rfl

theorem run_textRest_escape {cs r : List Char} {c : Char} (h : Parse.escaped.run cs = .ok (c, r))
    (n : ℕ) : (Parse.textRest (n + 1)).run ('\\' :: cs) =
      ((Parse.textRest n).run r).map fun p => (c :: p.1, p.2) := by
  simp [Parse.textRest, Parse.head?, Parse.drop, h]
  rfl

theorem run_textRest_cons {c : Char} (hmark : c ≠ '"') (hescape : c ≠ '\\') (hc : ¬c.toNat < 0x20)
    (n : ℕ) (r : List Char) : (Parse.textRest (n + 1)).run (c :: r) =
      ((Parse.textRest n).run r).map fun p => (c :: p.1, p.2) := by
  simp [Parse.textRest, Parse.head?, Parse.drop, hmark, hescape, hc]
  rfl

/-- The reader takes one character as it is quoted. -/
theorem run_textRest_quoteChar (c : Char) (n : ℕ) (r : List Char) :
    (Parse.textRest (n + 1)).run (quoteChar c ++ r) =
      ((Parse.textRest n).run r).map fun p => (c :: p.1, p.2) := by
  unfold quoteChar
  split_ifs with hself hfeed hreturn htab hform hback hcontrol
  · rw [Bool.or_eq_true, beq_iff_eq, beq_iff_eq] at hself
    rcases hself with rfl | rfl
    all_goals exact run_textRest_escape rfl n
  · exact eq_of_beq hfeed ▸ run_textRest_escape rfl n
  · exact eq_of_beq hreturn ▸ run_textRest_escape rfl n
  · exact eq_of_beq htab ▸ run_textRest_escape rfl n
  · exact eq_of_beq hform ▸ run_textRest_escape rfl n
  · exact eq_of_beq hback ▸ run_textRest_escape rfl n
  · have hescaped : Parse.escaped.run ('u' :: (Text.digitsPadded 16 4 c.toNat ++ r)) =
        .ok (c, r) := by
      have hread := run_unicodeEscape hcontrol r
      rwa [Char.ofNat_toNat] at hread
    exact run_textRest_escape hescaped n
  · simp only [Bool.or_eq_true, beq_iff_eq, not_or] at hself
    exact run_textRest_cons hself.1 hself.2 hcontrol n r

/-- **The reader takes a quoted text back**, and stops behind its closing mark. -/
theorem run_textRest_quoted {cs : List Char} {n : ℕ} (hn : cs.length < n) (r : List Char) :
    (Parse.textRest n).run (cs.flatMap quoteChar ++ '"' :: r) = .ok (cs, r) := by
  induction cs generalizing n with
  | nil =>
    obtain ⟨m, rfl⟩ := Nat.exists_eq_succ_of_ne_zero (Nat.ne_zero_of_lt hn)
    rfl
  | cons c cs ih =>
    obtain ⟨m, rfl⟩ := Nat.exists_eq_succ_of_ne_zero (Nat.ne_zero_of_lt hn)
    rw [List.flatMap_cons, List.append_assoc, run_textRest_quoteChar,
      ih (Nat.lt_of_succ_lt_succ hn)]
    rfl

/-- A quoted text tells which text it is, and where it ends. -/
theorem quote_append_inj {cs ds r s : List Char} (h : quote cs ++ r = quote ds ++ s) :
    cs = ds ∧ r = s := by
  have hbody : cs.flatMap quoteChar ++ '"' :: r = ds.flatMap quoteChar ++ '"' :: s := by
    simpa [quote] using h
  have hcs : cs.length < cs.length + ds.length + 1 := by omega
  have hds : ds.length < cs.length + ds.length + 1 := by omega
  have hread := run_textRest_quoted hcs r
  rw [hbody, run_textRest_quoted hds s] at hread
  obtain ⟨heq, hr⟩ := Prod.mk.inj (Except.ok.inj hread)
  exact ⟨heq.symm, hr.symm⟩

/-! ### Integers -/

/-- The characters of an integer. -/
def integerChars (n : ℤ) : List Char :=
  (if n < 0 then ['-'] else []) ++ Nat.toDigits 10 n.natAbs

theorem toList_toString (n : ℤ) : (toString n).toList = integerChars n := by
  unfold integerChars
  rcases n with n | n
  · simp [toString, Int.repr, Nat.repr]
  · simp [toString, Int.repr, Nat.repr]

/-- An integer has a text iff it does not have too many digits. -/
theorem integer_eq (n : ℤ) : integer n =
    if n.natAbs < 10 ^ Numeric.decimalDigitLimit then .ok (integerChars n)
    else .error .numberTooLong := by
  have hlength : (Nat.toDigits 10 n.natAbs).length ≤ Numeric.decimalDigitLimit ↔
      n.natAbs < 10 ^ Numeric.decimalDigitLimit :=
    Nat.length_toDigits_le_iff (by decide) (by decide)
  unfold integer
  dsimp only
  rw [toList_toString]
  refine if_congr (Iff.trans ?_ hlength) rfl rfl
  rw [integerChars, List.length_append]
  split_ifs
  · rw [List.length_singleton, Nat.add_comm, Nat.add_le_add_iff_right]
  · rw [List.length_nil, Nat.zero_add, Nat.add_zero]

theorem integer_ok_iff {n : ℤ} {cs : List Char} :
    integer n = .ok cs ↔ n.natAbs < 10 ^ Numeric.decimalDigitLimit ∧ integerChars n = cs := by
  rw [integer_eq]
  split_ifs with h
  · simp [h]
  · simp [h]

theorem head?_toDigits (n : ℕ) : (Nat.toDigits 10 n).head? ≠ some '-' := by
  intro h
  exact absurd (Binary64.areDigits_toDigits n '-' (List.mem_of_head? h)) (by decide)

theorem integerChars_inj {m n : ℤ} (h : integerChars m = integerChars n) : m = n := by
  obtain ⟨hsign, hdigits⟩ :=
    Binary64.sign_append_inj (head?_toDigits _) (head?_toDigits _) h
  have habs : m.natAbs = n.natAbs := by
    rw [← Nat.ofDigitChars_ten_toDigits (n := m.natAbs), hdigits, Nat.ofDigitChars_ten_toDigits]
  omega

theorem of_mem_integerChars {c : Char} {n : ℤ} (hc : c ∈ integerChars n) :
    c = '-' ∨ c.isDigit = true := by
  rcases List.mem_append.1 hc with hc | hc
  · split_ifs at hc
    · exact .inl (List.mem_singleton.1 hc)
    · cases hc
  · exact .inr (Binary64.areDigits_toDigits _ c hc)

/-! ### Atoms other than texts -/

/-- The atoms other than texts that JSON can express, but for the size of integers. -/
def IsPlain : Atom → Prop
  | .null | .bool _ | .int _ | .nan _ => True
  | .float x => x.isNaN = false
  | .text _ | .torn _ | .bytes _ | .date _ _ | .dateTime _ _ | .foreign _ | .enclosing _ _
  | .tuple _ _ => False

/-- The characters that begin, part and end the texts of other values. -/
def delimiters : List Char := ['"', '[', ']', '\x7b', '\x7d', ',', ':']

theorem not_isNumeral_of_mem_delimiters :
    ∀ c ∈ delimiters, ¬Binary64.Parts.IsNumeral c :=
  List.forall_iff_forall_mem.1 (by decide)

theorem namesInfinity_numberLayout : numberLayout.NamesInfinity :=
  ⟨'I', "nfinity".toList, rfl, by decide, by decide⟩

/-- The sort of an atom other than a text, from its characters: a name is a sort of its own. -/
def sortOf (cs : List Char) : List Char :=
  if cs.all fun c => c == '-' || c.isDigit then ['0']
  else if cs.any fun c => c == 'u' || c == 'a' then cs
  else ['.']

theorem sortOf_integerChars (n : ℤ) : sortOf (integerChars n) = ['0'] := by
  refine if_pos (List.all_eq_true.2 fun c hc => ?_)
  rcases of_mem_integerChars hc with rfl | hc
  · rfl
  · rw [hc, Bool.or_true]

theorem sortOf_text {x : Binary64} (hx : x.isNaN = false) :
    sortOf (x.text numberLayout).toList = ['.'] := by
  obtain ⟨c, hc, hsign, hdigit⟩ :=
    Binary64.exists_mark_text namesInfinity_numberLayout hx
  unfold sortOf
  rw [if_neg, if_neg]
  · rw [List.any_eq_true]
    rintro ⟨d, hd, hname⟩
    rw [Bool.or_eq_true, beq_iff_eq, beq_iff_eq] at hname
    rcases Binary64.isNumeral_of_mem_text hx hd with hd | hd
    · rcases hname with rfl | rfl <;> exact absurd hd (by decide)
    · rcases hname with rfl | rfl <;> exact absurd hd (by decide)
  · rw [List.all_eq_true]
    intro hall
    have := hall c hc
    simp [hsign, hdigit] at this

/-- The text of an atom other than a text holds no delimiter, and is not empty. -/
theorem notMem_of_plainAtom {a : Atom} {cs : List Char} (ha : IsPlain a)
    (h : plainAtom a = .ok cs) : cs ≠ [] ∧ ∀ c ∈ delimiters, c ∉ cs := by
  cases a with
  | null | nan i =>
    obtain rfl := Except.ok.inj h
    exact ⟨by decide, List.forall_iff_forall_mem.1 (by decide)⟩
  | bool b =>
    obtain rfl := Except.ok.inj h
    cases b <;> exact ⟨by decide, List.forall_iff_forall_mem.1 (by decide)⟩
  | int n =>
    obtain ⟨-, rfl⟩ := integer_ok_iff.1 h
    refine ⟨by simp [integerChars], fun c hc hmem => ?_⟩
    refine not_isNumeral_of_mem_delimiters c hc ?_
    rcases of_mem_integerChars hmem with rfl | hdigit
    · decide
    · exact .inl hdigit
  | float x =>
    obtain rfl := Except.ok.inj h
    obtain ⟨d, hd, -⟩ := Binary64.exists_mark_text namesInfinity_numberLayout ha
    refine ⟨List.ne_nil_of_mem hd, fun c hc hmem => ?_⟩
    rcases Binary64.isNumeral_of_mem_text ha hmem with hmem | hmem
    · exact not_isNumeral_of_mem_delimiters c hc hmem
    · exact List.forall_iff_forall_mem.1
        (by decide : delimiters.Forall (· ∉ numberLayout.infinityText.toList)) c hc hmem
  | text _ | torn _ | bytes _ | date _ _ | dateTime _ _ | foreign _ | enclosing _ _ | tuple _ _ =>
    exact ha.elim

/-- The sort of the text of an atom. -/
def sort : Atom → List Char
  | .null => "null".toList
  | .bool b => (if b then "true" else "false").toList
  | .int _ => ['0']
  | .nan _ => "NaN".toList
  | _ => ['.']

theorem sortOf_plainAtom {a : Atom} {cs : List Char} (ha : IsPlain a) (h : plainAtom a = .ok cs) :
    sortOf cs = sort a := by
  cases a with
  | null | nan i =>
    obtain rfl := Except.ok.inj h
    rfl
  | bool b =>
    obtain rfl := Except.ok.inj h
    cases b <;> rfl
  | int n =>
    obtain ⟨-, rfl⟩ := integer_ok_iff.1 h
    exact sortOf_integerChars n
  | float x =>
    obtain rfl := Except.ok.inj h
    exact sortOf_text ha
  | text _ | torn _ | bytes _ | date _ _ | dateTime _ _ | foreign _ | enclosing _ _ | tuple _ _ =>
    exact ha.elim

/-- **The text of an atom other than a text tells which atom it is**, except that all that is no
number has one text. -/
theorem eq_of_plainAtom {a b : Atom} {cs : List Char} (ha : IsPlain a) (hb : IsPlain b)
    (h : plainAtom a = .ok cs) (h' : plainAtom b = .ok cs) :
    a = b ∨ ∃ i j, a = .nan i ∧ b = .nan j := by
  have hsort : sort a = sort b := (sortOf_plainAtom ha h).symm.trans (sortOf_plainAtom hb h')
  have hchars := h.trans h'.symm
  cases a with
  | null =>
    cases b with
    | bool y => cases y <;> simp [sort] at hsort
    | _ => simp_all [sort, IsPlain]
  | bool x =>
    cases b with
    | bool y => cases x <;> cases y <;> simp_all [sort]
    | _ => cases x <;> simp_all [sort, IsPlain]
  | nan i =>
    cases b with
    | bool y => cases y <;> simp [sort] at hsort
    | _ => simp_all [sort, IsPlain]
  | int m =>
    cases b with
    | int n =>
      obtain ⟨-, hm⟩ := integer_ok_iff.1 h
      obtain ⟨-, hn⟩ := integer_ok_iff.1 h'
      rw [integerChars_inj (hm.trans hn.symm)]
      exact .inl rfl
    | bool y => cases y <;> simp [sort] at hsort
    | _ => simp_all [sort, IsPlain]
  | float x =>
    cases b with
    | float y =>
      have htext := String.toList_inj.1 (Except.ok.inj hchars)
      rw [(Binary64.text_inj namesInfinity_numberLayout ha hb).1 htext]
      exact .inl rfl
    | bool y => cases y <;> simp [sort] at hsort
    | _ => simp_all [sort, IsPlain]
  | text _ | torn _ | bytes _ | date _ _ | dateTime _ _ | foreign _ | enclosing _ _ | tuple _ _ =>
    exact ha.elim

end ScopedFn.Json
