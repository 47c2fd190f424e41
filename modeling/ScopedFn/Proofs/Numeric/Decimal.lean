import Mathlib.Data.List.TakeWhile
import ScopedFn.Proofs.Numeric.Shortest

/-!
# The text of a number

The decimal text of a number is digits, with a point among them or an exponent behind them. It reads
back as the number that the digits denote, and the shortest digits round to one magnitude only, so
no two numbers have the same text.

* `Binary64.Parts` : the parts of a decimal text, and the text of some parts;
* `Binary64.Parts.Sound.readChars_chars` : a text reads back as the number that its parts denote;
* `Binary64.toList_write` : the text that a layout writes, by its parts;
* `Binary64.text_inj` : the text tells which number it is of.
-/

set_option autoImplicit false

namespace ScopedFn.Binary64

/-! ### The parts of a decimal text -/

/-- All characters are decimal digits. -/
def AreDigits (cs : List Char) : Prop := ∀ c ∈ cs, c.isDigit = true

theorem AreDigits.append {ds es : List Char} (h : AreDigits ds) (h' : AreDigits es) :
    AreDigits (ds ++ es) :=
  fun c hc => (List.mem_append.1 hc).elim (h c) (h' c)

theorem AreDigits.sublist {ds es : List Char} (h : AreDigits es) (hs : ds.Sublist es) :
    AreDigits ds :=
  fun c hc => h c (hs.mem hc)

theorem areDigits_toDigits (n : ℕ) : AreDigits (Nat.toDigits 10 n) :=
  fun _ hc => Nat.isDigit_of_mem_toDigits (by decide) (by decide) hc

theorem areDigits_zeros (n : ℕ) : AreDigits (List.replicate n '0') :=
  fun _ hc => List.eq_of_mem_replicate hc ▸ rfl

/-- A sign in front tells whether a number is negative, if what stands behind it does not begin
with one. -/
theorem sign_append_inj {p q : Prop} [Decidable p] [Decidable q] {cs ds : List Char}
    (hc : cs.head? ≠ some '-') (hd : ds.head? ≠ some '-')
    (h : (if p then ['-'] else []) ++ cs = (if q then ['-'] else []) ++ ds) :
    (p ↔ q) ∧ cs = ds := by
  by_cases hp : p <;> by_cases hq : q
  · rw [if_pos hp, if_pos hq] at h
    exact ⟨iff_of_true hp hq, List.append_cancel_left h⟩
  · rw [if_pos hp, if_neg hq, List.nil_append] at h
    exact absurd (h ▸ rfl) hd
  · rw [if_neg hp, if_pos hq, List.nil_append] at h
    exact absurd (h ▸ rfl) hc
  · rw [if_neg hp, if_neg hq] at h
    exact ⟨iff_of_false hp hq, h⟩

/-- The parts of a decimal text. -/
structure Parts where
  /-- The digits before the point. -/
  whole : List Char
  /-- The digits behind the point; without any there is no point. -/
  fraction : List Char
  /-- The exponent, if one is written. -/
  exponent : Option ℤ

namespace Parts

/-- The text of an exponent, with its mark. -/
def exponentChars (width : ℕ) : Option ℤ → List Char
  | none => []
  | some e => 'e' :: (if e < 0 then '-' else '+') :: Text.digitsPadded 10 width e.natAbs

/-- The text before the exponent. -/
def mantissa (p : Parts) : List Char :=
  if p.fraction = [] then p.whole else p.whole ++ '.' :: p.fraction

/-- The whole text; an exponent has a least width. -/
def chars (width : ℕ) (p : Parts) : List Char := p.mantissa ++ exponentChars width p.exponent

/-- The number that the parts denote. -/
def value (p : Parts) : ℚ :=
  Nat.ofDigitChars 10 (p.whole ++ p.fraction) 0 * 10 ^ (p.exponent.getD 0 - p.fraction.length)

/-- There are digits before the point and only digits, and the text is told from that of an
integer. -/
structure Sound (p : Parts) : Prop where
  whole_ne_nil : p.whole ≠ []
  whole : AreDigits p.whole
  fraction : AreDigits p.fraction
  marked : p.fraction ≠ [] ∨ p.exponent ≠ none

variable {p q : Parts} {width : ℕ}

/-- What stands behind the mark of an exponent, read as a number. -/
def readExponent : List Char → ℤ
  | '-' :: digits => -Nat.ofDigitChars 10 digits 0
  | _ :: digits => Nat.ofDigitChars 10 digits 0
  | [] => 0

/-- A decimal text read as a number. -/
def readChars (cs : List Char) : ℚ :=
  let mantissa := cs.takeWhile (· != 'e')
  let fraction := (mantissa.dropWhile (· != '.')).drop 1
  Nat.ofDigitChars 10 (mantissa.takeWhile (· != '.') ++ fraction) 0 *
    10 ^ (readExponent ((cs.dropWhile (· != 'e')).drop 1) - fraction.length)

theorem readExponent_exponentChars (exponent : Option ℤ) :
    readExponent ((exponentChars width exponent).drop 1) = exponent.getD 0 := by
  cases exponent with
  | none => rfl
  | some e =>
    have hdigits : Nat.ofDigitChars 10 (Text.digitsPadded 10 width e.natAbs) 0 = e.natAbs := by
      unfold Text.digitsPadded
      simp [Nat.ofDigitChars_append]
    rw [exponentChars, List.drop_one, List.tail_cons]
    split_ifs with he
    · rw [readExponent, hdigits, Option.getD_some]
      omega
    · rw [readExponent, hdigits, Option.getD_some]
      · omega
      · simp

theorem ne_of_areDigits {cs : List Char} {d : Char} (hd : d.isDigit = false) (h : AreDigits cs) :
    ∀ c ∈ cs, (c != d) = true := by
  intro c hc
  rw [bne_iff_ne]
  rintro rfl
  exact absurd (h c hc) (by simp [hd])

theorem Sound.notMem_mantissa (hp : p.Sound) : ∀ c ∈ p.mantissa, (c != 'e') = true := by
  unfold mantissa
  split_ifs with h
  · exact ne_of_areDigits rfl hp.whole
  · intro c hc
    rcases List.mem_append.1 hc with hc | hc
    · exact ne_of_areDigits rfl hp.whole c hc
    · rcases List.mem_cons.1 hc with rfl | hc
      · rfl
      · exact ne_of_areDigits rfl hp.fraction c hc

/-- A character of a decimal text. -/
def IsNumeral (c : Char) : Prop := c.isDigit = true ∨ c ∈ ['.', 'e', '+', '-']

instance : DecidablePred IsNumeral := fun _ => inferInstanceAs (Decidable (_ ∨ _))

theorem isNumeral_of_mem_exponentChars {c : Char} {exponent : Option ℤ}
    (hc : c ∈ exponentChars width exponent) : IsNumeral c := by
  cases exponent with
  | none => cases hc
  | some e =>
    have hdigits : AreDigits (Text.digitsPadded 10 width e.natAbs) :=
      (areDigits_zeros _).append (areDigits_toDigits _)
    rcases List.mem_cons.1 hc with rfl | hc
    · exact .inr (by decide)
    · rcases List.mem_cons.1 hc with rfl | hc
      · exact .inr (by split_ifs <;> decide)
      · exact .inl (hdigits c hc)

theorem Sound.isNumeral_of_mem {c : Char} (hp : p.Sound) (hc : c ∈ p.chars width) :
    IsNumeral c := by
  rcases List.mem_append.1 hc with hc | hc
  · unfold mantissa at hc
    split_ifs at hc
    · exact .inl (hp.whole c hc)
    · rcases List.mem_append.1 hc with hc | hc
      · exact .inl (hp.whole c hc)
      · rcases List.mem_cons.1 hc with rfl | hc
        · exact .inr (by decide)
        · exact .inl (hp.fraction c hc)
  · exact isNumeral_of_mem_exponentChars hc

/-- A decimal text is told from that of an integer by its point or the mark of its exponent. -/
theorem Sound.exists_mark (hp : p.Sound) :
    ∃ c ∈ p.chars width, c ≠ '-' ∧ c.isDigit = false := by
  rcases hp.marked with hfraction | hexponent
  · refine ⟨'.', List.mem_append_left _ ?_, by decide⟩
    rw [mantissa, if_neg hfraction]
    exact List.mem_append_right _ List.mem_cons_self
  · obtain ⟨e, he⟩ := Option.ne_none_iff_exists'.1 hexponent
    refine ⟨'e', List.mem_append_right _ ?_, by decide⟩
    rw [he]
    exact List.mem_cons_self

/-- **A decimal text reads back as the number that its parts denote.** -/
theorem Sound.readChars_chars (hp : p.Sound) : readChars (p.chars width) = p.value := by
  have htake : (p.chars width).takeWhile (· != 'e') = p.mantissa := by
    rw [chars, List.takeWhile_append_of_pos hp.notMem_mantissa]
    cases p.exponent <;> simp [exponentChars]
  have hdrop : (p.chars width).dropWhile (· != 'e') = exponentChars width p.exponent := by
    rw [chars, List.dropWhile_append_of_pos hp.notMem_mantissa]
    cases p.exponent <;> simp [exponentChars]
  have hwhole := ne_of_areDigits (d := '.') rfl hp.whole
  have hpoint : p.mantissa.takeWhile (· != '.') = p.whole ∧
      (p.mantissa.dropWhile (· != '.')).drop 1 = p.fraction := by
    unfold mantissa
    split_ifs with h
    · rw [List.takeWhile_eq_self_iff.2 hwhole, List.dropWhile_eq_nil_iff.2 hwhole, h]
      exact ⟨rfl, rfl⟩
    · rw [List.takeWhile_append_of_pos hwhole, List.dropWhile_append_of_pos hwhole]
      simp
  unfold readChars value
  dsimp only
  rw [htake, hdrop, hpoint.1, hpoint.2, readExponent_exponentChars]

end Parts

/-- The parts of digits that are written by a layout. -/
def Layout.parts (l : Layout) (d : Digits) : Parts :=
  let digits := Nat.toDigits 10 d.digits
  let lead := d.power + digits.length - 1
  if l.leastPositional ≤ lead ∧ lead < l.firstScientific then
    if 0 ≤ d.power then ⟨digits ++ List.replicate d.power.toNat '0', ['0'], none⟩
    else if 0 ≤ lead then ⟨digits.take (lead.toNat + 1), digits.drop (lead.toNat + 1), none⟩
    else ⟨['0'], List.replicate (-lead - 1).toNat '0' ++ digits, none⟩
  else
    let tail := digits.drop 1
    ⟨digits.take 1, if tail = [] then (if l.pointInScientific then ['0'] else []) else tail,
      some lead⟩

theorem toList_write (l : Layout) (d : Digits) :
    (l.write d).toList = (l.parts d).chars l.exponentWidth := by
  unfold Layout.write Layout.parts
  have hlength : 0 < (Nat.toDigits 10 d.digits).length := Nat.length_toDigits_pos
  dsimp only
  generalize Nat.toDigits 10 d.digits = digits at *
  simp only [String.isEmpty_iff, String.ofList_eq_empty_iff, List.drop_one]
  split_ifs with hpositional hpower hlead htail hpoint
  · simp [Parts.chars, Parts.mantissa, Parts.exponentChars]
  · have hdrop : digits.drop ((d.power + digits.length - 1).toNat + 1) ≠ [] := by
      rw [Ne, List.drop_eq_nil_iff]
      omega
    rw [Parts.chars, Parts.mantissa, if_neg hdrop]
    simp [Parts.exponentChars]
  · have hne := List.ne_nil_of_length_pos hlength
    simp [Parts.chars, Parts.mantissa, Parts.exponentChars, hne]
  all_goals simp [Parts.chars, Parts.mantissa, Parts.exponentChars, Text.padded, *]

theorem sound_parts (l : Layout) (d : Digits) : (l.parts d).Sound := by
  have hlength : 0 < (Nat.toDigits 10 d.digits).length := Nat.length_toDigits_pos
  have hdigits := areDigits_toDigits d.digits
  unfold Layout.parts
  dsimp only
  generalize Nat.toDigits 10 d.digits = digits at *
  have hne := List.ne_nil_of_length_pos hlength
  split_ifs with hpositional hpower hlead htail hpoint
  · exact ⟨by simp [hne], hdigits.append (areDigits_zeros _), areDigits_zeros 1, .inl (by simp)⟩
  · refine ⟨by simp [hne], hdigits.sublist (List.take_sublist _ _),
      hdigits.sublist (List.drop_sublist _ _), .inl ?_⟩
    rw [Ne, List.drop_eq_nil_iff]
    omega
  · exact ⟨by simp, areDigits_zeros 1, (areDigits_zeros _).append hdigits, .inl (by simp [hne])⟩
  · exact ⟨by simp [hne], hdigits.sublist (List.take_sublist _ _), areDigits_zeros 1,
      .inr (by simp)⟩
  · exact ⟨by simp [hne], hdigits.sublist (List.take_sublist _ _), nofun, .inr (by simp)⟩
  · exact ⟨by simp [hne], hdigits.sublist (List.take_sublist _ _),
      hdigits.sublist (List.drop_sublist _ _), .inr (by simp)⟩

theorem value_parts (l : Layout) (d : Digits) : (l.parts d).value = d.value := by
  have hlength : 0 < (Nat.toDigits 10 d.digits).length := Nat.length_toDigits_pos
  have hread : Nat.ofDigitChars 10 (Nat.toDigits 10 d.digits) 0 = d.digits :=
    Nat.ofDigitChars_ten_toDigits
  unfold Layout.parts
  dsimp only
  generalize Nat.toDigits 10 d.digits = digits at *
  have hsingle (htail : digits.drop 1 = []) :
      digits.take 1 = digits ∧ d.power + digits.length - 1 = d.power := by
    have hle := List.drop_eq_nil_iff.1 htail
    exact ⟨List.take_of_length_le hle, by omega⟩
  unfold Parts.value Digits.value
  split_ifs with hpositional hpower hlead htail hpoint
  · -- zeros behind the digits
    have hzeros : Nat.ofDigitChars 10 (digits ++ List.replicate d.power.toNat '0' ++ ['0']) 0 =
        d.digits * 10 ^ (d.power.toNat + 1) := by
      rw [List.append_assoc, ← List.replicate_succ', Nat.ofDigitChars_append, hread,
        Nat.ofDigitChars_replicate_zero, mul_comm]
    have hpow : (10 : ℚ) ^ (d.power.toNat + 1) = 10 ^ d.power * 10 := by
      rw [pow_succ, ← zpow_natCast, Int.toNat_of_nonneg hpower]
    rw [hzeros, Nat.cast_mul, Nat.cast_pow, Nat.cast_ofNat, hpow]
    simp [zpow_neg]
    field_simp
  · -- a point among the digits
    rw [List.take_append_drop, hread, List.length_drop, Option.getD_none]
    congr 2
    omega
  · -- zeros before the digits
    have hzeros : Nat.ofDigitChars 10 (['0'] ++
        (List.replicate (-(d.power + digits.length - 1) - 1).toNat '0' ++ digits)) 0 =
          d.digits := by
      rw [List.singleton_append, ← List.cons_append, ← List.replicate_succ, Nat.ofDigitChars_append,
        Nat.ofDigitChars_replicate_zero, mul_zero, hread]
    rw [hzeros, List.length_append, List.length_replicate, Option.getD_none]
    congr 2
    omega
  · -- one digit, with a point
    obtain ⟨hone, hlead⟩ := hsingle htail
    rw [hone, Nat.ofDigitChars_append, hread, hlead, Option.getD_some]
    simp [Nat.ofDigitChars_cons, zpow_sub₀]
    field_simp
  · -- one digit, without a point
    obtain ⟨hone, hlead⟩ := hsingle htail
    rw [hone, hlead, List.append_nil, hread]
    simp
  · rw [List.take_append_drop, hread, List.length_drop, Option.getD_some]
    congr 2
    omega

/-! ### The text of a number -/

variable {l : Layout} {x y : Binary64}

/-- The names of the infinities do not begin like a number. -/
def Layout.NamesInfinity (l : Layout) : Prop :=
  ∃ c cs, l.infinityText.toList = c :: cs ∧ c ≠ '-' ∧ c.isDigit = false

/-- The text of a number without its sign. -/
def body (l : Layout) (x : Binary64) : List Char :=
  if x.isInfinite then l.infinityText.toList
  else if x.isZero then ['0', '.', '0']
  else (l.write x.shortest).toList

theorem toList_text (hx : x.isNaN = false) :
    (x.text l).toList = (if x.negative then ['-'] else []) ++ x.body l := by
  unfold text body
  rw [hx, if_neg Bool.false_ne_true]
  dsimp only
  split_ifs <;> simp

/-- A number other than an infinity has sound parts, which denote a rational number that rounds to
it. -/
theorem exists_parts (hfinite : x.isInfinite = false) (l : Layout) :
    ∃ p : Parts, x.body l = p.chars l.exponentWidth ∧ p.Sound ∧
      (x.isZero = true ∧ p.value = 0 ∨ x.significand ≠ 0 ∧ RoundsTo p.value x) := by
  unfold body
  rw [hfinite, if_neg Bool.false_ne_true]
  split_ifs with hzero
  · refine ⟨⟨['0'], ['0'], none⟩, rfl,
      ⟨by simp, areDigits_zeros 1, areDigits_zeros 1, .inl (by simp)⟩, .inl ⟨hzero, ?_⟩⟩
    simp [Parts.value, Nat.ofDigitChars_cons]
  · have hsignificand : x.significand ≠ 0 := by
      unfold isZero at hzero
      unfold significand
      split_ifs with hfield
      · simpa [hfield] using hzero
      · simp
    refine ⟨l.parts x.shortest, toList_write _ _, sound_parts _ _, .inr ⟨hsignificand, ?_⟩⟩
    rw [value_parts]
    exact roundsTo_shortest hsignificand

theorem head_chars {p : Parts} (hp : p.Sound) (width : ℕ) :
    ∃ c cs, p.chars width = c :: cs ∧ c.isDigit = true := by
  obtain ⟨c, cs, hwhole⟩ := List.exists_cons_of_ne_nil hp.whole_ne_nil
  have hc := hp.whole c (hwhole ▸ List.mem_cons_self)
  unfold Parts.chars Parts.mantissa
  rw [hwhole]
  split_ifs
  · exact ⟨c, _, rfl, hc⟩
  · exact ⟨c, _, rfl, hc⟩

/-- A text without its sign begins with a digit, except that of an infinity. -/
theorem head_body (hl : l.NamesInfinity) (x : Binary64) :
    ∃ c cs, x.body l = c :: cs ∧ c ≠ '-' ∧ (c.isDigit = true ↔ x.isInfinite = false) := by
  cases hinfinite : x.isInfinite with
  | true =>
    obtain ⟨c, cs, heq, hsign, hdigit⟩ := hl
    refine ⟨c, cs, ?_, hsign, by simp [hdigit]⟩
    rw [body, hinfinite, if_pos rfl, heq]
  | false =>
    obtain ⟨p, heq, hp, -⟩ := exists_parts hinfinite l
    obtain ⟨c, cs, hcs, hdigit⟩ := head_chars hp l.exponentWidth
    refine ⟨c, cs, heq.trans hcs, ?_, by simp [hdigit]⟩
    rintro rfl
    exact absurd hdigit (by decide)

theorem isNumeral_of_mem_text {c : Char} (hx : x.isNaN = false) (hc : c ∈ (x.text l).toList) :
    Parts.IsNumeral c ∨ c ∈ l.infinityText.toList := by
  rw [toList_text hx] at hc
  rcases List.mem_append.1 hc with hc | hc
  · split_ifs at hc
    · rw [List.mem_singleton.1 hc]
      exact .inl (.inr (by decide))
    · cases hc
  · cases hinfinite : x.isInfinite with
    | true =>
      rw [body, hinfinite, if_pos rfl] at hc
      exact .inr hc
    | false =>
      obtain ⟨p, heq, hp, -⟩ := exists_parts hinfinite l
      exact .inl (hp.isNumeral_of_mem (heq ▸ hc))

/-- The text of a number is told from that of an integer. -/
theorem exists_mark_text (hl : l.NamesInfinity) (hx : x.isNaN = false) :
    ∃ c ∈ (x.text l).toList, c ≠ '-' ∧ c.isDigit = false := by
  have hbody : ∃ c ∈ x.body l, c ≠ '-' ∧ c.isDigit = false := by
    cases hinfinite : x.isInfinite with
    | true =>
      obtain ⟨c, cs, heq, hc⟩ := hl
      refine ⟨c, ?_, hc⟩
      rw [body, hinfinite, if_pos rfl, heq]
      exact List.mem_cons_self
    | false =>
      obtain ⟨p, heq, hp, -⟩ := exists_parts hinfinite l
      exact heq ▸ hp.exists_mark
  obtain ⟨c, hc, hmark⟩ := hbody
  exact ⟨c, toList_text hx ▸ List.mem_append_right _ hc, hmark⟩

theorem order_eq_of_body (hl : l.NamesInfinity) (h : x.body l = y.body l) :
    x.order = y.order := by
  obtain ⟨c, cs, hxs, -, hxd⟩ := head_body hl x
  obtain ⟨d, ds, hys, -, hyd⟩ := head_body hl y
  obtain ⟨rfl, -⟩ := List.cons.inj ((hxs.symm.trans h).trans hys)
  have hinfinite : x.isInfinite = y.isInfinite := by
    have := hxd.symm.trans hyd
    cases hxi : x.isInfinite <;> cases hyi : y.isInfinite <;> simp_all
  cases hxi : x.isInfinite with
  | true =>
    have hyi := hinfinite.symm.trans hxi
    unfold isInfinite at hxi hyi
    simp only [Bool.and_eq_true, beq_iff_eq] at hxi hyi
    rw [order, order, hxi.1, hxi.2, hyi.1, hyi.2]
  | false =>
    obtain ⟨p, hp, hsound, hpv⟩ := exists_parts hxi l
    obtain ⟨q, hq, hsound', hqv⟩ := exists_parts (hinfinite.symm.trans hxi) l
    -- the texts read back as one rational number
    have hvalue : p.value = q.value :=
      calc p.value = Parts.readChars (p.chars l.exponentWidth) := hsound.readChars_chars.symm
        _ = Parts.readChars (q.chars l.exponentWidth) := by rw [← hp, ← hq, h]
        _ = q.value := hsound'.readChars_chars
    rcases hpv with ⟨hxz, hpz⟩ | ⟨hxn, hpr⟩ <;> rcases hqv with ⟨hyz, hqz⟩ | ⟨hyn, hqr⟩
    · unfold isZero at hxz hyz
      simp only [Bool.and_eq_true, beq_iff_eq] at hxz hyz
      rw [order, order, hxz.1, hxz.2, hyz.1, hyz.2]
    · exact absurd (hvalue.symm.trans hpz) (pos_of_roundsTo hyn hqr).ne'
    · exact absurd (hvalue.trans hqz) (pos_of_roundsTo hxn hpr).ne'
    · exact order_eq_of_roundsTo hpr (hvalue ▸ hqr)

/-- **The text of a number tells which number it is.** -/
theorem text_inj (hl : l.NamesInfinity) (hx : x.isNaN = false) (hy : y.isNaN = false) :
    x.text l = y.text l ↔ x = y := by
  refine ⟨fun h => ?_, fun h => h ▸ rfl⟩
  have hchars := congrArg String.toList h
  rw [toList_text hx, toList_text hy] at hchars
  have hhead (z : Binary64) : (z.body l).head? ≠ some '-' := by
    obtain ⟨c, cs, hcs, hc, -⟩ := head_body hl z
    rw [hcs]
    exact fun h => hc (Option.some.inj h)
  obtain ⟨hsign, hbody⟩ := sign_append_inj (hhead x) (hhead y) hchars
  exact eq_of_order (Bool.eq_iff_iff.2 hsign) (order_eq_of_body hl hbody)

end ScopedFn.Binary64
