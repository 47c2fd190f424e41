import ScopedFn.Config.Settings
import ScopedFn.Proofs.Json.Readable

/-!
# The hash of a configuration

The hash of a configuration is the digest of its canonical text. The text tells the configuration
up to the order of keys, so two configurations have the same hash only if they are the same, or if
the digest cannot tell two texts apart. The one thing that can be missing is the text of an integer:
with too many digits there is none, and the configuration has no hash.

* `Config.hash_identifies` : when two configurations have the same hash.
-/

set_option autoImplicit false

namespace ScopedFn.Config

open Json (IsTree IsShort Written SameUpToOrder)

/-- The digest of a text. -/
def digest (text : String) : String := Sha256.hex text.toUTF8.toList

variable {i j : ObjectId} {es fs : MapEntries}

theorem exists_hash (ht : IsTree (.map i es)) (hshort : IsShort (.map i es)) :
    ∃ s, Json.canonical (.map i es) = .ok s ∧ Written (.map i es) s.toList ∧
      hash (.map i es) = .ok (digest s) := by
  obtain ⟨cs, hchars, hwritten⟩ := Json.exists_written ht hshort
  have htext : Json.canonical (.map i es) = .ok (String.ofList cs) := by
    rw [Json.canonical, hchars]
    rfl
  refine ⟨String.ofList cs, htext, String.toList_ofList ▸ hwritten, ?_⟩
  simp only [hash, htext]
  rfl

theorem hash_of_long (ht : IsTree (.map i es)) (hlong : ¬IsShort (.map i es)) :
    Json.canonical (.map i es) = .error .numberTooLong ∧
      hash (.map i es) = .error (.noText .numberTooLong) := by
  have htext : Json.canonical (.map i es) = .error .numberTooLong := by
    rw [Json.canonical, Json.chars_of_long ht hlong]
    rfl
  refine ⟨htext, ?_⟩
  simp only [hash, htext]

/-- **The hash identifies the configuration.** Two configurations whose integers have texts have
canonical texts, which are the same iff the configurations are the same up to the order of keys at
every depth; their hashes are the same iff they are, or if the digest takes two texts for one. With
an integer that is too long there is neither text nor hash. -/
theorem hash_identifies (ha : IsTree (.map i es)) (hb : IsTree (.map j fs)) :
    (IsShort (.map i es) → IsShort (.map j fs) → ∃ s t,
      Json.canonical (.map i es) = .ok s ∧ Written (.map i es) s.toList ∧
      Json.canonical (.map j fs) = .ok t ∧ Written (.map j fs) t.toList ∧
      (s = t ↔ SameUpToOrder (.map i es) (.map j fs)) ∧
      hash (.map i es) = .ok (digest s) ∧ hash (.map j fs) = .ok (digest t) ∧
      (digest s = digest t ↔
        SameUpToOrder (.map i es) (.map j fs) ∨ s ≠ t ∧ digest s = digest t)) ∧
    (¬IsShort (.map i es) →
      Json.canonical (.map i es) = .error .numberTooLong ∧
      hash (.map i es) = .error (.noText .numberTooLong)) := by
  refine ⟨fun hsa hsb => ?_, hash_of_long ha⟩
  obtain ⟨s, hs, hws, hhs⟩ := exists_hash ha hsa
  obtain ⟨t, ht, hwt, hht⟩ := exists_hash hb hsb
  have htexts : s = t ↔ SameUpToOrder (.map i es) (.map j fs) := by
    constructor
    · rintro rfl
      exact (hws.sameUpToOrder hwt Json.ends_nil Json.ends_nil rfl).1
    · exact fun h => String.toList_inj.1 (hws.eq_of_sameUpToOrder hwt h)
  refine ⟨s, t, hs, hws, ht, hwt, htexts, hhs, hht, ?_⟩
  rw [← htexts]
  constructor
  · intro h
    by_cases heq : s = t
    · exact .inl heq
    · exact .inr ⟨heq, h⟩
  · rintro (rfl | ⟨-, h⟩)
    · rfl
    · exact h

/-- Two spellings of one configuration have one hash: the keys are in another order at both depths,
and what is no number is another object. -/
theorem hash_identifies_reordered :
    let tree (fields : List (String × Value)) := Value.map noObject (fields.map Json.entry)
    let a := tree [("b", .list noObject [.int 1, .atom (.nan 1)]),
      ("a", tree [("y", .bool true), ("x", .text "é")])]
    let b := tree [("a", tree [("x", .text "é"), ("y", .bool true)]),
      ("b", .list noObject [.int 1, .atom (.nan 2)])]
    IsTree a ∧ IsTree b ∧ hash a = hash b := by
  intro tree a b
  have hlist (nan : ObjectId) : IsTree (.list noObject [.int 1, .atom (.nan nan)]) := by
    refine .list ?_
    simp only [List.forall_mem_cons]
    exact ⟨.plain trivial, .plain trivial, List.forall_mem_nil _⟩
  have ha : IsTree a := by
    refine .map (by decide) ?_
    simp only [List.forall_mem_cons]
    refine ⟨hlist 1, .map (by decide) ?_, List.forall_mem_nil _⟩
    simp only [List.forall_mem_cons]
    exact ⟨.plain trivial, .text _, List.forall_mem_nil _⟩
  have hb : IsTree b := by
    refine .map (by decide) ?_
    simp only [List.forall_mem_cons]
    refine ⟨.map (by decide) ?_, hlist 2, List.forall_mem_nil _⟩
    simp only [List.forall_mem_cons]
    exact ⟨.text _, .plain trivial, List.forall_mem_nil _⟩
  have hone : 1 < 10 ^ Numeric.decimalDigitLimit :=
    Nat.one_lt_pow (by decide) (by decide)
  have hlist' (nan : ObjectId) : IsShort (.list noObject [.int 1, .atom (.nan nan)]) := by
    simp [Json.isShort_list, Json.isShort_atom, hone]
  have hsa : IsShort a := by
    simp only [a, tree, Json.isShort_fields, List.forall_mem_cons, hlist', Json.isShort_atom,
      reduceCtorEq, IsEmpty.forall_iff, implies_true, List.not_mem_nil, and_self]
  have hsb : IsShort b := by
    simp only [b, tree, Json.isShort_fields, List.forall_mem_cons, hlist', Json.isShort_atom,
      reduceCtorEq, IsEmpty.forall_iff, implies_true, List.not_mem_nil, and_self]
  have hsame : SameUpToOrder a b := by
    refine .map (List.Perm.swap _ _ _) ?_
    -- of the four pairs of entries, those with one key
    simp only [tree, List.map_cons, List.map_nil, Json.entry, List.mem_cons, List.not_mem_nil,
      or_false, forall_eq_or_imp, forall_eq, Atom.text.injEq, String.reduceEq, IsEmpty.forall_iff,
      forall_const, true_and, and_true]
    refine ⟨.list rfl fun n hv hw => ?_, .map (List.Perm.swap _ _ _) ?_⟩
    · obtain rfl | rfl : n = 0 ∨ n = 1 := by
        simp only [List.length_cons, List.length_nil] at hv
        omega
      · exact .atom _
      · exact .nan 1 2
    · simp only [List.mem_cons, List.not_mem_nil, or_false, forall_eq_or_imp, forall_eq,
        Atom.text.injEq, String.reduceEq, IsEmpty.forall_iff, forall_const, true_and, and_true]
      exact ⟨.atom _, .atom _⟩
  obtain ⟨s, t, -, -, -, -, htexts, hhs, hht, -⟩ := (hash_identifies ha hb).1 hsa hsb
  refine ⟨ha, hb, ?_⟩
  rw [hhs, hht, htexts.2 hsame]

/-- A configuration with an integer that is too long is a configuration like others, and has
neither text nor hash. -/
theorem hash_of_long_field {n : ℤ} (hn : ¬n.natAbs < 10 ^ Numeric.decimalDigitLimit) :
    let a := Value.map noObject [(.text "a", .int n)]
    IsTree a ∧ SameUpToOrder a a ∧ (∀ s, Json.canonical a ≠ .ok s) ∧
      hash a = .error (.noText .numberTooLong) := by
  intro a
  have ha : IsTree a := by
    refine @IsTree.map noObject [("a", .int n)] (by simp) ?_
    simp only [List.forall_mem_cons]
    exact ⟨.plain trivial, List.forall_mem_nil _⟩
  have hlong : ¬IsShort a := fun h => hn (h n (.field List.mem_cons_self .int))
  obtain ⟨htext, hhash⟩ := hash_of_long ha hlong
  refine ⟨ha, .map (.refl _) ?_, fun s hs => ?_, hhash⟩
  · simp only [List.mem_singleton, forall_eq, forall_const]
    exact .atom _
  · rw [htext] at hs
    cases hs

/-- The least integer that is too long. -/
theorem no_hash_of_long_integer :
    let a := Value.map noObject [(.text "a", .int (10 ^ Numeric.decimalDigitLimit))]
    IsTree a ∧ SameUpToOrder a a ∧ (∀ s, Json.canonical a ≠ .ok s) ∧
      hash a = .error (.noText .numberTooLong) := by
  have hbase : Int.natAbs 10 = 10 := rfl
  refine hash_of_long_field ?_
  rw [Int.natAbs_pow, hbase]
  exact Nat.lt_irrefl _

end ScopedFn.Config
