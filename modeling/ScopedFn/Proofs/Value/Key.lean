import Mathlib.Data.List.Forall2
import ScopedFn.Proofs.Numeric.Number
import ScopedFn.Proofs.Value.Renaming

/-!
# One key in several spellings

Numbers of all kinds are one key if they denote the same, and so are times that are one instant. Being
one key is symmetric and transitive, so all spellings of a key find the same entry of a map. What is
no key at all, not even the same as itself, is a not-a-number in the place of a number only.

* `Atom.same_comm`, `Atom.same_trans` : being one key;
* `MapEntries.find?_congr` : another spelling finds the same entry;
* `MapEntries.find?_put` : what is found after a key is set;
* `MapEntries.Keyed` : the keys of a map differ, and each is the same as itself;
* `MapEntries.Keyed.ext` : such entries are known by their keys and by what is found.
-/

set_option autoImplicit false

namespace ScopedFn

namespace Atom

variable {a b c : Atom}

/-- The number that an atom is. -/
def number? : Atom → Option (ℚ ⊕ Bool)
  | .bool b => some (.inl (if b then 1 else 0 : ℤ))
  | .int n => some (.inl n)
  | .float x => x.number?
  | _ => none

/-- The atom has the form of a number. -/
def IsNumeric : Atom → Prop
  | .bool _ | .int _ | .float _ => True
  | _ => False

/-- **Numbers are one key iff they denote the same.** -/
theorem same_iff_of_isNumeric (ha : a.IsNumeric) :
    a.same b = true ↔ ∃ d, a.number? = some d ∧ b.number? = some d := by
  cases a with
  | bool p =>
    cases b <;> simp [same, integer?, number?, Binary64.eqInt_iff, -Int.cast_ite] <;> exact eq_comm
  | int n =>
    cases b <;> simp [same, integer?, number?, Binary64.eqInt_iff, -Int.cast_ite] <;> exact eq_comm
  | float x =>
    cases b <;> simp [same, integer?, number?, Binary64.eqInt_iff, Binary64.eq_iff, -Int.cast_ite]
  | _ => exact absurd ha not_false

theorem isNumeric_of_number? {d : ℚ ⊕ Bool} (h : a.number? = some d) : a.IsNumeric := by
  cases a <;> simp [number?, IsNumeric] at h ⊢

theorem sameAll_symm {as bs : List Atom} (h : sameAll as bs = true)
    (ih : ∀ a ∈ as, ∀ b, a.same b = true → b.same a = true) : sameAll bs as = true := by
  induction as generalizing bs with
  | nil => cases bs <;> simp_all [sameAll]
  | cons a as hrec =>
    obtain ⟨hhead, htail⟩ := List.forall_mem_cons.1 ih
    cases bs with
    | nil => simp [sameAll] at h
    | cons b bs =>
      rw [sameAll, Bool.and_eq_true] at h ⊢
      exact ⟨hhead b h.1, hrec h.2 htail⟩

theorem sameAll_trans {as bs cs : List Atom} (h : sameAll as bs = true) (h' : sameAll bs cs = true)
    (ih : ∀ a ∈ as, ∀ b c, a.same b = true → b.same c = true → a.same c = true) :
    sameAll as cs = true := by
  induction as generalizing bs cs with
  | nil =>
    cases bs with
    | nil => exact h'
    | cons b bs => simp [sameAll] at h
  | cons a as hrec =>
    obtain ⟨hhead, htail⟩ := List.forall_mem_cons.1 ih
    cases bs with
    | nil => simp [sameAll] at h
    | cons b bs =>
      cases cs with
      | nil => simp [sameAll] at h'
      | cons c cs =>
        rw [sameAll, Bool.and_eq_true] at h h' ⊢
        exact ⟨hhead b c h.1 h'.1, hrec h.2 h'.2 htail⟩

theorem sameInstant_comm (t u : DateTime) : t.sameInstant u = u.sameInstant t := by
  unfold DateTime.sameInstant
  cases t.offset <;> cases u.offset <;> simp [BEq.comm]

theorem sameInstant_trans {t u v : DateTime} (h : t.sameInstant u = true)
    (h' : u.sameInstant v = true) : t.sameInstant v = true := by
  unfold DateTime.sameInstant at *
  cases ht : t.offset <;> cases hu : u.offset <;> cases hv : v.offset <;> simp_all

/-- What is one key with a number is a number. -/
theorem isNumeric_iff_of_same (h : a.same b = true) : a.IsNumeric ↔ b.IsNumeric := by
  cases a <;> cases b <;> simp_all [same, integer?, IsNumeric]

theorem same_symm (h : a.same b = true) : b.same a = true := by
  induction a using Atom.induction generalizing b with
  | scalar a ha =>
    by_cases hnumeric : a.IsNumeric
    · obtain ⟨d, ha, hb⟩ := (same_iff_of_isNumeric hnumeric).1 h
      exact (same_iff_of_isNumeric (isNumeric_of_number? hb)).2 ⟨d, hb, ha⟩
    · -- only two of a kind are one key
      cases a <;> cases b <;> simp_all [same, integer?, IsNumeric, sameInstant_comm]
  | tuple i as ih =>
    cases b with
    | tuple j bs => exact sameAll_symm h fun a ha b => ih a ha
    | _ => simp [same, integer?] at h

/-- Being one key does not depend on the order. -/
theorem same_comm (a b : Atom) : a.same b = b.same a := Bool.eq_iff_iff.2 ⟨same_symm, same_symm⟩

theorem same_trans (h : a.same b = true) (h' : b.same c = true) : a.same c = true := by
  induction a using Atom.induction generalizing b c with
  | scalar a ha =>
    by_cases hnumeric : a.IsNumeric
    · obtain ⟨d, ha, hb⟩ := (same_iff_of_isNumeric hnumeric).1 h
      obtain ⟨d', hb', hc⟩ := (same_iff_of_isNumeric ((isNumeric_iff_of_same h).1 hnumeric)).1 h'
      obtain rfl := Option.some.inj (hb.symm.trans hb')
      exact (same_iff_of_isNumeric hnumeric).2 ⟨d, ha, hc⟩
    · cases a <;> cases b <;> simp [same, integer?] at h <;> cases c <;>
        simp_all [same, integer?, IsNumeric]
      exact sameInstant_trans h h'
  | tuple i as ih =>
    cases b with
    | tuple j bs =>
      cases c with
      | tuple k cs => exact sameAll_trans h h' fun a ha b c => ih a ha
      | _ => simp [same, integer?] at h'
    | _ => simp [same, integer?] at h

/-- Another spelling is one key with the same atoms. -/
theorem same_congr (h : a.same b = true) (c : Atom) : c.same a = c.same b :=
  Bool.eq_iff_iff.2 ⟨fun hc => same_trans hc h, fun hc => same_trans hc (same_symm h)⟩

end Atom

namespace MapEntries

open Entries (find? put)

variable {es fs : MapEntries} {k l : Atom} {v w : Value}

/-! ### Keys that are found -/

/-- Another spelling finds the same entry. -/
theorem find?_congr (h : k.same l = true) (es : MapEntries) :
    find? Atom.same k es = find? Atom.same l es := by
  induction es with
  | nil => rfl
  | cons e es ih => rw [find?, find?, Atom.same_congr h, ih]

/-- What is found after a key is set: its value, under all spellings of the key, and for other keys
what was found before. -/
theorem find?_put (hk : k.same k = true) (v : Value) (es : MapEntries) (l : Atom) :
    find? Atom.same l (put Atom.same k v es) =
      if k.same l then some v else find? Atom.same l es := by
  split_ifs with hl
  · rw [← find?_congr hl, Entries.find?_put_self hk]
  · refine Entries.find?_put_ne (fun key hkey => ?_) (by simpa using hl) es
    rw [← Bool.not_eq_true, Atom.same_comm]
    exact fun h => hl (Atom.same_comm l k ▸ Atom.same_trans h hkey)

theorem exists_mem_of_find? (h : find? Atom.same k es = some v) :
    ∃ key, (key, v) ∈ es ∧ key.same k = true := by
  induction es with
  | nil => cases h
  | cons e es ih =>
    rw [find?] at h
    split at h
    · next hkey =>
      obtain rfl := Option.some.inj h
      exact ⟨e.1, List.mem_cons_self, hkey⟩
    · obtain ⟨key, hmem, hkey⟩ := ih h
      exact ⟨key, List.mem_cons_of_mem _ hmem, hkey⟩

theorem find?_eq_none_iff : find? Atom.same k es = none ↔ ∀ e ∈ es, e.1.same k = false := by
  induction es with
  | nil => simp [find?]
  | cons e es ih =>
    rw [find?, List.forall_mem_cons, ← ih]
    split <;> simp_all

/-! ### Maps whose keys differ -/

/-- The keys differ, and each is the same as itself. -/
structure Keyed (es : MapEntries) : Prop where
  /-- Each key is the same as itself. -/
  self : ∀ e ∈ es, e.1.same e.1 = true
  /-- No two entries have one key. -/
  distinct : es.Pairwise fun e f => e.1.same f.1 = false

theorem keyed_nil : Keyed [] := ⟨nofun, .nil⟩

theorem keyed_cons {e : Atom × Value} :
    Keyed (e :: es) ↔ e.1.same e.1 = true ∧ find? Atom.same e.1 es = none ∧ Keyed es := by
  rw [find?_eq_none_iff]
  constructor
  · rintro ⟨hself, hdistinct⟩
    obtain ⟨he, hes⟩ := List.forall_mem_cons.1 hself
    obtain ⟨hdiff, hrest⟩ := List.pairwise_cons.1 hdistinct
    exact ⟨he, fun f hf => Atom.same_comm f.1 e.1 ▸ hdiff f hf, hes, hrest⟩
  · rintro ⟨he, hdiff, hes⟩
    exact ⟨List.forall_mem_cons.2 ⟨he, hes.self⟩,
      List.pairwise_cons.2 ⟨fun f hf => Atom.same_comm f.1 e.1 ▸ hdiff f hf, hes.distinct⟩⟩

/-- Whether the keys differ is a matter of the keys. -/
theorem Keyed.of_keys (h : Keyed es) (hkeys : es.map (·.1) = fs.map (·.1)) : Keyed fs := by
  have hself : ∀ k ∈ es.map (·.1), k.same k = true := List.forall_mem_map.2 h.self
  have hdistinct : (es.map (·.1)).Pairwise fun k l => k.same l = false := List.pairwise_map.2 h.distinct
  rw [hkeys] at hself hdistinct
  exact ⟨List.forall_mem_map.1 hself, List.pairwise_map.1 hdistinct⟩

theorem Keyed.put (h : Keyed es) (hk : k.same k = true) (v : Value) :
    Keyed (put Atom.same k v es) := by
  induction es with
  | nil => exact keyed_cons.2 ⟨hk, rfl, keyed_nil⟩
  | cons e es ih =>
    obtain ⟨he, hnew, hes⟩ := keyed_cons.1 h
    rw [Entries.put]
    split
    · exact keyed_cons.2 ⟨he, hnew, hes⟩
    · next hne =>
      refine keyed_cons.2 ⟨he, ?_, ih hes⟩
      rw [find?_put hk, if_neg (Atom.same_comm k e.1 ▸ hne), hnew]

/-- Each entry is found. -/
theorem Keyed.find?_of_mem (h : Keyed es) (hmem : (k, v) ∈ es) : find? Atom.same k es = some v := by
  induction es with
  | nil => cases hmem
  | cons e es ih =>
    obtain ⟨he, hnew, hes⟩ := keyed_cons.1 h
    rw [find?]
    rcases List.mem_cons.1 hmem with rfl | hmem
    · rw [if_pos he]
    · have hne := find?_eq_none_iff.1 hnew _ hmem
      rw [if_neg (by simpa [Atom.same_comm] using hne), ih hes hmem]

/-- **Maps are known by their keys and by what is found under them.** -/
theorem Keyed.ext (h : Keyed es) (hkeys : es.map (·.1) = fs.map (·.1))
    (hfind : ∀ e ∈ es, find? Atom.same e.1 es = find? Atom.same e.1 fs) : es = fs := by
  have hfs := h.of_keys hkeys
  refine List.ext_getElem (by simpa using congrArg List.length hkeys) fun n hn hn' => ?_
  have hkey : es[n].1 = fs[n].1 := by
    simpa [List.getElem?_eq_getElem hn, List.getElem?_eq_getElem hn'] using
      congrArg (fun keys => keys[n]?) hkeys
  have hleft : find? Atom.same es[n].1 es = some es[n].2 := h.find?_of_mem (List.getElem_mem hn)
  have hright : find? Atom.same fs[n].1 fs = some fs[n].2 := hfs.find?_of_mem (List.getElem_mem hn')
  have hboth := hfind es[n] (List.getElem_mem hn)
  rw [hleft, hkey, hright] at hboth
  exact Prod.ext hkey (Option.some.inj hboth)

end MapEntries

end ScopedFn
