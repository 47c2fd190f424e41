import Mathlib.Data.List.Basic
import Mathlib.Data.List.Nodup
import Mathlib.Tactic.SplitIfs
import ScopedFn.Environment

/-!
# The variables of a process

Variables are laid over others one after the other. The last text of a name counts, and the name
stands where it came up first.

* `TextMap.last?`, `TextMap.newNames` : what counts of a list of pairs, and in which order;
* `TextMap.get?_putAll`, `TextMap.keys_putAll` : pairs that are laid over a text map;
* `Environment.get?_build`, `Environment.keys_build` : the variables of a process.
-/

set_option autoImplicit false

namespace ScopedFn

open Entries (putAll ofPairs)

namespace TextMap

variable {m m' pairs : TextMap} {name key value : String} {seen seen' names : List String}

/-- The last text of a name in a list of pairs. -/
def last? : TextMap → String → Option String
  | [], _ => none
  | (key, value) :: pairs, name => (last? pairs name).or (if key = name then some value else none)

/-- The names of a list that are none of those seen before, each where it comes up first. -/
def newNames (seen : List String) : List String → List String
  | [] => []
  | name :: names =>
    if name ∈ seen then newNames seen names else name :: newNames (seen ++ [name]) names

/-! ### Texts -/

theorem last?_append (m m' : TextMap) (name : String) :
    last? (m ++ m') name = (last? m' name).or (last? m name) := by
  induction m with
  | nil => rw [List.nil_append, last?, Option.or_none]
  | cons p m ih => rw [List.cons_append, last?, last?, ih, Option.or_assoc]

theorem last?_eq_none (h : name ∉ m.keys) : m.last? name = none := by
  induction m with
  | nil => rfl
  | cons p m ih =>
    obtain ⟨hne, hrest⟩ := not_or.1 fun hor => h (List.mem_cons.2 hor)
    rw [last?, ih hrest, Option.none_or, if_neg fun heq => hne heq.symm]

/-- Pairs without this name make no difference. -/
theorem last?_filter {p : String × String → Bool} (h : ∀ e ∈ m, e.1 = name → p e = true) :
    last? (m.filter p) name = last? m name := by
  induction m with
  | nil => rfl
  | cons e m ih =>
    obtain ⟨he, hm⟩ := List.forall_mem_cons.1 h
    rw [List.filter_cons, last?]
    split
    · rw [last?, ih hm]
    · next hp => rw [ih hm, if_neg fun heq => hp (he heq), Option.or_none]

theorem get?_put (m : TextMap) (key value name : String) :
    get? (m.put key value) name = if key = name then some value else m.get? name := by
  unfold get? put
  split_ifs with h
  · rw [h, Entries.find?_put_self (beq_self_eq_true name)]
  · have hne : (key == name) = false := by simpa using h
    refine Entries.find?_put_ne (fun a ha => ?_) hne m
    rwa [eq_of_beq ha]

/-- The last text that is laid over counts. -/
theorem get?_putAll (m pairs : TextMap) (name : String) :
    get? (putAll (· == ·) m pairs) name = (last? pairs name).or (m.get? name) := by
  induction pairs generalizing m with
  | nil => rfl
  | cons p pairs ih =>
    refine (ih (TextMap.put m p.1 p.2)).trans ?_
    rw [get?_put, last?, Option.or_assoc]
    split_ifs <;> rfl

theorem last?_eq_get? (h : m.keys.Nodup) (name : String) : m.last? name = m.get? name := by
  induction m with
  | nil => rfl
  | cons p m ih =>
    obtain ⟨hnew, hrest⟩ := List.nodup_cons.1 h
    rw [last?, ih hrest, get?, get?, Entries.find?]
    split_ifs with hp hbeq hbeq
    · have hnone : last? m name = none := last?_eq_none (by rw [← hp]; exact hnew)
      rw [← get?, ← ih hrest, hnone, Option.none_or]
    · exact absurd (beq_iff_eq.2 hp) hbeq
    · exact absurd (beq_iff_eq.1 hbeq) hp
    · rw [Option.or_none]

/-! ### Names -/

theorem mem_keys_iff : name ∈ m.keys ↔ Entries.has (· == ·) name m = true := by
  unfold Entries.has
  induction m with
  | nil => exact iff_of_false List.not_mem_nil Bool.false_ne_true
  | cons p m ih =>
    rw [keys, List.map_cons, List.mem_cons, ← keys, ih, Entries.find?]
    by_cases hp : p.1 = name
    · simp [hp]
    · simp [hp, Ne.symm hp]

theorem keys_put (m : TextMap) (key value : String) :
    keys (m.put key value) = if key ∈ m.keys then m.keys else m.keys ++ [key] := by
  rw [keys, put, Entries.map_fst_put, ← keys]
  simp only [mem_keys_iff]

/-- New names follow in the order in which they come up. -/
theorem keys_putAll (m pairs : TextMap) :
    keys (putAll (· == ·) m pairs) = m.keys ++ newNames m.keys pairs.keys := by
  induction pairs generalizing m with
  | nil => exact (List.append_nil _).symm
  | cons p pairs ih =>
    refine (ih (TextMap.put m p.1 p.2)).trans ?_
    have hkeys : keys (p :: pairs) = p.1 :: keys pairs := rfl
    rw [keys_put, hkeys, newNames]
    split_ifs
    · rfl
    · rw [List.append_assoc, List.singleton_append]

theorem mem_newNames : name ∈ newNames seen names ↔ name ∈ names ∧ name ∉ seen := by
  induction names generalizing seen with
  | nil => simp [newNames]
  | cons n names ih =>
    rw [newNames]
    split_ifs with hn
    · rw [ih, List.mem_cons]
      refine and_congr_left fun hname => (or_iff_right ?_).symm
      rintro rfl
      exact hname hn
    · rw [List.mem_cons, ih, List.mem_cons, List.mem_append, List.mem_singleton]
      by_cases hname : name = n
      · simp [hname, hn]
      · simp [hname]

theorem nodup_append_newNames (h : seen.Nodup) (names : List String) :
    (seen ++ newNames seen names).Nodup := by
  induction names generalizing seen with
  | nil => rwa [newNames, List.append_nil]
  | cons n names ih =>
    rw [newNames]
    split_ifs with hn
    · exact ih h
    · have hone : (seen ++ [n]).Nodup := by
        refine List.nodup_append.2 ⟨h, List.nodup_singleton n, fun a ha b hb => ?_⟩
        rw [List.mem_singleton.1 hb]
        rintro rfl
        exact hn ha
      have hrest := ih hone
      rwa [List.append_assoc, List.singleton_append] at hrest

/-- It does not matter in which order names were seen. -/
theorem newNames_congr (h : ∀ n, n ∈ seen ↔ n ∈ seen') (names : List String) :
    newNames seen names = newNames seen' names := by
  induction names generalizing seen seen' with
  | nil => rfl
  | cons n names ih =>
    have hmore : ∀ k, k ∈ seen ++ [n] ↔ k ∈ seen' ++ [n] := fun k => by
      rw [List.mem_append, List.mem_append, h]
    rw [newNames, newNames, ih h, ih hmore]
    simp only [h]

/-- Names that have been seen make no difference. -/
theorem newNames_filter {p : String → Bool} (h : ∀ n ∈ names, p n = false → n ∈ seen) :
    newNames seen (names.filter p) = newNames seen names := by
  induction names generalizing seen with
  | nil => rfl
  | cons n names ih =>
    obtain ⟨hn, hnames⟩ := List.forall_mem_cons.1 h
    have hlater : ∀ k ∈ names, p k = false → k ∈ seen ++ [n] := fun k hk hp =>
      List.mem_append_left _ (hnames k hk hp)
    rw [List.filter_cons, newNames]
    split_ifs with hp hmem hmem
    · rw [newNames, if_pos hmem, ih hnames]
    · rw [newNames, if_neg hmem, ih hlater]
    · exact ih hnames
    · exact absurd (hn (by simpa using hp)) hmem

theorem newNames_append (seen names names' : List String) :
    newNames seen (names ++ names') =
      newNames seen names ++ newNames (seen ++ newNames seen names) names' := by
  induction names generalizing seen with
  | nil => rw [List.nil_append, newNames, List.nil_append, List.append_nil]
  | cons n names ih =>
    rw [List.cons_append, newNames, newNames]
    split_ifs
    · exact ih seen
    · rw [ih, List.cons_append, List.append_assoc, List.singleton_append]

/-- New names that were picked before can be picked again, when more has been seen. -/
theorem newNames_newNames (h : seen ⊆ seen') (names : List String) :
    newNames seen' (newNames seen names) = newNames seen' names := by
  induction names generalizing seen seen' with
  | nil => rfl
  | cons n names ih =>
    rw [newNames, newNames]
    split_ifs with hn hn' hn'
    · exact ih h
    · exact absurd (h hn) hn'
    · rw [newNames, if_pos hn']
      refine ih fun k hk => ?_
      obtain hk | hk := List.mem_append.1 hk
      · exact h hk
      · rwa [List.mem_singleton.1 hk]
    · rw [newNames, if_neg hn', ih]
      intro k hk
      obtain hk | hk := List.mem_append.1 hk
      · exact List.mem_append_left _ (h hk)
      · exact List.mem_append_right _ hk

end TextMap

namespace Environment

open TextMap (last? newNames)

/-- The variables of the snapshot that have names, in order. -/
def snapshotNames (snapshot : TextMap) : List String :=
  newNames [] (snapshot.keys.filter fun name => name != "")

/-- What a variable is: what the signals say, else what the fixed signals say, else what it is in
the snapshot. -/
theorem get?_build (snapshot signals : TextMap) (name : String) :
    (build snapshot signals).get? name = (last? signals name).or ((last? fixedSignals name).or
      (if name = "" then none else last? snapshot name)) := by
  have hnamed : last? (snapshot.filter fun e => e.1 != "") name =
      if name = "" then none else last? snapshot name := by
    split_ifs with hname
    · refine TextMap.last?_eq_none fun hmem => ?_
      obtain ⟨e, he, rfl⟩ := List.mem_map.1 hmem
      simp [hname] at he
    · exact TextMap.last?_filter fun e _ he => by simpa [he] using hname
  rw [build, TextMap.get?_putAll, TextMap.get?_putAll, ofPairs, TextMap.get?_putAll]
  refine congrArg _ (congrArg _ ?_)
  exact (Option.or_none).trans hnamed

/-- In which order the variables come: those of the snapshot, the fixed signals that are missing,
the other signals. -/
theorem keys_build (snapshot signals : TextMap) :
    (build snapshot signals).keys = snapshotNames snapshot ++
      newNames (snapshotNames snapshot) fixedSignals.keys ++
        newNames (snapshotNames snapshot ++ fixedSignals.keys) signals.keys := by
  have hnamed : TextMap.keys (ofPairs (· == ·) (snapshot.filter fun e => e.1 != "")) =
      snapshotNames snapshot := by
    rw [ofPairs, TextMap.keys_putAll, snapshotNames, TextMap.keys, TextMap.keys, TextMap.keys,
      List.filter_map]
    rfl
  rw [build, TextMap.keys_putAll, TextMap.keys_putAll, hnamed]
  refine congrArg _ (TextMap.newNames_congr (fun n => ?_) _)
  rw [List.mem_append, List.mem_append, TextMap.mem_newNames]
  tauto

theorem nodup_keys_build (snapshot signals : TextMap) : (build snapshot signals).keys.Nodup := by
  rw [build, TextMap.keys_putAll, TextMap.keys_putAll, ofPairs, TextMap.keys_putAll]
  exact TextMap.nodup_append_newNames (TextMap.nodup_append_newNames
    (TextMap.nodup_append_newNames List.nodup_nil _) _) _

end Environment

end ScopedFn
