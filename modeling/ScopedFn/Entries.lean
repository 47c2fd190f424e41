/-!
# Ordered entries

A list of key-value pairs used as a map that remembers insertion order. Which keys count as one
key is decided by a relation `same`, so that several spellings can share one entry.

* `put` replaces the value of an existing key where it stands, keeping the key's first spelling,
  and appends a new key at the end;
* `erase` removes a key; `find?` looks one up;
* `find?_put_self`, `find?_put_ne` and `map_fst_put` say what setting a key does to values and to
  the order of keys, `erase_sublist` that removing one moves none.
-/

set_option autoImplicit false

namespace ScopedFn.Entries

variable {κ α : Type} (same : κ → κ → Bool)

/-- The value of a key. -/
def find? (k : κ) : List (κ × α) → Option α
  | [] => none
  | (key, a) :: es => if same key k then some a else find? k es

/-- Whether a key has an entry. -/
def has (k : κ) (es : List (κ × α)) : Bool := (find? same k es).isSome

/-- Sets the value of a key. -/
def put (k : κ) (a : α) : List (κ × α) → List (κ × α)
  | [] => [(k, a)]
  | (key, b) :: es => if same key k then (key, a) :: es else (key, b) :: put k a es

/-- Removes a key. -/
def erase (k : κ) : List (κ × α) → List (κ × α)
  | [] => []
  | (key, b) :: es => if same key k then es else (key, b) :: erase k es

/-- Sets the entries of the second list one after the other. -/
def putAll (es new : List (κ × α)) : List (κ × α) :=
  new.foldl (fun acc e => put same e.1 e.2 acc) es

/-- A list of pairs as a map: of equal keys the first spelling and the last value stay. -/
def ofPairs (pairs : List (κ × α)) : List (κ × α) := putAll same [] pairs

variable {same} {k : κ} {a : α}

/-- A key has the value that it was set to. -/
theorem find?_put_self (h : same k k = true) (es : List (κ × α)) :
    find? same k (put same k a es) = some a := by
  induction es with
  | nil => simp [put, find?, h]
  | cons e es ih => by_cases hk : same e.1 k <;> simp [put, find?, hk, ih]

/-- Other keys keep their values, if no spelling of the key that is set is one of theirs. -/
theorem find?_put_ne {l : κ} (h : ∀ key, same key k = true → same key l = false)
    (hself : same k l = false) (es : List (κ × α)) :
    find? same l (put same k a es) = find? same l es := by
  induction es with
  | nil => simp [put, find?, hself]
  | cons e es ih => by_cases hk : same e.1 k <;> simp [put, find?, hk, ih, h]

/-- Setting a key keeps the order of keys; a new key comes last. -/
theorem map_fst_put (es : List (κ × α)) :
    (put same k a es).map (·.1) =
      if has same k es then es.map (·.1) else es.map (·.1) ++ [k] := by
  induction es with
  | nil => simp [put, has, find?]
  | cons e es ih =>
    by_cases hk : same e.1 k
    · simp [put, has, find?, hk]
    · simp only [has] at ih
      simp only [put, has, find?, hk, Bool.false_eq_true, ↓reduceIte, List.map_cons, ih]
      by_cases hf : (find? same k es).isSome <;> simp [hf]

section Forall

variable {P : κ → Prop} {Q : α → Prop}

/-- Keys and values have a property if those that are set have it. -/
theorem forall_put {es : List (κ × α)} (hk : P k) (ha : Q a) (h : ∀ p ∈ es, P p.1 ∧ Q p.2) :
    ∀ p ∈ put same k a es, P p.1 ∧ Q p.2 := by
  induction es with
  | nil =>
    intro p hp
    obtain rfl := List.mem_singleton.1 hp
    exact ⟨hk, ha⟩
  | cons e es ih =>
    obtain ⟨he, hes⟩ := List.forall_mem_cons.1 h
    rw [put]
    split
    · exact List.forall_mem_cons.2 ⟨⟨he.1, ha⟩, hes⟩
    · exact List.forall_mem_cons.2 ⟨he, ih hes⟩

theorem forall_putAll {es new : List (κ × α)} (h : ∀ p ∈ es, P p.1 ∧ Q p.2)
    (hnew : ∀ p ∈ new, P p.1 ∧ Q p.2) : ∀ p ∈ putAll same es new, P p.1 ∧ Q p.2 := by
  induction new generalizing es with
  | nil => exact h
  | cons e new ih =>
    obtain ⟨he, hnew⟩ := List.forall_mem_cons.1 hnew
    exact ih (forall_put he.1 he.2 h) hnew

theorem forall_ofPairs {pairs : List (κ × α)} (h : ∀ p ∈ pairs, P p.1 ∧ Q p.2) :
    ∀ p ∈ ofPairs same pairs, P p.1 ∧ Q p.2 :=
  forall_putAll (fun _ hp => absurd hp List.not_mem_nil) h

end Forall

/-- Removing a key leaves all other entries in their order. -/
theorem erase_sublist (es : List (κ × α)) : (erase same k es).Sublist es := by
  induction es with
  | nil => exact .slnil
  | cons e es ih =>
    by_cases hk : same e.1 k
    · simp [erase, hk]
    · simpa [erase, hk] using ih

end ScopedFn.Entries
