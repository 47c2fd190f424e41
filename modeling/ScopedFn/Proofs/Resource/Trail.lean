import ScopedFn.Proofs.Resource.Annotated

/-!
# The way to an annotation

A key is set at the end of a path of keys. Of the maps that were there, those on the way change, and
all others stay as they are.

* `MapEntries.trail` : the maps on the way, each with the rest of the path;
* `MapEntries.exists_perm_putIn` : the other maps are the same afterwards;
* `MapEntries.mem_trail_putIn` : what becomes of the maps on the way;
* `MapEntries.field_putIn` : what is found along the path afterwards.
-/

set_option autoImplicit false

namespace ScopedFn

namespace Value

theorem field_of_ne_map {v : Value} (h : ∀ id es, v ≠ .map id es) (key : String) (path : List String) :
    v.field (key :: path) = .null := by
  cases v with
  | map id es => exact absurd rfl (h id es)
  | _ => rfl

end Value

namespace MapEntries

variable {fresh id id' : ObjectId} {key part : String} {v : Value} {parts route : List String}
  {es es' inner : MapEntries}

/-- The maps on a path of keys, each with what remains of the path. -/
def trail : List String → ObjectId → MapEntries → List (ObjectId × MapEntries × List String)
  | [], id, es => [(id, es, [])]
  | part :: parts, id, es =>
    (id, es, part :: parts) ::
      match mapAt? es part with
      | some (id', inner) => trail parts id' inner
      | none => []

/-- A map on the way, without the rest of the path. -/
def stop (t : ObjectId × MapEntries × List String) : ObjectId × MapEntries := (t.1, t.2.1)

/-! ### Along the path -/

theorem field_missing (hat : mapAt? es part = none) (path : List String) (hpath : path ≠ []) :
    (get es part).field path = .null := by
  obtain ⟨key, path, rfl⟩ := List.exists_cons_of_ne_nil hpath
  refine Value.field_of_ne_map (fun id inner heq => ?_) key path
  rw [mapAt?_eq_some.2 heq] at hat
  cases hat

theorem field_empty (id : ObjectId) (path : List String) (hpath : path ≠ []) :
    (Value.map id []).field path = .null := by
  obtain ⟨key, path, rfl⟩ := List.exists_cons_of_ne_nil hpath
  cases path <;> rfl

/-- The key has the value that it was set to. -/
theorem field_putIn (fresh : ObjectId) (key : String) (v : Value) (parts : List String) (id : ObjectId)
    (es : MapEntries) : (Value.map id (putIn fresh key v parts es)).field (parts ++ [key]) = v := by
  induction parts generalizing fresh id es with
  | nil => rw [putIn, List.nil_append, Value.field, get_put, if_pos rfl, Value.field]
  | cons part parts ih => rw [putIn, List.cons_append, Value.field, get_put, if_pos rfl, ih]

/-- Another key in the same map has the value that it had. -/
theorem field_putIn_ne {key' : String} (hkey : key ≠ key') (fresh : ObjectId) (v : Value)
    (parts : List String) (id : ObjectId) (es : MapEntries) :
    (Value.map id (putIn fresh key v parts es)).field (parts ++ [key']) =
      (Value.map id es).field (parts ++ [key']) := by
  induction parts generalizing fresh id es with
  | nil =>
    rw [putIn, List.nil_append, Value.field, get_put, if_neg hkey]
    rfl
  | cons part parts ih =>
    rw [putIn, List.cons_append, Value.field, Value.field, get_put, if_pos rfl, ih]
    cases hat : mapAt? es part with
    | some m => rw [Option.getD_some, mapAt?_eq_some.1 hat]
    | none => rw [field_missing hat _ (by simp), Option.getD_none, field_empty _ _ (by simp)]

/-- Keys beside the path have the values that they had. -/
theorem get_putIn {key' : String} (hkey : (parts ++ [key]).head? ≠ some key') :
    get (putIn fresh key v parts es) key' = get es key' := by
  cases parts with
  | nil =>
    rw [putIn, get_put, if_neg]
    simpa using hkey
  | cons part parts =>
    rw [putIn, get_put, if_neg]
    simpa using hkey

/-- From each map on the way, the rest of the path leads to the same value. -/
theorem field_of_mem_trail (h : (id', es', route) ∈ trail parts id es) (key : String) :
    (Value.map id' es').field (route ++ [key]) = (Value.map id es).field (parts ++ [key]) := by
  induction parts generalizing id es with
  | nil =>
    obtain ⟨rfl, rfl, rfl⟩ : id' = id ∧ es' = es ∧ route = [] := by
      simpa [trail] using h
    rfl
  | cons part parts ih =>
    rw [trail] at h
    obtain heq | hmem := List.mem_cons.1 h
    · obtain ⟨rfl, rfl, rfl⟩ : id' = id ∧ es' = es ∧ route = part :: parts := by simpa using heq
      rfl
    · cases hat : mapAt? es part with
      | none =>
        rw [hat] at hmem
        exact absurd hmem List.not_mem_nil
      | some m =>
        rw [hat] at hmem
        rw [ih hmem, List.cons_append, Value.field, mapAt?_eq_some.1 hat]

/-- What becomes of the maps on the way. -/
theorem mem_trail_putIn (h : (id', es', route) ∈ trail parts id es) (fresh : ObjectId) (key : String)
    (v : Value) : ∃ fresh', (id', putIn fresh' key v route es', route) ∈
      trail parts id (putIn fresh key v parts es) := by
  induction parts generalizing fresh id es with
  | nil =>
    obtain ⟨rfl, rfl, rfl⟩ : id' = id ∧ es' = es ∧ route = [] := by simpa [trail] using h
    exact ⟨fresh, List.mem_cons_self⟩
  | cons part parts ih =>
    rw [trail] at h
    obtain heq | hmem := List.mem_cons.1 h
    · obtain ⟨rfl, rfl, rfl⟩ : id' = id ∧ es' = es ∧ route = part :: parts := by simpa using heq
      exact ⟨fresh, List.mem_cons_self⟩
    · cases hat : mapAt? es part with
      | none =>
        rw [hat] at hmem
        exact absurd hmem List.not_mem_nil
      | some m =>
        rw [hat] at hmem
        obtain ⟨fresh', hin⟩ := ih hmem (fresh + 1)
        refine ⟨fresh', ?_⟩
        rw [trail, putIn, mapAt?_put, hat]
        exact List.mem_cons_of_mem _ hin

/-! ### Beside the path -/

theorem trail_nil (parts : List String) (id : ObjectId) : trail parts id [] = [(id, [], parts)] := by
  cases parts <;> rfl

/-- No map is lost when a key is set at the end of a path of keys. -/
def KeepsMaps (key : String) : List String → MapEntries → Prop
  | [], es => (get es key).maps = []
  | part :: parts, es =>
    match mapAt? es part with
    | some (_, inner) => KeepsMaps key parts inner
    | none => (get es part).maps = []

theorem keepsMaps_nil (key : String) (parts : List String) : KeepsMaps key parts [] := by
  cases parts <;> rfl

/-- What comes first inside may come first of all. -/
theorem perm_around {α : Type} {below way others : List α} (before after : List α)
    (h : below.Perm (way ++ others)) :
    (before ++ below ++ after).Perm (way ++ (before ++ others ++ after)) := by
  calc before ++ below ++ after
    _ = before ++ (below ++ after) := List.append_assoc _ _ _
    List.Perm _ (before ++ (way ++ others ++ after)) := (h.append_right after).append_left before
    _ = before ++ (way ++ (others ++ after)) := by rw [List.append_assoc way]
    List.Perm _ (way ++ (before ++ (others ++ after))) := List.perm_append_comm_assoc _ _ _
    _ = way ++ (before ++ others ++ after) := by rw [List.append_assoc before]

/-- The maps beside the way are the same afterwards. -/
theorem exists_perm_putIn (id : ObjectId) (hold : KeepsMaps key parts es) :
    ∃ others, (Value.map id es).maps.Perm ((trail parts id es).map stop ++ others) ∧
      ∀ (fresh : ObjectId) (v : Value), v.maps = [] →
        (Value.map id (putIn fresh key v parts es)).maps.Perm
          ((trail parts id (putIn fresh key v parts es)).map stop ++ others) := by
  induction parts generalizing id es with
  | nil =>
    obtain ⟨before, after, hes, hput⟩ := Value.exists_maps_put es key
    have hget : (get es key).maps = [] := hold
    refine ⟨before ++ after, ?_, fun fresh v hv => ?_⟩
    · rw [Value.maps, hes, hget, List.append_nil]
      rfl
    · rw [Value.maps, putIn, hput, hv, List.append_nil]
      rfl
  | cons part parts ih =>
    obtain ⟨before, after, hes, hput⟩ := Value.exists_maps_put es part
    rw [KeepsMaps] at hold
    cases hat : mapAt? es part with
    | some m =>
      obtain ⟨id', inner⟩ := m
      rw [hat] at hold
      obtain ⟨others, hbelow, hafter⟩ := ih id' hold
      refine ⟨before ++ others ++ after, ?_, fun fresh v hv => ?_⟩
      · rw [Value.maps, hes, mapAt?_eq_some.1 hat, trail, hat, List.map_cons, List.cons_append]
        exact (perm_around before after hbelow).cons _
      · rw [Value.maps, trail, putIn, hput, mapAt?_put, hat, List.map_cons, List.cons_append]
        exact (perm_around before after (hafter (fresh + 1) v hv)).cons _
    | none =>
      rw [hat] at hold
      refine ⟨before ++ after, ?_, fun fresh v hv => ?_⟩
      · rw [Value.maps, hes, hold, trail, hat, List.append_nil]
        rfl
      · -- all maps that were missing are on the way
        obtain ⟨others, hbelow, hafter⟩ := ih fresh (keepsMaps_nil key parts)
        have hnil : others = [] := by
          have hlength := hbelow.length_eq
          rw [trail_nil] at hlength
          simpa [Value.maps, Value.mapsOfEntries] using hlength
        subst hnil
        rw [Value.maps, trail, putIn, hput, mapAt?_put, hat, List.map_cons, List.cons_append]
        have hperm := perm_around before after (hafter (fresh + 1) v hv)
        rw [List.append_nil] at hperm
        exact hperm.cons _

/-- A key set in the same map before makes no difference to that. -/
theorem KeepsMaps.putIn {key' : String} (hkey : key ≠ key') (h : KeepsMaps key' parts es)
    (fresh : ObjectId) (v : Value) : KeepsMaps key' parts (putIn fresh key v parts es) := by
  induction parts generalizing fresh es with
  | nil =>
    show (get (Entries.put Atom.same (.text key) v es) key').maps = []
    rw [get_put, if_neg hkey]
    exact h
  | cons part parts ih =>
    rw [MapEntries.putIn, KeepsMaps, mapAt?_put]
    refine ih ?_ (fresh + 1)
    rw [KeepsMaps] at h
    cases hat : mapAt? es part with
    | some m => rwa [hat] at h
    | none => exact keepsMaps_nil key' parts

/-! ### The end of the way -/

theorem suffix_of_mem_trail {t : ObjectId × MapEntries × List String} (h : t ∈ trail parts id es) :
    t.2.2 <:+ parts := by
  induction parts generalizing id es with
  | nil =>
    obtain rfl := List.mem_singleton.1 h
    exact List.suffix_rfl
  | cons part parts ih =>
    rw [trail] at h
    obtain rfl | hmem := List.mem_cons.1 h
    · exact List.suffix_rfl
    · cases hat : mapAt? es part with
      | none =>
        rw [hat] at hmem
        exact absurd hmem List.not_mem_nil
      | some m =>
        rw [hat] at hmem
        exact (ih hmem).trans (List.suffix_cons part parts)

/-- The way ends at the map that is edited, and only there with the same rest of the path. -/
theorem exists_trail_eq (parts : List String) (id : ObjectId) (es : MapEntries) :
    ∃ before es' route, trail parts id es = before ++ [(innermost parts id es, es', route)] ∧
      ∀ t ∈ before, t.2.2 ≠ route := by
  induction parts generalizing id es with
  | nil => exact ⟨[], es, [], rfl, fun t ht => absurd ht List.not_mem_nil⟩
  | cons part parts ih =>
    rw [trail, innermost]
    cases hat : mapAt? es part with
    | none => exact ⟨[], es, part :: parts, rfl, fun t ht => absurd ht List.not_mem_nil⟩
    | some m =>
      obtain ⟨before, es', route, htrail, hbefore⟩ := ih m.1 m.2
      refine ⟨(id, es, part :: parts) :: before, es', route, ?_, ?_⟩
      · exact congrArg ((id, es, part :: parts) :: ·) htrail
      · refine List.forall_mem_cons.2 ⟨fun heq => ?_, hbefore⟩
        have hmem : (innermost parts m.1 m.2, es', route) ∈ trail parts m.1 m.2 := by
          rw [htrail]
          simp
        have hlength := (suffix_of_mem_trail hmem).length_le
        rw [← show part :: parts = route from heq, List.length_cons] at hlength
        exact absurd hlength (Nat.not_succ_le_self _)

end MapEntries

end ScopedFn
