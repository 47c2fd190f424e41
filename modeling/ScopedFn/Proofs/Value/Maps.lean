import ScopedFn.Proofs.Value.Objects

/-!
# The maps in a value, with their entries

* `Value.maps` : every place where a map stands in a value, with the entries that it has there;
* `Coherent` : a map has the same entries wherever it stands;
* `MapEntries.exists_split` : entries around a key that has a value;
* `Value.exists_maps_put` : setting a key exchanges the maps of one value for those of another.
-/

set_option autoImplicit false

namespace ScopedFn

/-- Maps with one identity have the same entries. -/
def Coherent (ms : List (ObjectId × MapEntries)) : Prop :=
  ∀ m ∈ ms, ∀ m' ∈ ms, m.1 = m'.1 → m = m'

namespace Value

mutual

/-- The maps in a value, each as often as it stands there. -/
def maps : Value → List (ObjectId × MapEntries)
  | .atom _ | .set _ _ => []
  | .list _ items | .tuple _ items => mapsOfItems items
  | .map id es => (id, es) :: mapsOfEntries es

/-- The maps in some items. -/
def mapsOfItems : List Value → List (ObjectId × MapEntries)
  | [] => []
  | v :: vs => maps v ++ mapsOfItems vs

/-- The maps in the values of some entries. -/
def mapsOfEntries : List (Atom × Value) → List (ObjectId × MapEntries)
  | [] => []
  | (_, v) :: es => maps v ++ mapsOfEntries es

end

variable {id : ObjectId} {v : Value} {vs : List Value} {es fs : MapEntries} {e : Edit}
  {m : ObjectId × MapEntries}

theorem mapsOfItems_eq (vs : List Value) : mapsOfItems vs = vs.flatMap maps := by
  induction vs with
  | nil => rfl
  | cons v vs ih => rw [mapsOfItems, ih, List.flatMap_cons]

theorem mapsOfEntries_eq (es : MapEntries) : mapsOfEntries es = es.flatMap fun p => p.2.maps := by
  induction es with
  | nil => rfl
  | cons p es ih => rw [mapsOfEntries, ih, List.flatMap_cons]

theorem mem_mapsOfItems : m ∈ mapsOfItems vs ↔ ∃ v ∈ vs, m ∈ v.maps := by
  rw [mapsOfItems_eq, List.mem_flatMap]

theorem mem_mapsOfEntries : m ∈ mapsOfEntries es ↔ ∃ p ∈ es, m ∈ p.2.maps := by
  rw [mapsOfEntries_eq, List.mem_flatMap]

theorem objectsOfItems_eq (vs : List Value) : objectsOfItems vs = vs.flatMap objects := by
  induction vs with
  | nil => rfl
  | cons v vs ih => rw [objectsOfItems, ih, List.flatMap_cons]

theorem objectsOfEntries_eq (es : MapEntries) :
    objectsOfEntries es = es.flatMap fun p => p.2.objects := by
  induction es with
  | nil => rfl
  | cons p es ih => rw [objectsOfEntries, ih, List.flatMap_cons]

/-- The identities of the maps, without their entries. -/
theorem map_fst_maps (v : Value) : v.maps.map Prod.fst = v.objects := by
  induction v using Value.induction with
  | atom a => rfl
  | set id ms => rfl
  | list id items ih =>
    rw [maps, objects, mapsOfItems_eq, objectsOfItems_eq, List.map_flatMap]
    exact List.flatMap_congr ih
  | tuple id items ih =>
    rw [maps, objects, mapsOfItems_eq, objectsOfItems_eq, List.map_flatMap]
    exact List.flatMap_congr ih
  | map id es ih =>
    rw [maps, objects, mapsOfEntries_eq, objectsOfEntries_eq, List.map_cons, List.map_flatMap]
    exact congrArg (id :: ·) (List.flatMap_congr ih)

/-- A map inside a map that stands in a value stands in the value too. -/
theorem maps_subset (h : m ∈ v.maps) : (Value.map m.1 m.2).maps ⊆ v.maps := by
  induction v using Value.induction with
  | atom a => exact absurd h List.not_mem_nil
  | set id ms => exact absurd h List.not_mem_nil
  | list id items ih =>
    obtain ⟨v, hv, hm⟩ := mem_mapsOfItems.1 h
    exact fun x hx => mem_mapsOfItems.2 ⟨v, hv, ih v hv hm hx⟩
  | tuple id items ih =>
    obtain ⟨v, hv, hm⟩ := mem_mapsOfItems.1 h
    exact fun x hx => mem_mapsOfItems.2 ⟨v, hv, ih v hv hm hx⟩
  | map id es ih =>
    obtain rfl | hbelow := List.mem_cons.1 h
    · exact fun x hx => hx
    · obtain ⟨p, hp, hm⟩ := mem_mapsOfEntries.1 hbelow
      exact fun x hx => List.mem_cons_of_mem _ (mem_mapsOfEntries.2 ⟨p, hp, ih p hp hm hx⟩)

end Value

namespace MapEntries

variable {es : MapEntries} {key : String}

theorem get_cons_self (key : String) (v : Value) (es : MapEntries) :
    get ((.text key, v) :: es) key = v := by
  rw [get, get?, Entries.find?, if_pos (Atom.same_text.2 rfl), Option.getD_some]

theorem get_cons_ne {k : Atom} (hk : k ≠ .text key) (v : Value) (es : MapEntries) :
    get ((k, v) :: es) key = get es key := by
  rw [get, get?, Entries.find?, if_neg fun h => hk (Atom.same_text.1 h)]
  rfl

theorem put_cons_self (key : String) (w v : Value) (es : MapEntries) :
    Entries.put Atom.same (.text key) v ((.text key, w) :: es) = (.text key, v) :: es := by
  rw [Entries.put, if_pos (Atom.same_text.2 rfl)]

theorem put_cons_ne {k : Atom} (hk : k ≠ .text key) (w v : Value) (es : MapEntries) :
    Entries.put Atom.same (.text key) v ((k, w) :: es) =
      (k, w) :: Entries.put Atom.same (.text key) v es := by
  rw [Entries.put, if_neg fun h => hk (Atom.same_text.1 h)]

/-- Entries around a key that has a value: setting the key exchanges the value where it stands. -/
theorem exists_split (h : get es key ≠ .null) : ∃ before after,
    es = before ++ (.text key, get es key) :: after ∧
      ∀ v, Entries.put Atom.same (.text key) v es = before ++ (.text key, v) :: after := by
  induction es with
  | nil => exact absurd rfl h
  | cons p es ih =>
    obtain ⟨k, w⟩ := p
    obtain rfl | hk := eq_or_ne k (.text key)
    · refine ⟨[], es, ?_, fun v => ?_⟩
      · rw [get_cons_self, List.nil_append]
      · rw [put_cons_self, List.nil_append]
    · rw [get_cons_ne hk] at h ⊢
      obtain ⟨before, after, hes, hput⟩ := ih h
      refine ⟨(k, w) :: before, after, ?_, fun v => ?_⟩
      · rw [List.cons_append, ← hes]
      · rw [put_cons_ne hk, hput, List.cons_append]

end MapEntries

namespace Value

variable {id : ObjectId} {es : MapEntries} {key : String} {e : Edit}

/-- Setting a key exchanges the maps of the value that it has for those of the new one. Null has
none, so this holds of an absent key as well. -/
theorem exists_maps_put (es : MapEntries) (key : String) : ∃ before after,
    mapsOfEntries es = before ++ (MapEntries.get es key).maps ++ after ∧
      ∀ v, mapsOfEntries (Entries.put Atom.same (.text key) v es) = before ++ v.maps ++ after := by
  induction es with
  | nil => exact ⟨[], [], rfl, fun v => by simp [Entries.put, mapsOfEntries]⟩
  | cons p es ih =>
    obtain ⟨k, w⟩ := p
    obtain rfl | hk := eq_or_ne k (.text key)
    · refine ⟨[], mapsOfEntries es, ?_, fun v => ?_⟩
      · rw [MapEntries.get_cons_self, mapsOfEntries, List.nil_append]
      · rw [MapEntries.put_cons_self, mapsOfEntries, List.nil_append]
    · obtain ⟨before, after, hes, hput⟩ := ih
      refine ⟨w.maps ++ before, after, ?_, fun v => ?_⟩
      · rw [MapEntries.get_cons_ne hk, mapsOfEntries, hes]
        simp only [List.append_assoc]
      · rw [MapEntries.put_cons_ne hk, mapsOfEntries, hput]
        simp only [List.append_assoc]

theorem objectsOfEntries_eq_map (es : MapEntries) :
    objectsOfEntries es = (mapsOfEntries es).map Prod.fst := by
  rw [mapsOfEntries_eq, objectsOfEntries_eq, List.map_flatMap]
  exact List.flatMap_congr fun p _ => (map_fst_maps p.2).symm

/-- The identities of the maps under all keys but one. -/
def objectsBeside (es : MapEntries) (key : String) : List ObjectId :=
  objectsOfEntries (Entries.put Atom.same (.text key) .null es)

theorem count_objects_put (v : Value) :
    (objectsOfEntries (Entries.put Atom.same (.text key) v es)).count id =
    (objectsBeside es key).count id + v.objects.count id := by
  obtain ⟨before, after, -, hput⟩ := exists_maps_put es key
  rw [objectsBeside, objectsOfEntries_eq_map, objectsOfEntries_eq_map, hput, hput, ← map_fst_maps v]
  simp only [List.map_append, List.count_append, maps, List.map_nil, List.count_nil]
  omega

theorem count_objects : (objectsOfEntries es).count id =
    (objectsBeside es key).count id + (MapEntries.get es key).objects.count id := by
  obtain ⟨before, after, hes, hput⟩ := exists_maps_put es key
  rw [objectsBeside, objectsOfEntries_eq_map, objectsOfEntries_eq_map, hes, hput,
    ← map_fst_maps (MapEntries.get es key)]
  simp only [List.map_append, List.count_append, maps, List.map_nil, List.count_nil]
  omega

theorem maps_get_subset (es : MapEntries) (key : String) :
    (MapEntries.get es key).maps ⊆ mapsOfEntries es := by
  by_cases hnull : MapEntries.get es key = .null
  · rw [hnull]
    exact List.nil_subset _
  · obtain ⟨k, hmem⟩ := MapEntries.mem_of_get rfl hnull
    exact fun m hm => mem_mapsOfEntries.2 ⟨_, hmem, hm⟩

/-- An edit of a map that occurs under one key only is an edit of the value of that key. -/
theorem editEntries_eq_put (hkey : MapEntries.get es key ≠ .null)
    (h : (objectsOfEntries es).count e.target = ((MapEntries.get es key).objects).count e.target) :
    editEntries e es = Entries.put Atom.same (.text key) ((MapEntries.get es key).edit e) es := by
  obtain ⟨before, after, hes, hput⟩ := MapEntries.exists_split hkey
  have hcount := h
  rw [hes, objectsOfEntries_eq, List.flatMap_append, List.flatMap_cons, List.count_append,
    List.count_append, ← hes] at hcount
  have hself : ∀ p ∈ before ++ after, p.2.edit e = p.2 := by
    intro p hp
    refine edit_eq_self fun hmem => ?_
    have hpos : 0 < ((before ++ after).flatMap fun p => p.2.objects).count e.target :=
      List.count_pos_iff.2 (List.mem_flatMap.2 ⟨p, hp, hmem⟩)
    rw [List.flatMap_append, List.count_append] at hpos
    dsimp only at hcount
    omega
  have hbefore : editEntries e before = before :=
    editEntries_eq_self fun p hp => hself p (List.mem_append_left _ hp)
  have hafter : editEntries e after = after :=
    editEntries_eq_self fun p hp => hself p (List.mem_append_right _ hp)
  rw [hput]
  conv_lhs => rw [hes]
  rw [editEntries_eq, List.map_append, List.map_cons, ← editEntries_eq, ← editEntries_eq, hbefore,
    hafter]

end Value

end ScopedFn
