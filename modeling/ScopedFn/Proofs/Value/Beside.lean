import ScopedFn.Proofs.Value.Coherent

/-!
# The other places of a map

What stands in a map stands under one key or beside it, and never is the map itself.

* `Value.mapsBeside` : the maps under all keys but one;
* `Value.mem_maps_put`, `Value.maps_erase` : setting a key and removing it leave these as they are;
* `Value.notMem_objectsOfEntries` : where each map has one content, none stands inside itself.
-/

set_option autoImplicit false

namespace ScopedFn

open Entries (put erase)

namespace Value

variable {id : ObjectId} {v : Value} {es : MapEntries} {key : String} {m : ObjectId × MapEntries}

/-! ### The maps beside a key -/

/-- The maps under all keys but one. -/
def mapsBeside (es : MapEntries) (key : String) : List (ObjectId × MapEntries) :=
  mapsOfEntries (put Atom.same (.text key) .null es)

theorem mem_maps_put : m ∈ mapsOfEntries (put Atom.same (.text key) v es) ↔
    m ∈ mapsBeside es key ∨ m ∈ v.maps := by
  obtain ⟨before, after, -, hput⟩ := exists_maps_put es key
  rw [mapsBeside, hput, hput]
  simp only [List.mem_append, maps, List.not_mem_nil, or_false]
  tauto

theorem mem_maps_get (es : MapEntries) (key : String) : m ∈ mapsOfEntries es ↔
    m ∈ mapsBeside es key ∨ m ∈ (MapEntries.get es key).maps := by
  obtain ⟨before, after, hes, hput⟩ := exists_maps_put es key
  rw [mapsBeside, hes, hput]
  simp only [List.mem_append, maps, List.not_mem_nil, or_false]
  tauto

theorem maps_erase (es : MapEntries) (key : String) :
    mapsOfEntries (erase Atom.same (.text key) es) = mapsBeside es key := by
  rw [mapsBeside]
  induction es with
  | nil => rfl
  | cons p es ih =>
    obtain ⟨k, w⟩ := p
    rw [erase, put]
    split
    · rfl
    · rw [mapsOfEntries, mapsOfEntries, ih]

theorem mem_objectsOfEntries_iff :
    id ∈ objectsOfEntries es ↔ ∃ fs, (id, fs) ∈ mapsOfEntries es := by
  rw [objectsOfEntries_eq_map, List.mem_map]
  constructor
  · rintro ⟨m, hm, rfl⟩
    exact ⟨m.2, hm⟩
  · rintro ⟨fs, hm⟩
    exact ⟨_, hm, rfl⟩

theorem mem_objectsBeside : id ∈ objectsBeside es key ↔ ∃ fs, (id, fs) ∈ mapsBeside es key :=
  mem_objectsOfEntries_iff

/-! ### Maps inside themselves -/

theorem sizeOf_lt_of_mem_maps (h : m ∈ v.maps) : sizeOf m.2 < sizeOf v := by
  induction v using Value.induction with
  | atom a | set id ms => exact absurd h List.not_mem_nil
  | list id items ih =>
    obtain ⟨v, hv, hm⟩ := mem_mapsOfItems.1 h
    have hlt := List.sizeOf_lt_of_mem hv
    have hin := ih v hv hm
    simp only [Value.list.sizeOf_spec]
    omega
  | tuple id items ih =>
    obtain ⟨v, hv, hm⟩ := mem_mapsOfItems.1 h
    have hlt := List.sizeOf_lt_of_mem hv
    have hin := ih v hv hm
    simp only [Value.tuple.sizeOf_spec]
    omega
  | map id es ih =>
    obtain rfl | hbelow := List.mem_cons.1 h
    · simp only [Value.map.sizeOf_spec]
      omega
    · obtain ⟨⟨k, w⟩, hp, hm⟩ := mem_mapsOfEntries.1 hbelow
      have hlt := List.sizeOf_lt_of_mem hp
      have hin := ih (k, w) hp hm
      simp only [Value.map.sizeOf_spec, Prod.mk.sizeOf_spec] at hlt hin ⊢
      omega

/-- Where each map has one content, none stands inside itself. -/
theorem notMem_objectsOfEntries (h : Coherent v.maps) (hm : (id, es) ∈ v.maps) :
    id ∉ objectsOfEntries es := by
  intro hid
  obtain ⟨fs, hfs⟩ := mem_objectsOfEntries_iff.1 hid
  have hin : (id, fs) ∈ v.maps := maps_subset hm (List.mem_cons_of_mem _ hfs)
  obtain ⟨-, rfl⟩ := Prod.mk.inj (h _ hm _ hin rfl)
  obtain ⟨p, hp, hself⟩ := mem_mapsOfEntries.1 hfs
  have hlt := List.sizeOf_lt_of_mem hp
  have hlt' := sizeOf_lt_of_mem_maps hself
  obtain ⟨k, w⟩ := p
  simp only [Prod.mk.sizeOf_spec] at hlt hlt'
  omega

end Value

end ScopedFn
