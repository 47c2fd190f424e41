import ScopedFn.Proofs.Provenance.Annotation
import ScopedFn.Proofs.Value.Maps

/-!
# One object, one content

Wherever a map stands, it has the same entries. Edits keep this, for they change a map everywhere.

* `Value.edited_maps` : what becomes of the maps in a value that is edited;
* `Resource.coherent_edit` : an edit that brings in new maps keeps it so;
* `Resource.maps_annotationEdit` : setting an annotation is such an edit.
-/

set_option autoImplicit false

namespace ScopedFn

/-- The maps that a change brings in. -/
def Change.maps : Change → List (ObjectId × MapEntries)
  | .put _ v => v.maps
  | .erase _ => []

namespace Value

variable {e : Edit} {v : Value} {m : ObjectId × MapEntries} {es : MapEntries} {c : Change}

theorem mem_maps_apply (h : m ∈ mapsOfEntries (c.apply es)) : m ∈ mapsOfEntries es ∨ m ∈ c.maps := by
  obtain ⟨p, hp, hm⟩ := mem_mapsOfEntries.1 h
  cases c with
  | put k v =>
    have hall := @Entries.forall_put _ _ Atom.same k v (fun _ => True)
      (fun w => m ∈ w.maps → m ∈ mapsOfEntries es ∨ m ∈ v.maps) es trivial .inr
      fun q hq => ⟨trivial, fun hin => .inl (mem_mapsOfEntries.2 ⟨q, hq, hin⟩)⟩
    exact (hall p hp).2 hm
  | erase k => exact .inl (mem_mapsOfEntries.2 ⟨p, (Entries.erase_sublist es).subset hp, hm⟩)

/-- A map that stands where those maps were before the edit: one of them with the entries that it has
now, or one that the edit brings in. -/
def Edited (e : Edit) (ms : List (ObjectId × MapEntries)) (m : ObjectId × MapEntries) : Prop :=
  (∃ es, (m.1, es) ∈ ms ∧ m.2 = entriesAfter e m.1 es) ∨ m ∈ e.change.maps

theorem Edited.mono {ms ms' : List (ObjectId × MapEntries)} (h : Edited e ms m) (hsub : ms ⊆ ms') :
    Edited e ms' m := by
  obtain ⟨es, hes, heq⟩ | hnew := h
  · exact .inl ⟨es, hsub hes, heq⟩
  · exact .inr hnew

theorem edited_mapsOfItems {items : List Value}
    (ih : ∀ v ∈ items, m ∈ (v.edit e).maps → Edited e v.maps m)
    (h : m ∈ mapsOfItems (editItems e items)) : Edited e (mapsOfItems items) m := by
  rw [editItems_eq, mem_mapsOfItems] at h
  obtain ⟨_, hedited, hm⟩ := h
  obtain ⟨v, hv, rfl⟩ := List.mem_map.1 hedited
  exact (ih v hv hm).mono fun _ hin => mem_mapsOfItems.2 ⟨v, hv, hin⟩

theorem edited_mapsOfEntries (ih : ∀ p ∈ es, m ∈ (p.2.edit e).maps → Edited e p.2.maps m)
    (h : m ∈ mapsOfEntries (editEntries e es)) : Edited e (mapsOfEntries es) m := by
  rw [editEntries_eq] at h
  obtain ⟨_, hedited, hm⟩ := mem_mapsOfEntries.1 h
  obtain ⟨p, hp, rfl⟩ := List.mem_map.1 hedited
  exact (ih p hp hm).mono fun _ hin => mem_mapsOfEntries.2 ⟨p, hp, hin⟩

/-- The maps after an edit. -/
theorem edited_maps (h : m ∈ (v.edit e).maps) : Edited e v.maps m := by
  induction v using Value.induction with
  | atom a => exact absurd h List.not_mem_nil
  | set id ms => exact absurd h List.not_mem_nil
  | list id items ih =>
    rw [Value.edit, maps] at h
    exact edited_mapsOfItems ih h
  | tuple id items ih =>
    rw [Value.edit, maps] at h
    exact edited_mapsOfItems ih h
  | map id es ih =>
    have hedit : (Value.map id es).edit e = .map id (entriesAfter e id es) := rfl
    rw [hedit, maps] at h
    obtain rfl | hbelow := List.mem_cons.1 h
    · exact .inl ⟨es, List.mem_cons_self, rfl⟩
    · have hin : m ∈ mapsOfEntries (editEntries e es) ∨ m ∈ e.change.maps := by
        unfold entriesAfter at hbelow
        split at hbelow
        · exact mem_maps_apply hbelow
        · exact .inl hbelow
      obtain hold | hnew := hin
      · exact (edited_mapsOfEntries ih hold).mono (List.subset_cons_self _ _)
      · exact .inr hnew

theorem lt_of_mem_maps {hi : ℕ} (hv : v.bound ≤ hi) (h : m ∈ v.maps) : m.1 < hi := by
  refine lt_of_mem_objects hv ?_
  rw [← map_fst_maps]
  exact List.mem_map_of_mem h

end Value

namespace Resource

/-- The maps in several resources. -/
def mapsOf (rs : List Resource) : List (ObjectId × MapEntries) := rs.flatMap fun r => r.toValue.maps

variable {rs : List Resource} {r : Resource} {e : Edit} {m : ObjectId × MapEntries} {hi fresh : ℕ}
  {key value : String}

theorem mem_mapsOf : m ∈ mapsOf rs ↔ ∃ r ∈ rs, m ∈ r.toValue.maps := List.mem_flatMap

theorem edited_mapsOf (h : m ∈ mapsOf (rs.map (·.edit e))) : Value.Edited e (mapsOf rs) m := by
  obtain ⟨_, hedited, hm⟩ := mem_mapsOf.1 h
  obtain ⟨r, hr, rfl⟩ := List.mem_map.1 hedited
  rw [toValue_edit] at hm
  exact (Value.edited_maps hm).mono fun _ hin => mem_mapsOf.2 ⟨r, hr, hin⟩

/-- An edit that brings in new maps leaves to each map one content. -/
theorem coherent_edit (h : Coherent (mapsOf rs)) (hrs : ∀ r ∈ rs, r.toValue.bound ≤ hi)
    (hchange : Coherent e.change.maps) (hnew : ∀ m ∈ e.change.maps, hi ≤ m.1) :
    Coherent (mapsOf (rs.map (·.edit e))) := by
  have hold : ∀ id es, (id, es) ∈ mapsOf rs → id < hi := fun id es hmem => by
    obtain ⟨r, hr, hm⟩ := mem_mapsOf.1 hmem
    exact Value.lt_of_mem_maps (hrs r hr) hm
  intro m hm m' hm' hid
  obtain ⟨es, hes, heq⟩ | hin := edited_mapsOf hm
  · obtain ⟨es', hes', heq'⟩ | hin' := edited_mapsOf hm'
    · obtain ⟨-, rfl⟩ := Prod.mk.inj (h _ hes _ hes' hid)
      exact Prod.ext hid (by rw [heq, heq', hid])
    · exact absurd (hid ▸ hold _ _ hes) (not_lt.2 (hnew m' hin'))
  · obtain ⟨es', hes', -⟩ | hin' := edited_mapsOf hm'
    · exact absurd (hid ▸ hold _ _ hes') (not_lt.2 (hnew m hin))
    · exact hchange m hin m' hin' hid

/-- Setting an annotation brings in maps of the two given identities, each of them once. -/
theorem maps_annotationEdit (h : r.annotationEdit fresh (fresh + 1) key value = .ok e) :
    Coherent e.change.maps ∧ ∀ m ∈ e.change.maps, fresh ≤ m.1 := by
  obtain ⟨-, rfl⟩ | ⟨id, es, -, rfl | ⟨id', es', -, rfl⟩⟩ := annotationEdit_cases h
  · simp [Change.maps, Value.maps, Value.mapsOfEntries, Coherent]
  · simp [Change.maps, Value.maps, Value.mapsOfEntries, Coherent]
  · simp [Change.maps, Value.maps, Coherent]

end Resource

end ScopedFn
