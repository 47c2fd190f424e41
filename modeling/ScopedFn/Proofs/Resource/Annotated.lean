import ScopedFn.Proofs.Provenance.Annotation
import ScopedFn.Proofs.Value.Maps

/-!
# Annotated resources

What a resource should look like when an annotation of it has been set, and when it does look so.
An annotation is set by an edit of one map, and that map may stand at other places too. Then these
change as well.

* `Resource.annotatedWith` : the resource with the annotation and no other change;
* `Resource.place` : the map that is edited;
* `Resource.edit_eq_annotatedWith` : if that map stands nowhere else in the resource, the edit does
  nothing but set the annotation.
-/

set_option autoImplicit false

namespace ScopedFn

namespace MapEntries

variable {fresh id id' target : ObjectId} {key part : String} {v : Value} {parts : List String}
  {es inner : MapEntries}

/-- The map under a key, if there is one. -/
def mapAt? (es : MapEntries) (part : String) : Option (ObjectId × MapEntries) :=
  match get es part with
  | .map id inner => some (id, inner)
  | _ => none

/-- Sets a key in the map at the end of a path of keys. Maps that are missing on the way are made,
with identities from the given one on. -/
def putIn (fresh : ObjectId) (key : String) (v : Value) : List String → MapEntries → MapEntries
  | [], es => Entries.put Atom.same (.text key) v es
  | part :: parts, es =>
    let inner := (mapAt? es part).getD (fresh, [])
    Entries.put Atom.same (.text part) (.map inner.1 (putIn (fresh + 1) key v parts inner.2)) es

/-- The last map that is there on a path of keys. -/
def innermost : List String → ObjectId → MapEntries → ObjectId
  | [], id, _ => id
  | part :: parts, id, es =>
    match mapAt? es part with
    | some (id', inner) => innermost parts id' inner
    | none => id

/-- The edit of that map by which a key is set at the end of the path. -/
def editIn (fresh : ObjectId) (key : String) (v : Value) :
    List String → ObjectId → MapEntries → Edit
  | [], id, _ => ⟨id, .put (.text key) v⟩
  | part :: parts, id, es =>
    match mapAt? es part with
    | some (id', inner) => editIn (fresh + 1) key v parts id' inner
    | none => ⟨id, .put (.text part) (.map fresh (putIn (fresh + 1) key v parts []))⟩

theorem mapAt?_eq_some : mapAt? es part = some (id, inner) ↔ get es part = .map id inner := by
  unfold mapAt?
  split
  · rename_i id' inner' hget
    rw [hget, Option.some.injEq, Prod.mk.injEq, Value.map.injEq]
  · rename_i hget
    exact iff_of_false (by simp) fun h => hget _ _ h

theorem target_editIn (fresh : ObjectId) (key : String) (v : Value) (parts : List String) (id : ObjectId)
    (es : MapEntries) : (editIn fresh key v parts id es).target = innermost parts id es := by
  induction parts generalizing fresh id es with
  | nil => rfl
  | cons part parts ih =>
    rw [editIn, innermost]
    cases mapAt? es part with
    | some inner => exact ih _ _ _
    | none => rfl

theorem mem_objects_of_mapAt? (h : mapAt? es part = some (id', inner))
    (hin : target ∈ (Value.map id' inner).objects) : target ∈ Value.objectsOfEntries es := by
  obtain ⟨k, hmem⟩ := mem_of_get (mapAt?_eq_some.1 h) (by simp)
  exact Value.mem_objectsOfEntries.2 ⟨_, hmem, hin⟩

theorem innermost_mem_objects (parts : List String) (id : ObjectId) (es : MapEntries) :
    innermost parts id es ∈ (Value.map id es).objects := by
  induction parts generalizing id es with
  | nil => exact List.mem_cons_self
  | cons part parts ih =>
    rw [innermost]
    cases hat : mapAt? es part with
    | some inner => exact List.mem_cons_of_mem _ (mem_objects_of_mapAt? hat (ih _ _))
    | none => exact List.mem_cons_self

/-! ### An edit that is seen at one place -/

/-- A map that stands nowhere else does not stand below itself. -/
theorem count_root : (Value.map id es).objects.count id = 1 ↔ id ∉ Value.objectsOfEntries es := by
  rw [Value.objects, List.count_cons_self, Nat.add_eq_right, List.count_eq_zero]

/-- A map that stands below a key, and nowhere else in the whole map, stands once below that key. -/
theorem count_below (hat : mapAt? es part = some (id', inner))
    (hin : target ∈ (Value.map id' inner).objects)
    (h : (Value.map id es).objects.count target = 1) :
    id ≠ target ∧ (Value.objectsBeside es part).count target = 0 ∧
      (Value.map id' inner).objects.count target = 1 := by
  have hpos : 0 < (Value.map id' inner).objects.count target := List.count_pos_iff.2 hin
  rw [Value.objects, List.count_cons, @Value.count_objects target es part, mapAt?_eq_some.1 hat] at h
  refine ⟨fun heq => ?_, by omega, by omega⟩
  rw [if_pos (beq_iff_eq.2 heq)] at h
  omega

theorem edit_root {c : Change} (h : id ∉ Value.objectsOfEntries es) :
    (Value.map id es).edit ⟨id, c⟩ = .map id (c.apply es) := by
  rw [Value.edit, if_pos rfl, Value.editEntries_eq_self fun p hp => Value.edit_eq_self fun hmem =>
    h (Value.mem_objectsOfEntries.2 ⟨p, hp, hmem⟩)]

/-- If the map that is edited stands nowhere else, the edit sets the key at the end of the path and
does nothing else. -/
theorem edit_editIn (h : (Value.map id es).objects.count (innermost parts id es) = 1) :
    (Value.map id es).edit (editIn fresh key v parts id es) = .map id (putIn fresh key v parts es) := by
  induction parts generalizing fresh id es with
  | nil => exact edit_root (count_root.1 h)
  | cons part parts ih =>
    rw [innermost] at h
    rw [editIn, putIn]
    cases hat : mapAt? es part with
    | none =>
      rw [hat] at h
      exact edit_root (count_root.1 h)
    | some m =>
      obtain ⟨id', inner⟩ := m
      rw [hat] at h
      -- the edited map is below the key, hence neither this map nor below another key
      obtain ⟨hne, hbeside, hinner⟩ := count_below hat (innermost_mem_objects parts id' inner) h
      have hget : get es part = .map id' inner := mapAt?_eq_some.1 hat
      have hedit : Value.editEntries (editIn (fresh + 1) key v parts id' inner) es =
          Entries.put Atom.same (.text part)
            ((get es part).edit (editIn (fresh + 1) key v parts id' inner)) es := by
        refine Value.editEntries_eq_put (by simp [hget]) ?_
        rw [target_editIn, @Value.count_objects _ es part, hbeside, Nat.zero_add]
      dsimp only [Option.getD_some]
      rw [Value.edit, target_editIn, if_neg hne, hedit, hget, ih hinner]

/-! ### What the edit leaves behind -/

theorem innermost_nil (parts : List String) (id : ObjectId) : innermost parts id [] = id := by
  cases parts <;> rfl

theorem mapAt?_put (es : MapEntries) (part : String) (id : ObjectId) (inner : MapEntries) :
    mapAt? (Entries.put Atom.same (.text part) (.map id inner) es) part = some (id, inner) := by
  rw [mapAt?_eq_some, get_put, if_pos rfl]

/-- Setting a key at the end of a path brings in no maps but those that were missing. -/
theorem mem_objects_putIn (hv : v.objects = [])
    (h : target ∈ (Value.map id (putIn fresh key v parts es)).objects) :
    target ∈ (Value.map id es).objects ∨ fresh ≤ target := by
  induction parts generalizing fresh id es with
  | nil =>
    left
    rw [← List.count_pos_iff, Value.objects, List.count_cons] at h ⊢
    rw [putIn, Value.count_objects_put, hv, List.count_nil] at h
    rw [@Value.count_objects _ es key]
    omega
  | cons part parts ih =>
    rw [putIn, ← List.count_pos_iff, Value.objects, List.count_cons, Value.count_objects_put] at h
    by_cases hnew : target ∈ (Value.map ((mapAt? es part).getD (fresh, [])).1
        (putIn (fresh + 1) key v parts ((mapAt? es part).getD (fresh, [])).2)).objects
    · obtain hmem | hle := ih hnew
      · cases hat : mapAt? es part with
        | some m =>
          rw [hat, Option.getD_some] at hmem
          exact .inl (List.mem_cons_of_mem _ (mem_objects_of_mapAt? hat hmem))
        | none =>
          rw [hat, Option.getD_none] at hmem
          exact .inr (le_of_eq (List.mem_singleton.1 hmem).symm)
      · exact .inr (le_trans (Nat.le_succ fresh) hle)
    · left
      rw [List.count_eq_zero.2 hnew] at h
      rw [← List.count_pos_iff, Value.objects, List.count_cons, @Value.count_objects _ es part]
      omega

theorem le_innermost_missing (fresh : ObjectId) (key : String) (hv : v.objects = [])
    (parts : List String) :
    fresh ≤ innermost parts fresh (putIn (fresh + 1) key v parts []) := by
  obtain hmem | hle := mem_objects_putIn hv
    (innermost_mem_objects parts fresh (putIn (fresh + 1) key v parts []))
  · exact le_of_eq (List.mem_singleton.1 hmem).symm
  · exact le_trans (Nat.le_succ fresh) hle

/-- The last map on the path afterwards: the one that was edited, or one that was missing. -/
theorem innermost_putIn (fresh : ObjectId) (key : String) (hv : v.objects = []) (parts : List String)
    (id : ObjectId) (es : MapEntries) :
    innermost parts id (putIn fresh key v parts es) = innermost parts id es ∨
      fresh ≤ innermost parts id (putIn fresh key v parts es) := by
  induction parts generalizing fresh id es with
  | nil => exact .inl rfl
  | cons part parts ih =>
    rw [innermost, innermost, putIn, mapAt?_put]
    dsimp only
    cases mapAt? es part with
    | some m => exact (ih (fresh + 1) m.1 m.2).imp_right fun hle => le_trans (Nat.le_succ fresh) hle
    | none => exact .inr (le_innermost_missing fresh key hv parts)

/-- A new map stands neither at the root nor beside a key. -/
theorem absent_of_le (hfresh : ∀ i ∈ (Value.map id es).objects, i < fresh) (hle : fresh ≤ target) :
    id ≠ target ∧ (Value.objectsBeside es part).count target = 0 := by
  have hzero : (Value.map id es).objects.count target = 0 :=
    List.count_eq_zero.2 fun hmem => absurd (hfresh target hmem) (not_lt.2 hle)
  rw [Value.objects, List.count_cons, @Value.count_objects target es part] at hzero
  refine ⟨fun heq => ?_, by omega⟩
  rw [if_pos (beq_iff_eq.2 heq)] at hzero
  omega

/-- A map that stands neither at the root nor beside a key stands as often as below the key. -/
theorem count_put_of_absent (h : id ≠ target ∧ (Value.objectsBeside es part).count target = 0)
    (v : Value) :
    (Value.map id (Entries.put Atom.same (.text part) v es)).objects.count target =
      v.objects.count target := by
  rw [Value.objects, List.count_cons, Value.count_objects_put, h.2,
    if_neg fun heq => h.1 (beq_iff_eq.1 heq)]
  omega

/-- Where the map that is edited stands nowhere else, the last map on the path stands nowhere else
afterwards. -/
theorem count_innermost_putIn (hv : v.objects = [])
    (hfresh : ∀ i ∈ (Value.map id es).objects, i < fresh)
    (h : (Value.map id es).objects.count (innermost parts id es) = 1) :
    (Value.map id (putIn fresh key v parts es)).objects.count
      (innermost parts id (putIn fresh key v parts es)) = 1 := by
  induction parts generalizing fresh id es with
  | nil =>
    refine count_root.2 fun hmem => count_root.1 h ?_
    rw [← List.count_pos_iff, putIn, Value.count_objects_put, hv, List.count_nil] at hmem
    rw [← List.count_pos_iff, @Value.count_objects _ es key]
    exact Nat.lt_add_right _ hmem
  | cons part parts ih =>
    rw [innermost, putIn, mapAt?_put]
    cases hat : mapAt? es part with
    | none =>
      -- the maps that were missing are newer than all others
      have hlast := le_innermost_missing fresh key hv parts
      have hroot : (Value.map fresh []).objects.count (innermost parts fresh []) = 1 := by
        rw [innermost_nil]
        exact count_root.2 List.not_mem_nil
      have hnew : ∀ i ∈ (Value.map fresh []).objects, i < fresh + 1 := fun i hi =>
        Nat.lt_succ_of_le (le_of_eq (List.mem_singleton.1 hi))
      exact (count_put_of_absent (absent_of_le hfresh hlast) _).trans (ih hnew hroot)
    | some m =>
      obtain ⟨id', inner⟩ := m
      rw [innermost, hat] at h
      obtain ⟨hne, hbeside, hinner⟩ := count_below hat (innermost_mem_objects parts id' inner) h
      have hold : ∀ i ∈ (Value.map id' inner).objects, i < fresh + 1 := fun i hi =>
        Nat.lt_succ_of_lt (hfresh i (List.mem_cons_of_mem _ (mem_objects_of_mapAt? hat hi)))
      have habsent : ∀ last, last = innermost parts id' inner ∨ fresh + 1 ≤ last →
          id ≠ last ∧ (Value.objectsBeside es part).count last = 0 := by
        rintro last (rfl | hle)
        · exact ⟨hne, hbeside⟩
        · exact absent_of_le hfresh (le_trans (Nat.le_succ fresh) hle)
      exact (count_put_of_absent (habsent _ (innermost_putIn (fresh + 1) key hv parts id' inner)) _).trans
        (ih hold hinner)

end MapEntries

/-! ### Annotations -/

namespace Resource

variable {r : Resource} {e : Edit} {fresh target : ObjectId} {key value : String}

/-- Where the annotations of a resource are found. -/
def annotationPath : List String := ["metadata", "annotations"]

/-- The resource with an annotation, and otherwise as it is. Metadata and annotations are made where
they are missing, with identities from the given one on. -/
def annotatedWith (fresh : ObjectId) (key value : String) (r : Resource) : Resource :=
  ⟨r.id, MapEntries.putIn fresh key (.text value) annotationPath r.entries⟩

/-- The map that is edited when an annotation is set: the annotations, the metadata if they are
missing, or the resource if its metadata is missing too. -/
def place (r : Resource) : ObjectId := MapEntries.innermost annotationPath r.id r.entries

theorem place_mem_objects (r : Resource) : r.place ∈ r.toValue.objects :=
  MapEntries.innermost_mem_objects annotationPath r.id r.entries

/-- Setting an annotation is the edit of that map. -/
theorem annotationEdit_eq (h : r.annotationEdit fresh (fresh + 1) key value = .ok e) :
    e = MapEntries.editIn fresh key (.text value) annotationPath r.id r.entries := by
  unfold annotationEdit at h
  rw [annotationPath, MapEntries.editIn]
  split at h
  · rename_i hmeta
    rw [MapEntries.mapAt?, hmeta]
    exact (Except.ok.inj h).symm
  · rename_i id es hmeta
    rw [MapEntries.mapAt?_eq_some.2 hmeta]
    dsimp only
    rw [MapEntries.editIn]
    split at h
    · rename_i hann
      rw [MapEntries.mapAt?, hann]
      exact (Except.ok.inj h).symm
    · rename_i id' es' hann
      rw [MapEntries.mapAt?_eq_some.2 hann]
      exact (Except.ok.inj h).symm
    · cases h
  · cases h

/-- Only that map is edited. -/
theorem target_annotationEdit (h : r.annotationEdit fresh (fresh + 1) key value = .ok e) :
    e.target = r.place := by
  rw [annotationEdit_eq h, MapEntries.target_editIn, place]

/-- **An annotation that is set in one place.** If the map that is edited stands nowhere else in the
resource, the edit sets the annotation and does nothing else. -/
theorem edit_eq_annotatedWith (h : r.annotationEdit fresh (fresh + 1) key value = .ok e)
    (hplace : r.toValue.objects.count r.place = 1) : r.edit e = r.annotatedWith fresh key value := by
  refine toValue_injective ?_
  rw [toValue_edit, annotationEdit_eq h]
  exact MapEntries.edit_editIn hplace

/-- The maps that are new in an annotated resource have new identities. -/
theorem mem_objects_annotatedWith (h : target ∈ (r.annotatedWith fresh key value).toValue.objects) :
    target ∈ r.toValue.objects ∨ fresh ≤ target :=
  MapEntries.mem_objects_putIn rfl h

theorem place_annotatedWith (r : Resource) (fresh : ObjectId) (key value : String) :
    (r.annotatedWith fresh key value).place = r.place ∨
      fresh ≤ (r.annotatedWith fresh key value).place :=
  MapEntries.innermost_putIn fresh key rfl annotationPath r.id r.entries

theorem count_place_annotatedWith (hr : r.toValue.bound ≤ fresh)
    (hplace : r.toValue.objects.count r.place = 1) :
    (r.annotatedWith fresh key value).toValue.objects.count
      (r.annotatedWith fresh key value).place = 1 :=
  MapEntries.count_innermost_putIn rfl (fun _ hi => Value.lt_of_mem_objects hr hi) hplace

end Resource

end ScopedFn
