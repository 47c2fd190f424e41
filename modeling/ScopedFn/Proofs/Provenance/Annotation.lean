import ScopedFn.Proofs.Resource.Reading
import ScopedFn.Proofs.Value.Objects

/-!
# Edits that annotate

An annotation is set by an edit of one object: of the annotations, of metadata without them, or of
a resource without metadata. Other resources may hold that object too, at any place; whatever it
is for them, they can still be annotated afterwards.

* `Change.Annotates` : the changes that setting an annotation amounts to;
* `Resource.Annotatable` : the shape of the resources that can be annotated, which such an edit
  keeps.
-/

set_option autoImplicit false

namespace ScopedFn

/-- The changes that setting an annotation amounts to. -/
inductive Change.Annotates : Change → Prop
  /-- Metadata that holds the annotation only. -/
  | metadata (id id' : ObjectId) (es : MapEntries) :
      Annotates (.put (.text "metadata") (.map id [(.text "annotations", .map id' es)]))
  /-- Annotations that hold the annotation only. -/
  | annotations (id : ObjectId) (es : MapEntries) :
      Annotates (.put (.text "annotations") (.map id es))
  /-- The annotation by itself. -/
  | entry {key : String} (value : String) (hkey : key ∈ readerKeys) :
      Annotates (.put (.text key) (.text value))

theorem Change.Annotates.exists_put {c : Change} (h : c.Annotates) :
    ∃ key v, c = .put (.text key) v := by
  cases h <;> exact ⟨_, _, rfl⟩

namespace Value

variable {v : Value} {e : Edit}

/-- The value is a map or absent. -/
def IsMapOrNull (v : Value) : Prop := v = .null ∨ ∃ id es, v = .map id es

theorem IsMapOrNull.edit (h : v.IsMapOrNull) : (v.edit e).IsMapOrNull := by
  obtain rfl | ⟨id, es, rfl⟩ := h
  · exact .inl rfl
  · exact .inr ⟨_, _, rfl⟩

/-- Metadata that annotations can be written to. -/
def TakesAnnotations (v : Value) : Prop :=
  v = .null ∨ ∃ id es, v = .map id es ∧ (MapEntries.get es "annotations").IsMapOrNull

/-- The entries of a map after an edit. -/
def entriesAfter (e : Edit) (id : ObjectId) (es : MapEntries) : MapEntries :=
  if id = e.target then e.change.apply (editEntries e es) else editEntries e es

/-- What is found under a key after an edit that annotates: what was there, or what it brings. -/
theorem get_entriesAfter (he : e.change.Annotates) (id : ObjectId) (es : MapEntries) (key : String) :
    MapEntries.get (entriesAfter e id es) key = (MapEntries.get es key).edit e ∨
      e.change = .put (.text key) (MapEntries.get (entriesAfter e id es) key) := by
  obtain ⟨k, v, hc⟩ := he.exists_put
  unfold entriesAfter
  split_ifs with hid
  · rw [hc, Change.apply, MapEntries.get_put, MapEntries.get_editEntries]
    split_ifs with hkey
    · exact .inr (by rw [hkey])
    · exact .inl rfl
  · exact .inl (MapEntries.get_editEntries e es key)

theorem isMapOrNull_of_annotates (he : (Change.put (.text "annotations") v).Annotates) :
    v.IsMapOrNull := by
  generalize hc : Change.put (.text "annotations") v = c at he
  -- the names of the fields that lead to annotations are none of the keys that readers set
  cases he with
  | metadata id id' es => simp at hc
  | annotations id es => exact .inr ⟨id, es, (Change.put.inj hc).2⟩
  | entry value hkey =>
    obtain ⟨hkey', -⟩ := Change.put.inj hc
    rw [← Atom.text.inj hkey'] at hkey
    exact absurd hkey (by decide)

theorem takesAnnotations_of_annotates (he : (Change.put (.text "metadata") v).Annotates) :
    v.TakesAnnotations := by
  generalize hc : Change.put (.text "metadata") v = c at he
  cases he with
  | metadata id id' es => exact .inr ⟨id, _, (Change.put.inj hc).2, .inr ⟨id', es, rfl⟩⟩
  | annotations id es => simp at hc
  | entry value hkey =>
    obtain ⟨hkey', -⟩ := Change.put.inj hc
    rw [← Atom.text.inj hkey'] at hkey
    exact absurd hkey (by decide)

theorem TakesAnnotations.edit (h : v.TakesAnnotations) (he : e.change.Annotates) :
    (v.edit e).TakesAnnotations := by
  obtain rfl | ⟨id, es, rfl, hann⟩ := h
  · exact .inl rfl
  · refine .inr ⟨id, entriesAfter e id es, rfl, ?_⟩
    obtain hget | hput := get_entriesAfter he id es "annotations"
    · exact hget ▸ hann.edit
    · exact isMapOrNull_of_annotates (hput ▸ he)

end Value

namespace Resource

variable {r : Resource} {e : Edit} {fresh fresh' : ObjectId} {key value : String}

/-- Annotations of the resource can be set. -/
def Annotatable (r : Resource) : Prop := (r.entries.get "metadata").TakesAnnotations

theorem Annotatable.edit (h : r.Annotatable) (he : e.change.Annotates) : (r.edit e).Annotatable := by
  obtain hget | hput := Value.get_entriesAfter he r.id r.entries "metadata"
  · exact (congrArg Value.TakesAnnotations hget).mpr (Value.TakesAnnotations.edit h he)
  · exact Value.takesAnnotations_of_annotates (hput ▸ he)

theorem Annotatable.exists_edit (h : r.Annotatable) (fresh fresh' : ObjectId) (key value : String) :
    ∃ e, r.annotationEdit fresh fresh' key value = .ok e := by
  unfold annotationEdit
  obtain hmeta | ⟨id, es, hmeta, hann⟩ := h
  · simp [hmeta]
  · obtain hann | ⟨id', es', hann⟩ := hann <;> simp [hmeta, hann]

/-- A resource whose metadata can be read can be annotated. -/
theorem annotatable_of_getMeta {m : Meta} (h : r.getMeta = .ok m) : r.Annotatable := by
  obtain ⟨es, hes, hannotations, -⟩ := getMeta_eq_ok_iff.1 h
  obtain ⟨hnull, -⟩ | ⟨id, hmap⟩ := metadata_eq_ok_iff.1 hes
  · exact .inl hnull
  · refine .inr ⟨id, es, hmap, ?_⟩
    obtain ⟨hnull, -⟩ | ⟨id', es', hann⟩ := map_or_null_of_textMap hannotations
    · exact .inl hnull
    · exact .inr ⟨id', es', hann⟩

/-- The edit that sets an annotation, by what is there already. -/
theorem annotationEdit_cases (h : r.annotationEdit fresh fresh' key value = .ok e) :
    r.entries.get "metadata" = .null ∧
        e = ⟨r.id, .put (.text "metadata")
          (.map fresh [(.text "annotations", .map fresh' [(.text key, .text value)])])⟩ ∨
      ∃ id es, r.entries.get "metadata" = .map id es ∧
        (e = ⟨id, .put (.text "annotations") (.map fresh' [(.text key, .text value)])⟩ ∨
          ∃ id' es', MapEntries.get es "annotations" = .map id' es' ∧
            e = ⟨id', .put (.text key) (.text value)⟩) := by
  unfold annotationEdit at h
  split at h
  · exact .inl ⟨by assumption, (Except.ok.inj h).symm⟩
  · rename_i id es hmeta
    refine .inr ⟨id, es, hmeta, ?_⟩
    split at h
    · exact .inl (Except.ok.inj h).symm
    · exact .inr ⟨_, _, by assumption, (Except.ok.inj h).symm⟩
    · simp at h
  · simp at h

/-- Setting an annotation is an edit that annotates. -/
theorem annotates_annotationEdit (h : r.annotationEdit fresh fresh' key value = .ok e)
    (hkey : key ∈ readerKeys) : e.change.Annotates := by
  obtain ⟨-, rfl⟩ | ⟨id, es, -, rfl | ⟨id', es', -, rfl⟩⟩ := annotationEdit_cases h
  · exact .metadata _ _ _
  · exact .annotations _ _
  · exact .entry value hkey

/-- Setting an annotation of a new resource is an edit of new maps. -/
theorem fresh_annotationEdit {lo : Supply} (h : r.annotationEdit fresh fresh' key value = .ok e)
    (hr : r.toValue.Fresh lo) (hlo : lo ≤ fresh) (hlo' : lo ≤ fresh') : e.Fresh lo := by
  have hentry : (Value.map fresh' [(.text key, .text value)]).Fresh lo :=
    Value.fresh_map.2 ⟨hlo', by simpa using Value.fresh_atom _⟩
  obtain ⟨hid, hes⟩ := Value.fresh_map.1 hr
  obtain ⟨-, rfl⟩ | ⟨id, es, hmeta, hann⟩ := annotationEdit_cases h
  · exact ⟨hid, Value.fresh_map.2 ⟨hlo, by simpa using hentry⟩⟩
  · obtain ⟨k, hmem⟩ := MapEntries.mem_of_get hmeta (by simp)
    obtain ⟨hid', hes'⟩ := Value.fresh_map.1 (hes _ hmem)
    obtain rfl | ⟨id', es', hann, rfl⟩ := hann
    · exact ⟨hid', hentry⟩
    · obtain ⟨k', hmem'⟩ := MapEntries.mem_of_get hann (by simp)
      exact ⟨(Value.fresh_map.1 (hes' _ hmem')).1, Value.fresh_atom _⟩

/-- Setting an annotation brings in the two given identities only. -/
theorem bounded_annotationEdit {hi : ℕ} (h : r.annotationEdit fresh fresh' key value = .ok e)
    (hhi : fresh < hi) (hhi' : fresh' < hi) : e.change.Bounded hi := by
  have hentry : (Value.map fresh' [(.text key, .text value)]).bound ≤ hi :=
    Value.bound_map_le_iff.2 ⟨hhi', List.forall_mem_singleton.2 ⟨Nat.zero_le _, Nat.zero_le _⟩⟩
  obtain ⟨-, rfl⟩ | ⟨id, es, -, rfl | ⟨id', es', -, rfl⟩⟩ := annotationEdit_cases h
  · exact ⟨Nat.zero_le _, Value.bound_map_le_iff.2
      ⟨hhi, List.forall_mem_singleton.2 ⟨Nat.zero_le _, hentry⟩⟩⟩
  · exact ⟨Nat.zero_le _, hentry⟩
  · exact ⟨Nat.zero_le _, Nat.zero_le _⟩

end Resource

end ScopedFn
