import ScopedFn.Proofs.Resource.Trail

/-!
# What the metadata says of an annotation

* `Resource.getMeta_annotatedWith` : an annotation that is set is read, and nothing else is read
  otherwise;
* `Resource.get?_annotations` : an annotation that has a value is read as the text of that value;
* `Resource.keepsMaps_of_get?` : where an annotation is read as absent or empty, no map stands there.
-/

set_option autoImplicit false

namespace ScopedFn

namespace Value

theorem display_list_ne (id : ObjectId) (vs : List Value) : (Value.list id vs).display ≠ "" := by
  simp [display, quoted]

theorem display_map_ne (id : ObjectId) (es : MapEntries) : (Value.map id es).display ≠ "" := by
  simp [display, quoted]

theorem display_tuple_ne (id : ObjectId) (vs : List Value) : (Value.tuple id vs).display ≠ "" := by
  show (Value.tuple id vs).quoted ≠ ""
  rw [quoted]
  unfold quotedTuple
  split <;> simp

/-- What is displayed as the empty text holds no map. -/
theorem maps_eq_nil_of_display {v : Value} (h : v.display = "") : v.maps = [] := by
  cases v with
  | atom a => rfl
  | set id ms => rfl
  | list id vs => exact absurd h (display_list_ne id vs)
  | tuple id vs => exact absurd h (display_tuple_ne id vs)
  | map id es => exact absurd h (display_map_ne id es)

end Value

namespace Resource

variable {r : Resource} {m : Meta} {key part : String} {id : ObjectId} {es : MapEntries}

variable {texts : TextMap}

/-- The text of a key in such a section, as it is read from the value of the key. -/
theorem get?_of_textMap (h : textMap part (.map id es) = .ok texts) (key : String) :
    texts.get? key = (MapEntries.get? es key).map fun v => if v.isNull then "" else v.display := by
  induction es generalizing texts with
  | nil =>
    obtain rfl := Except.ok.inj h
    rfl
  | cons p es ih =>
    obtain ⟨k, v⟩ := p
    obtain ⟨s, texts', rfl, hgiven, htexts, rfl⟩ := textMap_cons_iff.1 h
    rw [TextMap.get?, MapEntries.get?, Entries.find?, Entries.find?]
    by_cases hs : s = key
    · rw [if_pos (beq_iff_eq.2 hs), if_pos (Atom.same_text.2 (congrArg Atom.text hs)), Option.map_some]
    · have hkey : Atom.text s ≠ .text key := fun heq => hs (Atom.text.inj heq)
      rw [if_neg (by simpa using hs), if_neg fun hsame => hkey (Atom.same_text.1 hsame)]
      exact ih htexts

/-- A value in a section that is read as a text map. -/
theorem get?_textMap (h : textMap part (.map id es) = .ok texts)
    (hne : MapEntries.get es key ≠ .null) :
    texts.get? key = some (MapEntries.get es key).display := by
  rw [get?_of_textMap h]
  unfold MapEntries.get at hne ⊢
  cases hget : MapEntries.get? es key with
  | none =>
    rw [hget] at hne
    exact absurd rfl hne
  | some v =>
    rw [hget, Option.getD_some] at hne
    rw [Option.map_some, if_neg fun hnull => hne (Value.isNull_iff.1 hnull), Option.getD_some]

/-- Setting a key of such a section sets the text of the key. -/
theorem textMap_put (h : textMap part (.map id es) = .ok texts) (key value : String) :
    textMap part (.map id (Entries.put Atom.same (.text key) (.text value) es)) =
      .ok (texts.put key value) := by
  induction es generalizing texts with
  | nil =>
    obtain rfl := Except.ok.inj h
    rfl
  | cons p es ih =>
    obtain ⟨k, v⟩ := p
    obtain ⟨s, texts', rfl, hgiven, htexts, rfl⟩ := textMap_cons_iff.1 h
    by_cases hs : s = key
    · subst hs
      rw [MapEntries.put_cons_self, TextMap.put, Entries.put, if_pos (beq_self_eq_true s)]
      exact textMap_cons_iff.2 ⟨s, texts', rfl, rfl, htexts, rfl⟩
    · have hkey : Atom.text s ≠ .text key := fun heq => hs (Atom.text.inj heq)
      have hbeq : ¬ (s == key) = true := by simpa using hs
      rw [MapEntries.put_cons_ne hkey, TextMap.put, Entries.put, if_neg hbeq]
      exact textMap_cons_iff.2 ⟨s, _, rfl, hgiven, ih htexts, rfl⟩

/-- Where the annotations are found: nothing is missing but metadata or annotations that are null, and
an annotation that has a value is read as the text of that value. -/
theorem annotation_cases (h : r.getMeta = .ok m) (key : String) :
    MapEntries.get r.entries "metadata" = .null ∨
      ∃ id es, MapEntries.get r.entries "metadata" = .map id es ∧
        (MapEntries.get es "annotations" = .null ∨
          ∃ id' es', MapEntries.get es "annotations" = .map id' es' ∧
            (MapEntries.get es' key ≠ .null →
              m.annotations.get? key = some (MapEntries.get es' key).display)) := by
  obtain ⟨es, hes, hannotations, -⟩ := getMeta_eq_ok_iff.1 h
  unfold metadata at hes
  split at hes
  · exact .inl (by assumption)
  · rename_i id es' hmeta
    obtain rfl := Except.ok.inj hes
    refine .inr ⟨id, es', hmeta, ?_⟩
    cases hann : MapEntries.get es' "annotations" with
    | atom a =>
      cases a with
      | null => exact .inl rfl
      | _ => rw [hann, textMap] at hannotations <;> cases hannotations
    | map id' es'' =>
      rw [hann] at hannotations
      exact .inr ⟨id', es'', rfl, get?_textMap hannotations⟩
    | _ => rw [hann, textMap] at hannotations <;> cases hannotations
  · cases hes

/-- An annotation that has a value is read as the text of that value. -/
theorem get?_annotations (h : r.getMeta = .ok m) (key : String)
    (hne : r.toValue.field (annotationPath ++ [key]) ≠ .null) :
    m.annotations.get? key = some (r.toValue.field (annotationPath ++ [key])).display := by
  rw [annotationPath, toValue, List.cons_append, List.cons_append, List.nil_append, Value.field] at hne ⊢
  obtain hmeta | ⟨id, es, hmeta, hann⟩ := annotation_cases h key
  · rw [hmeta] at hne
    exact absurd rfl hne
  · rw [hmeta, Value.field] at hne ⊢
    obtain hann | ⟨id', es', hann, hget⟩ := hann
    · rw [hann] at hne
      exact absurd rfl hne
    · rw [hann, Value.field, Value.field] at hne ⊢
      exact hget hne

/-- Where an annotation is read as absent or empty, no map stands. -/
theorem keepsMaps_of_get? (h : r.getMeta = .ok m)
    (hkey : ∀ s, m.annotations.get? key = some s → s = "") :
    MapEntries.KeepsMaps key annotationPath r.entries := by
  rw [annotationPath, MapEntries.KeepsMaps]
  obtain hmeta | ⟨id, es, hmeta, hann⟩ := annotation_cases h key
  · rw [MapEntries.mapAt?, hmeta]
    rfl
  · rw [MapEntries.mapAt?_eq_some.2 hmeta]
    show MapEntries.KeepsMaps key ["annotations"] es
    rw [MapEntries.KeepsMaps]
    obtain hann | ⟨id', es', hann, hget⟩ := hann
    · rw [MapEntries.mapAt?, hann]
      rfl
    · rw [MapEntries.mapAt?_eq_some.2 hann]
      show (MapEntries.get es' key).maps = []
      by_cases hnull : MapEntries.get es' key = .null
      · rw [hnull]
        rfl
      · exact Value.maps_eq_nil_of_display (hkey _ (hget hnull))

/-- The metadata is what is found under its key, an empty map if it is missing. -/
theorem metadata_eq (h : r.metadata = .ok es) (fresh : ObjectId) :
    ((MapEntries.mapAt? r.entries "metadata").getD (fresh, [])).2 = es := by
  unfold metadata at h
  split at h
  · rename_i hmeta
    obtain rfl := Except.ok.inj h
    rw [MapEntries.mapAt?, hmeta]
    rfl
  · rename_i id es' hmeta
    obtain rfl := Except.ok.inj h
    rw [MapEntries.mapAt?_eq_some.2 hmeta]
    rfl
  · cases h

/-- The same of the annotations. -/
theorem textMap_mapAt {texts : TextMap} (h : textMap part (MapEntries.get es key) = .ok texts)
    (fresh : ObjectId) :
    textMap part (.map ((MapEntries.mapAt? es key).getD (fresh, [])).1
      ((MapEntries.mapAt? es key).getD (fresh, [])).2) = .ok texts := by
  cases hat : MapEntries.mapAt? es key with
  | some m =>
    rw [MapEntries.mapAt?_eq_some.1 hat] at h
    exact h
  | none =>
    unfold textMap at h
    split at h
    · exact h
    · rename_i id es' hget
      rw [MapEntries.mapAt?_eq_some.2 hget] at hat
      cases hat
    · cases h

/-- **An annotation that is set is read.** The metadata of the annotated resource is what it was, with
the annotation set. -/
theorem getMeta_annotatedWith (h : r.getMeta = .ok m) (fresh : ObjectId) (key value : String) :
    (r.annotatedWith fresh key value).getMeta =
      .ok { m with annotations := m.annotations.put key value } := by
  obtain ⟨es, hes, hannotations, hlabels, hversion, hkind, hname, hspace⟩ := getMeta_eq_ok_iff.1 h
  have hother : ∀ {key' : String}, "metadata" ≠ key' →
      MapEntries.get (r.annotatedWith fresh key value).entries key' = MapEntries.get r.entries key' :=
    fun hne => MapEntries.get_putIn (by simpa [annotationPath] using hne)
  rw [getMeta_eq_ok_iff]
  refine ⟨MapEntries.putIn (fresh + 1) key (.text value) ["annotations"] es, ?_, ?_, ?_, ?_, ?_, ?_, ?_⟩
  · have hmeta : MapEntries.get (r.annotatedWith fresh key value).entries "metadata" =
        .map ((MapEntries.mapAt? r.entries "metadata").getD (fresh, [])).1
          (MapEntries.putIn (fresh + 1) key (.text value) ["annotations"] es) := by
      rw [← metadata_eq hes fresh]
      exact (MapEntries.get_put _ _ _ _).trans (if_pos rfl)
    rw [metadata, hmeta]
  · rw [MapEntries.putIn, MapEntries.get_put, if_pos rfl]
    exact textMap_put (textMap_mapAt hannotations (fresh + 1)) key value
  · rwa [MapEntries.get_putIn (by simp)]
  · rwa [apiVersion, hother (by decide)]
  · rwa [kind, hother (by decide)]
  · rwa [MapEntries.get_putIn (by simp)]
  · rwa [MapEntries.get_putIn (by simp)]

end Resource

end ScopedFn
