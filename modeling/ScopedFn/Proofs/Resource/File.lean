import ScopedFn.Proofs.Provenance.Annotation
import ScopedFn.Proofs.Resource.Metadata
import ScopedFn.Proofs.Resource.Site

/-!
# The file that a resource names

The file of a resource is its path annotation, as it is read with all metadata. It is told by one
value, the text that is shown of it. Annotations that are written into the maps of a resource do not
keep its metadata from being read, whatever these maps are to the resource.

* `Resource.file?` : the file that a resource names;
* `Resource.file?_eq` : it is what is shown of the value at the path annotation;
* `Resource.exists_getMeta_editAll` : what could be read can be read behind such edits;
* `Value.visible?_editAll` : what is shown of a value after edits.
-/

set_option autoImplicit false

namespace ScopedFn

/-- The change of an edit that sets an annotation: a text, and around it what was missing. -/
inductive Change.WritesText : Change → Prop
  /-- Metadata that holds the annotation only. -/
  | metadata (id id' : ObjectId) (key value : String) :
      WritesText (.put (.text "metadata")
        (.map id [(.text "annotations", .map id' [(.text key, .text value)])]))
  /-- Annotations that hold the annotation only. -/
  | annotations (id : ObjectId) (key value : String) :
      WritesText (.put (.text "annotations") (.map id [(.text key, .text value)]))
  /-- The annotation by itself. -/
  | entry {key : String} (value : String) (hkey : key ∈ readerKeys) :
      WritesText (.put (.text key) (.text value))

theorem Change.WritesText.annotates {c : Change} (h : c.WritesText) : c.Annotates := by
  cases h with
  | metadata => exact .metadata _ _ _
  | annotations => exact .annotations _ _
  | entry value hkey => exact .entry value hkey

namespace Value

variable {v : Value} {e : Edit} {es : List Edit}

/-! ### What is shown of a value -/

/-- What is shown of a value, if there is anything to show. -/
def visible? (v : Value) : Option String :=
  (if v.isNull then none else some v.display).filter (· != "")

/-- The value holds other values. -/
def IsNested : Value → Prop
  | .list _ _ | .tuple _ _ | .map _ _ => True
  | _ => False

theorem IsNested.edit (h : v.IsNested) (e : Edit) : (v.edit e).IsNested := by
  cases v with
  | list | tuple | map => trivial
  | _ => exact h.elim

theorem edit_of_not_isNested (h : ¬ v.IsNested) (e : Edit) : v.edit e = v := by
  cases v with
  | list | tuple | map => exact absurd trivial h
  | _ => rfl

/-- The text ends with a bracket. -/
def Bracketed (s : String) : Prop := ∃ c ∈ [']', ')', '}'], s.toList.getLast? = some c

theorem bracketed_append {t : String} (s : String) (h : Bracketed t) : Bracketed (s ++ t) := by
  obtain ⟨c, hc, hlast⟩ := h
  exact ⟨c, hc, by rw [String.toList_append, List.getLast?_append, hlast]; rfl⟩

theorem bracketed_display (h : v.IsNested) : Bracketed v.display := by
  have hend : ∀ t : String, t.toList.getLast? ∈ [some ']', some ')', some '}'] → Bracketed t := by
    intro t ht
    simpa [Bracketed] using ht
  cases v with
  | list id items => exact bracketed_append _ (hend "]" (by decide))
  | map id entries => exact bracketed_append _ (hend "\x7d" (by decide))
  | tuple id items =>
    show Bracketed (Value.tuple id items).quoted
    rw [quoted]
    unfold quotedTuple
    split
    · exact bracketed_append _ (hend ",)" (by decide))
    · exact bracketed_append _ (hend ")" (by decide))
  | _ => exact h.elim

/-- Of values in values is shown a text that ends with a bracket. -/
theorem exists_visible (h : v.IsNested) : ∃ s, v.visible? = some s ∧ Bracketed s := by
  have hend := bracketed_display h
  refine ⟨v.display, ?_, hend⟩
  have hne : v.display ≠ "" := by
    rintro heq
    obtain ⟨c, -, hlast⟩ := heq ▸ hend
    cases hlast
  have hnull : v.isNull = false := by
    cases v with
    | atom a => exact h.elim
    | _ => rfl
  rw [visible?, hnull, if_neg (by decide), Option.filter_some, if_pos (by simpa using hne)]

/-- Edits change nothing of what is shown but texts that end with a bracket. -/
theorem visible?_editAll (v : Value) (es : List Edit) :
    (v.editAll es).visible? = v.visible? ∨
      (∃ s, v.visible? = some s ∧ Bracketed s) ∧ ∃ s, (v.editAll es).visible? = some s ∧ Bracketed s := by
  by_cases h : v.IsNested
  · have hafter : (v.editAll es).IsNested := by
      induction es generalizing v with
      | nil => exact h
      | cons e es ih => exact ih (v.edit e) (h.edit e)
    exact .inr ⟨exists_visible h, exists_visible hafter⟩
  · left
    have hsame : v.editAll es = v := by
      induction es with
      | nil => rfl
      | cons e es ih => exact (congrArg (editAll es) (edit_of_not_isNested h e)).trans ih
    rw [hsame]

/-! ### What can be read -/

/-- The value can be read as a text map. -/
def IsTextMap (v : Value) : Prop :=
  v = .null ∨ ∃ id es, v = .map id es ∧
    ∀ p ∈ es, (∃ key, p.1 = .text key) ∧ p.2.textFault? = none

/-- The value can be read as metadata. -/
def IsMetadata (v : Value) : Prop :=
  v = .null ∨ ∃ id es, v = .map id es ∧ (MapEntries.get es "annotations").IsTextMap ∧
    (MapEntries.get es "labels").IsTextMap ∧ (MapEntries.get es "name").textFault? = none ∧
    (MapEntries.get es "namespace").textFault? = none

/-- What is written is given as text, and so is its key. -/
theorem textFault?_of_writesText {k : Atom} (h : (Change.put k v).WritesText) :
    k.textFault? = none ∧ v.textFault? = none := by
  cases h <;> exact ⟨rfl, rfl⟩

/-- The entries of a map after an edit that writes a text have what its entries had, if texts have
it and edits keep it. -/
theorem forall_entriesAfter {P : Atom → Prop} {Q : Value → Prop} {id : ObjectId} {es : MapEntries}
    (he : e.change.WritesText) (hwritten : ∀ k w, (Change.put k w).WritesText → P k ∧ Q w)
    (h : ∀ p ∈ es, P p.1 ∧ Q (p.2.edit e)) : ∀ p ∈ entriesAfter e id es, P p.1 ∧ Q p.2 := by
  have hold : ∀ p ∈ editEntries e es, P p.1 ∧ Q p.2 := by
    rw [editEntries_eq]
    exact List.forall_mem_map.2 h
  obtain ⟨key, w, hchange⟩ := he.annotates.exists_put
  unfold entriesAfter
  split
  · rw [hchange] at he ⊢
    exact Entries.forall_put (hwritten _ _ he).1 (hwritten _ _ he).2 hold
  · exact hold

/-- What is given as text still is when texts have been written into it. -/
theorem textFault?_edit (h : v.textFault? = none) (he : e.change.WritesText) :
    (v.edit e).textFault? = none := by
  induction v using Value.induction with
  | atom a => exact h
  | list id items ih | tuple id items ih =>
    refine textFaultIn?_eq_none_iff.2 ?_
    rw [editItems_eq, List.forall_mem_map]
    exact fun w hw => ih w hw (textFaultIn?_eq_none_iff.1 h w hw)
  | map id es ih =>
    have hes := textFaultInEntries?_eq_none_iff.1 h
    exact textFaultInEntries?_eq_none_iff.2 (forall_entriesAfter (P := (Atom.textFault? · = none))
      (Q := (textFault? · = none)) he (fun _ _ => textFault?_of_writesText)
      fun p hp => ⟨(hes p hp).1, ih p hp (hes p hp).2⟩)
  | set id ms => exact h

/-- A field that is given as text still is. -/
theorem textFault?_get_entriesAfter {part : String} {es : MapEntries}
    (h : (MapEntries.get es part).textFault? = none) (he : e.change.WritesText) (id : ObjectId) :
    (MapEntries.get (entriesAfter e id es) part).textFault? = none := by
  obtain hget | hput := Value.get_entriesAfter he.annotates id es part
  · exact hget ▸ textFault?_edit h he
  · exact (textFault?_of_writesText (hput ▸ he)).2

theorem IsTextMap.edit (h : v.IsTextMap) (he : e.change.WritesText) : (v.edit e).IsTextMap := by
  obtain rfl | ⟨id, es, rfl, hes⟩ := h
  · exact .inl rfl
  · refine .inr ⟨id, entriesAfter e id es, rfl, forall_entriesAfter
      (P := fun k => ∃ key, k = .text key) (Q := (textFault? · = none)) he (fun k w hkw => ?_)
      fun p hp => ⟨(hes p hp).1, textFault?_edit (hes p hp).2 he⟩⟩
    obtain ⟨key, w', hput⟩ := hkw.annotates.exists_put
    exact ⟨⟨key, (Change.put.inj hput).1⟩, (textFault?_of_writesText hkw).2⟩

theorem isTextMap_singleton (id : ObjectId) (key value : String) :
    (Value.map id [(.text key, .text value)]).IsTextMap :=
  .inr ⟨id, _, rfl, List.forall_mem_singleton.2 ⟨⟨key, rfl⟩, rfl⟩⟩

/-- What an edit puts under the key of a section can be read as such. -/
theorem isTextMap_of_writesText {part : String} (hpart : part ∉ "metadata" :: readerKeys)
    (h : (Change.put (.text part) v).WritesText) : v.IsTextMap := by
  generalize hc : Change.put (.text part) v = c at h
  cases h with
  | metadata =>
    refine absurd ?_ hpart
    rw [Atom.text.inj (Change.put.inj hc).1]
    exact List.mem_cons_self
  | annotations id key value => exact (Change.put.inj hc).2 ▸ isTextMap_singleton id key value
  | entry value hkey =>
    rw [← Atom.text.inj (Change.put.inj hc).1] at hkey
    exact absurd (List.mem_cons_of_mem _ hkey) hpart

theorem isMetadata_of_writesText (h : (Change.put (.text "metadata") v).WritesText) :
    v.IsMetadata := by
  generalize hc : Change.put (.text "metadata") v = c at h
  cases h with
  | metadata id id' key value =>
    exact .inr ⟨id, _, (Change.put.inj hc).2, isTextMap_singleton id' key value, .inl rfl, rfl, rfl⟩
  | annotations => simp at hc
  | entry value hkey =>
    rw [← Atom.text.inj (Change.put.inj hc).1] at hkey
    exact absurd hkey (by decide)

theorem IsTextMap.get_entriesAfter {part : String} {id : ObjectId} {es : MapEntries}
    (h : (MapEntries.get es part).IsTextMap) (hpart : part ∉ "metadata" :: readerKeys)
    (he : e.change.WritesText) : (MapEntries.get (entriesAfter e id es) part).IsTextMap := by
  obtain hget | hput := Value.get_entriesAfter he.annotates id es part
  · exact hget ▸ h.edit he
  · exact isTextMap_of_writesText hpart (hput ▸ he)

theorem IsMetadata.edit (h : v.IsMetadata) (he : e.change.WritesText) : (v.edit e).IsMetadata := by
  obtain rfl | ⟨id, es, rfl, hannotations, hlabels, hname, hspace⟩ := h
  · exact .inl rfl
  · exact .inr ⟨id, entriesAfter e id es, rfl, hannotations.get_entriesAfter (by decide) he,
      hlabels.get_entriesAfter (by decide) he, textFault?_get_entriesAfter hname he id,
      textFault?_get_entriesAfter hspace he id⟩

end Value

namespace Resource

variable {r : Resource} {m : Meta} {part key value : String} {fresh fresh' : ObjectId} {e : Edit}
  {v : Value}

theorem exists_textMap_iff : (∃ texts, textMap part v = .ok texts) ↔ v.IsTextMap := by
  constructor
  · rintro ⟨texts, h⟩
    obtain ⟨rfl, -⟩ | ⟨id, es, rfl⟩ := map_or_null_of_textMap h
    · exact .inl rfl
    · refine .inr ⟨id, es, rfl, ?_⟩
      induction es generalizing texts with
      | nil => exact nofun
      | cons p es ih =>
        obtain ⟨key, texts', hkey, hgiven, hrest, -⟩ := textMap_cons_iff.1 h
        exact List.forall_mem_cons.2 ⟨⟨⟨key, hkey⟩, hgiven⟩, ih texts' hrest⟩
  · rintro (rfl | ⟨id, es, rfl, hes⟩)
    · exact ⟨[], rfl⟩
    · induction es with
      | nil => exact ⟨[], rfl⟩
      | cons p es ih =>
        obtain ⟨⟨⟨key, hkey⟩, hgiven⟩, hes⟩ := List.forall_mem_cons.1 hes
        obtain ⟨texts, htexts⟩ := ih hes
        exact ⟨_, textMap_cons_iff.2 ⟨key, texts, hkey, hgiven, htexts, rfl⟩⟩

theorem exists_shownFilled_iff : (∃ text, v.shownFilled = .ok text) ↔ v.textFault? = none := by
  simp [Value.shownFilled_eq_ok_iff]

/-- Metadata can be read if it and its sections have their shapes, and the fields of texts are given
as text. -/
theorem exists_getMeta_iff :
    (∃ m, r.getMeta = .ok m) ↔ (MapEntries.get r.entries "metadata").IsMetadata ∧
      (MapEntries.get r.entries "apiVersion").textFault? = none ∧
      (MapEntries.get r.entries "kind").textFault? = none := by
  constructor
  · rintro ⟨m, h⟩
    obtain ⟨es, hes, hannotations, hlabels, hversion, hkind, hname, hspace⟩ := getMeta_eq_ok_iff.1 h
    refine ⟨?_, exists_shownFilled_iff.1 ⟨_, hversion⟩, exists_shownFilled_iff.1 ⟨_, hkind⟩⟩
    obtain ⟨hnull, -⟩ | ⟨id, hmap⟩ := metadata_eq_ok_iff.1 hes
    · exact .inl hnull
    · exact .inr ⟨id, es, hmap, exists_textMap_iff.1 ⟨_, hannotations⟩,
        exists_textMap_iff.1 ⟨_, hlabels⟩, exists_shownFilled_iff.1 ⟨_, hname⟩,
        exists_shownFilled_iff.1 ⟨_, hspace⟩⟩
  · rintro ⟨hmetadata, hversion, hkind⟩
    obtain ⟨version, hversion⟩ := exists_shownFilled_iff.2 hversion
    obtain ⟨kind, hkind⟩ := exists_shownFilled_iff.2 hkind
    obtain hnull | ⟨id, es, hmap, hannotations, hlabels, hname, hspace⟩ := hmetadata
    · exact ⟨⟨version, kind, "", "", [], []⟩, getMeta_eq_ok_iff.2
        ⟨[], metadata_eq_ok_iff.2 (.inl ⟨hnull, rfl⟩), rfl, rfl, hversion, hkind, rfl, rfl⟩⟩
    · obtain ⟨annotations, hannotations⟩ := exists_textMap_iff.2 hannotations
      obtain ⟨labels, hlabels⟩ := exists_textMap_iff.2 hlabels
      obtain ⟨name, hname⟩ := exists_shownFilled_iff.2 hname
      obtain ⟨space, hspace⟩ := exists_shownFilled_iff.2 hspace
      exact ⟨⟨version, kind, name, space, annotations, labels⟩, getMeta_eq_ok_iff.2
        ⟨es, metadata_eq_ok_iff.2 (.inr ⟨id, hmap⟩), hannotations, hlabels, hversion, hkind, hname,
          hspace⟩⟩

theorem exists_getMeta_edit (h : ∃ m, r.getMeta = .ok m) (he : e.change.WritesText) :
    ∃ m, (r.edit e).getMeta = .ok m := by
  obtain ⟨hmetadata, hversion, hkind⟩ := exists_getMeta_iff.1 h
  refine exists_getMeta_iff.2 ⟨?_, Value.textFault?_get_entriesAfter hversion he r.id,
    Value.textFault?_get_entriesAfter hkind he r.id⟩
  obtain hget | hput := Value.get_entriesAfter he.annotates r.id r.entries "metadata"
  · exact (congrArg Value.IsMetadata hget).mpr (hmetadata.edit he)
  · exact Value.isMetadata_of_writesText (hput ▸ he)

/-- What could be read can be read when annotations have been written. -/
theorem exists_getMeta_editAll {es : List Edit} (h : ∃ m, r.getMeta = .ok m)
    (hes : ∀ e ∈ es, e.change.WritesText) : ∃ m, (r.editAll es).getMeta = .ok m := by
  induction es generalizing r with
  | nil => exact h
  | cons e es ih =>
    obtain ⟨he, hes⟩ := List.forall_mem_cons.1 hes
    exact ih (exists_getMeta_edit h he) hes

theorem writesText_annotationEdit (h : r.annotationEdit fresh fresh' key value = .ok e)
    (hkey : key ∈ readerKeys) : e.change.WritesText := by
  obtain ⟨-, rfl⟩ | ⟨id, es, -, rfl | ⟨id', es', -, rfl⟩⟩ := annotationEdit_cases h
  · exact .metadata _ _ _ _
  · exact .annotations _ _ _
  · exact .entry value hkey

/-! ### The file -/

/-- The file that a resource names, as far as its metadata can be read. -/
def file? (r : Resource) : Option String := r.getMeta.toOption.bind Meta.path?

theorem file?_of_getMeta (h : r.getMeta = .ok m) : r.file? = m.path? := by
  rw [file?, h]
  rfl

/-- What is read in a section is what is shown of the value there. -/
theorem filter_get?_textMap {id : ObjectId} {es : MapEntries} {texts : TextMap}
    (h : textMap part (.map id es) = .ok texts) (key : String) :
    (texts.get? key).filter (· != "") = (MapEntries.get es key).visible? := by
  rw [get?_of_textMap h, MapEntries.get]
  cases MapEntries.get? es key with
  | none => rfl
  | some v =>
    rw [Option.map_some, Option.getD_some, Value.visible?]
    split <;> rfl

/-- The file is what is shown of the path annotation. -/
theorem file?_eq (h : ∃ m, r.getMeta = .ok m) :
    r.file? = (r.valueOn annotationPath pathKey).visible? := by
  obtain ⟨m, hm⟩ := h
  rw [file?_of_getMeta hm, Meta.path?]
  obtain ⟨es, hes, hannotations, -⟩ := getMeta_eq_ok_iff.1 hm
  have hvalue : r.valueOn annotationPath pathKey =
      (MapEntries.get es "annotations").field [pathKey] := by
    show (MapEntries.get r.entries "metadata").field ["annotations", pathKey] = _
    unfold metadata at hes
    split at hes
    · rename_i hnull
      rw [hnull, ← Except.ok.inj hes]
      rfl
    · rename_i hmap
      rw [hmap, ← Except.ok.inj hes]
      rfl
    · cases hes
  rw [hvalue]
  obtain hnull | ⟨id, es', hmap, -⟩ := exists_textMap_iff.1 ⟨_, hannotations⟩
  · rw [hnull] at hannotations ⊢
    rw [← Except.ok.inj hannotations]
    rfl
  · rw [hmap] at hannotations ⊢
    exact filter_get?_textMap hannotations pathKey

end Resource

end ScopedFn
