import ScopedFn.Proofs.Resource.InPlace
import ScopedFn.Proofs.Resource.Unshared

/-!
# Annotations are a text map

Annotations stand in nested maps, which are made when the first annotation is set and dropped when
the last one is removed. Whoever sets, removes and reads annotations sees nothing of that: in a
resource that shares nothing they are a text map in insertion order.

* `Resource.annotationTexts` : the texts of the annotations that a resource has;
* `Resource.KeepsRest` : two resources that differ in their annotations at most;
* `Resource.Operation` : what is done with annotations, on a resource and on a text map;
* `Resource.exists_onResource` : one operation does the same on both, and keeps everything else;
* `Resource.operations_follow_textMap` : so does every sequence of operations, and an annotation
  that cannot be set changes nothing.
-/

set_option autoImplicit false

namespace ScopedFn

open Entries (put erase)

namespace MapEntries

variable {es : MapEntries} {key : String}

theorem put_put (key : String) (v w : Value) (es : MapEntries) :
    put Atom.same (.text key) w (put Atom.same (.text key) v es) =
      put Atom.same (.text key) w es := by
  induction es with
  | nil => exact put_cons_self key v w []
  | cons p es ih =>
    obtain ⟨k, u⟩ := p
    obtain rfl | hk := eq_or_ne k (.text key)
    · rw [put_cons_self, put_cons_self, put_cons_self]
    · rw [put_cons_ne hk, put_cons_ne hk, put_cons_ne hk, ih]

theorem erase_put (key : String) (v : Value) (es : MapEntries) :
    erase Atom.same (.text key) (put Atom.same (.text key) v es) =
      erase Atom.same (.text key) es := by
  induction es with
  | nil =>
    rw [put, erase]
    exact if_pos (Atom.same_text.2 rfl)
  | cons p es ih =>
    obtain ⟨k, u⟩ := p
    rw [put, erase]
    split
    · rw [erase, if_pos (by assumption)]
    · rw [erase, if_neg (by assumption), ih]

theorem get_erase (h : es.Keyed) (k key : String) :
    get (erase Atom.same (.text k) es) key = if k = key then .null else get es key := by
  rw [get, get?_erase h]
  split_ifs <;> rfl

theorem get_putUnlessEmpty (h : es.Keyed) (k key : String) (id : ObjectId) (fs : MapEntries) :
    get (putUnlessEmpty es k id fs) key =
      if k = key then (if fs.isEmpty then .null else .map id fs) else get es key := by
  unfold putUnlessEmpty
  split
  · exact get_erase h k key
  · exact get_put es k key _

theorem erase_putUnlessEmpty (h : es.Keyed) (key : String) (id : ObjectId) (fs : MapEntries) :
    erase Atom.same (.text key) (putUnlessEmpty es key id fs) = erase Atom.same (.text key) es := by
  unfold putUnlessEmpty
  split
  · exact erase_eq_self ((get?_erase h key key).trans (if_pos rfl))
  · exact erase_put key _ es

/-- The text keys with the texts of their values; null has the empty text. -/
def texts (es : MapEntries) : TextMap :=
  es.filterMap fun (k, v) =>
    match k with
    | .text key => some (key, if v.isNull then "" else v.display)
    | _ => none

end MapEntries

namespace Resource

variable {r r' r'' : Resource} {m : Meta} {supply : Supply} {key value part : String}
  {id : ObjectId} {es : MapEntries} {texts : TextMap}

/-! ### The texts of annotations -/

theorem texts_of_textMap (h : textMap part (.map id es) = .ok texts) :
    texts = MapEntries.texts es := by
  induction es generalizing texts with
  | nil => exact (Except.ok.inj h).symm
  | cons p es ih =>
    obtain ⟨k, v⟩ := p
    obtain ⟨s, texts', rfl, -, htexts, rfl⟩ := textMap_cons_iff.1 h
    rw [ih htexts]
    rfl

/-- Removing a key of a section that is read as a text map removes the key from the text map. -/
theorem textMap_erase (h : textMap part (.map id es) = .ok texts) (key : String) :
    textMap part (.map id (erase Atom.same (.text key) es)) = .ok (texts.erase key) := by
  induction es generalizing texts with
  | nil =>
    obtain rfl := Except.ok.inj h
    rfl
  | cons p es ih =>
    obtain ⟨k, v⟩ := p
    obtain ⟨s, texts', rfl, hgiven, htexts, rfl⟩ := textMap_cons_iff.1 h
    by_cases hs : s = key
    · subst hs
      rw [erase, if_pos (Atom.same_text.2 rfl), TextMap.erase, erase, if_pos (beq_self_eq_true s)]
      exact htexts
    · have hkey : Atom.text s ≠ .text key := fun heq => hs (Atom.text.inj heq)
      have hbeq : ¬ (s == key) = true := by simpa using hs
      rw [erase, if_neg fun hsame => hkey (Atom.same_text.1 hsame), TextMap.erase, erase,
        if_neg hbeq]
      exact textMap_cons_iff.2 ⟨s, _, rfl, hgiven, ih htexts, rfl⟩

/-- The texts of the annotations that the resource has. -/
def annotationTexts (r : Resource) : TextMap :=
  match r.field annotationPath with
  | .map _ es => MapEntries.texts es
  | _ => []

theorem annotations_eq (hread : r.getMeta = .ok m) : m.annotations = r.annotationTexts := by
  obtain ⟨es, hes, hannotations, -⟩ := getMeta_eq_ok_iff.1 hread
  rw [annotationTexts, field, annotationPath, toValue, Value.field]
  unfold metadata at hes
  split at hes
  · rename_i hmeta
    obtain rfl := Except.ok.inj hes
    rw [hmeta]
    exact (Except.ok.inj hannotations).symm
  · rename_i hmeta
    obtain rfl := Except.ok.inj hes
    rw [hmeta, Value.field, Value.field]
    split
    · rename_i hann
      rw [hann] at hannotations
      exact texts_of_textMap hannotations
    · rename_i hann
      unfold textMap at hannotations
      split at hannotations
      · exact (Except.ok.inj hannotations).symm
      · exact absurd (by assumption) (hann _ _)
      · cases hannotations
  · cases hes

/-! ### What is kept -/

/-- Metadata that may have lost or gained annotations, and is otherwise the same. Missing metadata
may have become a map with annotations only. -/
inductive MetadataKept : Value → Value → Prop
  | same (v : Value) : MetadataKept v v
  | made (id : ObjectId) {es : MapEntries} (h : erase Atom.same (.text "annotations") es = []) :
      MetadataKept .null (.map id es)
  | changed (id : ObjectId) {es es' : MapEntries}
      (h : erase Atom.same (.text "annotations") es' = erase Atom.same (.text "annotations") es) :
      MetadataKept (.map id es) (.map id es')

theorem MetadataKept.trans {v v' v'' : Value} (h : MetadataKept v v') (h' : MetadataKept v' v'') :
    MetadataKept v v'' := by
  cases h with
  | same => exact h'
  | made id hes =>
    cases h' with
    | same => exact .made id hes
    | changed id hes' => exact .made id (hes'.trans hes)
  | changed id hes =>
    cases h' with
    | same => exact .changed id hes
    | changed id hes' => exact .changed id (hes'.trans hes)

/-- The second resource differs from the first one in its annotations at most. -/
def KeepsRest (r r' : Resource) : Prop :=
  r' = r ∨ ∃ v, MetadataKept (r.entries.get "metadata") v ∧
    r' = ⟨r.id, put Atom.same (.text "metadata") v r.entries⟩

theorem KeepsRest.trans (h : r.KeepsRest r') (h' : r'.KeepsRest r'') : r.KeepsRest r'' := by
  obtain rfl | ⟨v, hv, rfl⟩ := h
  · exact h'
  · obtain rfl | ⟨w, hw, rfl⟩ := h'
    · exact .inr ⟨v, hv, rfl⟩
    · rw [MapEntries.get_put, if_pos rfl] at hw
      exact .inr ⟨w, hv.trans hw, by rw [MapEntries.put_put]⟩

theorem keepsRest_annotatedWith (hread : r.getMeta = .ok m) (fresh : ObjectId)
    (key value : String) : r.KeepsRest (r.annotatedWith fresh key value) := by
  refine .inr ⟨_, ?_, rfl⟩
  obtain hmeta | ⟨id, es, hmeta, -⟩ := annotation_cases hread key
  · rw [MapEntries.mapAt?, hmeta]
    exact .made fresh (MapEntries.erase_put _ _ [])
  · rw [MapEntries.mapAt?_eq_some.2 hmeta, hmeta]
    exact .changed id (MapEntries.erase_put _ _ es)

theorem Unshared.keepsRest_unannotate (h : r.Unshared supply) (key : String) :
    r.KeepsRest (r.unannotate key) := by
  rw [h.unannotate_eq]
  obtain ⟨id, es, id', ann, hholds⟩ | ⟨hsame, -⟩ := holds_or h.keyed h.coherent [key]
  · refine .inr ⟨_, ?_, hholds.stripped_eq [key]⟩
    rw [hholds.metadata]
    exact .changed id (MapEntries.erase_putUnlessEmpty hholds.keyed _ _ _)
  · exact .inl hsame

/-! ### Reading what is left -/

theorem annotations_eq_nil (hread : r.getMeta = .ok m) (h : ¬r.HasAnnotations) :
    m.annotations = [] := by
  obtain ⟨es', hes, hannotations, -⟩ := getMeta_eq_ok_iff.1 hread
  obtain hmeta | ⟨id, es, hmeta, hann⟩ := annotation_cases hread ""
  · rw [metadata, hmeta] at hes
    obtain rfl := Except.ok.inj hes
    exact (Except.ok.inj hannotations).symm
  · rw [metadata, hmeta] at hes
    obtain rfl := Except.ok.inj hes
    obtain hann | ⟨id', ann, hann, -⟩ := hann
    · rw [hann] at hannotations
      exact (Except.ok.inj hannotations).symm
    · exact absurd ⟨id, es, id', ann, hmeta, hann⟩ h

theorem Holds.getMeta_stripped {id' : ObjectId} {ann : MapEntries} (h : Holds r id es id' ann)
    (hread : r.getMeta = .ok m) (key : String) : (r.stripped [key]).getMeta =
      .ok { m with annotations := m.annotations.erase key } := by
  obtain ⟨es', hes, hannotations, hlabels, hversion, hkind, hname, hspace⟩ :=
    getMeta_eq_ok_iff.1 hread
  rw [Resource.metadata, h.metadata] at hes
  obtain rfl := Except.ok.inj hes
  rw [h.annotations] at hannotations
  have hleft := textMap_erase hannotations key
  have hget := MapEntries.get_putUnlessEmpty h.keyed "annotations"
  rw [h.stripped_eq, getMeta_eq_ok_iff]
  refine ⟨MapEntries.putUnlessEmpty es "annotations" id' (MapEntries.without [key] ann),
    ?_, ?_, ?_, ?_, ?_, ?_, ?_⟩
  · rw [Resource.metadata, MapEntries.get_put, if_pos rfl]
  · rw [hget, if_pos rfl]
    split
    · -- the map is dropped, and no annotations are read from no map
      rename_i hempty
      have hnil : erase Atom.same (.text key) ann = [] := List.isEmpty_iff.1 hempty
      rw [hnil] at hleft
      exact hleft
    · exact hleft
  · rwa [hget, if_neg (by decide)]
  · rwa [apiVersion, MapEntries.get_put, if_neg (by decide)]
  · rwa [kind, MapEntries.get_put, if_neg (by decide)]
  · rwa [hget, if_neg (by decide)]
  · rwa [hget, if_neg (by decide)]

/-- **An annotation that is removed is not read.** The metadata is what it was, without the
annotation. -/
theorem Unshared.getMeta_unannotate (h : r.Unshared supply) (hread : r.getMeta = .ok m)
    (key : String) :
    (r.unannotate key).getMeta = .ok { m with annotations := m.annotations.erase key } := by
  rw [h.unannotate_eq]
  by_cases hann : r.HasAnnotations
  · obtain ⟨id, es, id', ann, hmeta, hann⟩ := hann
    exact (holds_of_get h.keyed h.coherent hmeta hann).getMeta_stripped hread key
  · have hsame : r.stripped [key] = r := match_of_not_hasAnnotations hann _ _
    have hnil := annotations_eq_nil hread hann
    rw [hsame, hread, hnil, TextMap.erase, erase, ← hnil]

/-! ### Operations -/

/-- What is done with annotations. -/
inductive Operation where
  /-- Sets an annotation to the text of a value. -/
  | set (key : String) (value : Value)
  /-- Removes an annotation. -/
  | remove (key : String)
  /-- Reads an annotation, with an answer for the case that it is missing. -/
  | get (key : String) (missing : Option String)

namespace Operation

/-- The answer of the operation on a text map, and the map afterwards. A value that is given as no
text is not set. -/
def onTexts : Operation → TextMap → Except TextFault (Option String) × TextMap
  | set key value, texts =>
    match value.shown with
    | .error cause => (.error cause, texts)
    | .ok text => (.ok none, texts.put key text)
  | remove key, texts => (.ok none, texts.erase key)
  | get key missing, texts => (.ok ((texts.get? key).or missing), texts)

/-- The answers of operations on a text map, each with the map afterwards. -/
def runTexts : List Operation → TextMap → List (Except TextFault (Option String) × TextMap)
  | [], _ => []
  | op :: ops, texts => op.onTexts texts :: runTexts ops (op.onTexts texts).2

/-- The answer of the operation on a resource, and the resource afterwards. The text of a value is
made before the resource is looked at. -/
def onResource (r : Resource) (supply : Supply) :
    Operation → Except (OrNoText MetaFault) (Option String) × Resource × Supply
  | set key value =>
    match value.shown with
    | .error cause => (.error (.noText cause), r, supply)
    | .ok text =>
      match r.annotate supply (supply + 1) key text with
      | .error fault => (.error (.fault fault), r, supply)
      | .ok r' => (.ok none, r', supply + 2)
  | remove key => (.ok none, r.unannotate key, supply)
  | get key missing => (r.getMeta.map fun m => (m.annotations.get? key).or missing, r, supply)

/-- The answers of operations on a resource, each with the resource afterwards. -/
def run : List Operation → Resource → Supply →
    List (Except (OrNoText MetaFault) (Option String) × Resource)
  | [], _, _ => []
  | op :: ops, r, supply =>
    let (answer, r', supply') := op.onResource r supply
    (answer, r') :: run ops r' supply'

end Operation

/-- **One operation** gives the answer that it gives on the text map, leaves the annotations that it
leaves there, and keeps everything else. -/
theorem exists_onResource (h : r.Unshared supply) (hread : r.getMeta = .ok m) (op : Operation) :
    ∃ r' supply',
      op.onResource r supply = ((op.onTexts m.annotations).1.mapError .noText, r', supply') ∧
      r'.getMeta = .ok { m with annotations := (op.onTexts m.annotations).2 } ∧
        r.KeepsRest r' ∧ r'.Unshared supply' := by
  cases op with
  | set key value =>
    rw [Operation.onResource, Operation.onTexts]
    cases value.shown with
    | error cause => exact ⟨r, supply, rfl, hread, .inl rfl, h⟩
    | ok text =>
      refine ⟨r.annotatedWith supply key text, supply + 2, ?_,
        getMeta_annotatedWith hread supply key _, keepsRest_annotatedWith hread supply key _,
        h.annotatedWith hread key _⟩
      dsimp only
      rw [h.annotate_eq hread]
      rfl
  | remove key =>
    exact ⟨r.unannotate key, supply, rfl, h.getMeta_unannotate hread key,
      h.keepsRest_unannotate key, h.unannotate key⟩
  | get key missing =>
    refine ⟨r, supply, ?_, hread, .inl rfl, h⟩
    rw [Operation.onResource, hread]
    rfl

/-- What a resource has after operations, in terms of a text map. -/
def Follows (r : Resource) (m : Meta)
    (state : Except (OrNoText MetaFault) (Option String) × Resource)
    (expected : Except TextFault (Option String) × TextMap) : Prop :=
  state.1 = expected.1.mapError .noText ∧
    state.2.getMeta = .ok { m with annotations := expected.2 } ∧ r.KeepsRest state.2

/-- **All operations** do the same on a resource as on its annotations as a text map. -/
theorem forall₂_run (h : r.Unshared supply) (hread : r.getMeta = .ok m) (ops : List Operation) :
    List.Forall₂ (r.Follows m) (Operation.run ops r supply)
      (Operation.runTexts ops m.annotations) := by
  induction ops generalizing r m supply with
  | nil => exact .nil
  | cons op ops ih =>
    obtain ⟨r', supply', hop, hread', hrest, h'⟩ := exists_onResource h hread op
    rw [Operation.run, hop, Operation.runTexts]
    refine .cons ⟨rfl, hread', hrest⟩ ((ih h' hread').imp ?_)
    rintro state expected ⟨hanswer, hmeta, hkeeps⟩
    exact ⟨hanswer, hmeta, hrest.trans hkeeps⟩

/-- An annotation that cannot be set in place cannot be set at all, and nothing has been changed. -/
theorem annotate_of_exec_error {p p' : Progress} {fault : MetaFault}
    (h : (r.annotateNow key value).exec p = (.error fault, p')) :
    p' = p ∧ r.annotate p.supply (p.supply + 1) key value = .error fault := by
  refine ⟨eq_of_exec_annotateNow h, ?_⟩
  rw [annotate]
  cases hedit : r.annotationEdit p.supply (p.supply + 1) key value with
  | error fault' =>
    rw [exec_annotateNow_error hedit] at h
    exact congrArg Except.error (Except.error.inj (Prod.mk.inj h).1)
  | ok e =>
    obtain ⟨steps, hexec, -⟩ := exec_annotateNow hedit
    rw [hexec] at h
    cases (Prod.mk.inj h).1

/-- **Annotations are a text map in insertion order.** In a resource that shares nothing and whose
metadata can be read, operations on annotations, as many as there are, leave metadata that can be
read. Each gives the answer and leaves the annotations that it would on a text map that starts with
the texts of the annotations, and it keeps everything else. In any resource at all, an annotation that
cannot be set leaves everything unchanged. -/
theorem operations_follow_textMap :
    (∀ (r : Resource) (supply : Supply) (m : Meta) (ops : List Operation), r.Unshared supply →
      r.getMeta = .ok m → List.Forall₂ (r.Follows m) (Operation.run ops r supply)
        (Operation.runTexts ops r.annotationTexts)) ∧
      ∀ (r : Resource) (key value : String) (p p' : Progress) (fault : MetaFault),
        (r.annotateNow key value).exec p = (.error fault, p') →
          p' = p ∧ r.annotate p.supply (p.supply + 1) key value = .error fault := by
  refine ⟨fun r supply m ops h hread => ?_, fun r key value p p' fault h =>
    annotate_of_exec_error h⟩
  rw [← annotations_eq hread]
  exact forall₂_run h hread ops

/-- The only annotation of a resource is removed, which drops the map of annotations; then it is
asked for, two are set, the first one of them again, one to a number with too many digits, and it is
asked for. Metadata that is a number takes no annotation. -/
theorem operations_follow_textMap_replaced :
    List.Forall₂ (Follows ⟨1, [(.text "metadata", .map 2 [(.text "name", .text "web"),
          (.text "annotations", .map 3 [(.text "team", .int 7)])])]⟩
        ⟨"", "", "web", "", [("team", "7")], []⟩)
      (Operation.run [.remove "team", .get "team" (some "nobody"), .set "a" (.bool true),
          .set "b" (.text "x"), .set "a" .null, .set "a" (.int (16 ^ 3600)), .get "a" none]
        ⟨1, [(.text "metadata", .map 2 [(.text "name", .text "web"),
          (.text "annotations", .map 3 [(.text "team", .int 7)])])]⟩ 4)
      [(.ok none, []), (.ok (some "nobody"), []), (.ok none, [("a", "True")]),
        (.ok none, [("a", "True"), ("b", "x")]), (.ok none, [("a", "None"), ("b", "x")]),
        (.error .numberTooLong, [("a", "None"), ("b", "x")]),
        (.ok (some "None"), [("a", "None"), ("b", "x")])] ∧
      annotate 4 5 "a" "x" ⟨1, [(.text "metadata", .int 2)]⟩ = .error (.metadataNotMap "int") := by
  have hkeyed : ∀ m ∈ (Value.map 1 [(.text "metadata", .map 2 [(.text "name", .text "web"),
      (.text "annotations", .map 3 [(.text "team", .int 7)])])]).maps, MapEntries.Keyed m.2 := by
    intro m hm
    constructor <;> revert m <;> decide
  have hlong : (Value.int (16 ^ 3600)).shown = .error .numberTooLong := by decide +kernel
  have hruns := operations_follow_textMap.1
    ⟨1, [(.text "metadata", .map 2 [(.text "name", .text "web"),
      (.text "annotations", .map 3 [(.text "team", .int 7)])])]⟩ 4
    ⟨"", "", "web", "", [("team", "7")], []⟩
    [.remove "team", .get "team" (some "nobody"), .set "a" (.bool true), .set "b" (.text "x"),
      .set "a" .null, .set "a" (.int (16 ^ 3600)), .get "a" none] ⟨by decide, hkeyed, by decide⟩
    (by decide +kernel)
  simp only [Operation.runTexts, Operation.onTexts, hlong] at hruns
  exact ⟨hruns, (operations_follow_textMap.2 _ "a" "x" ⟨4, []⟩ ⟨4, []⟩ _ rfl).2⟩

end Resource

end ScopedFn
