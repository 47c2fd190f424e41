import ScopedFn.Proofs.Provenance.Annotation

/-!
# Annotations set in place

An annotation is set by changing maps one after the other: metadata that is missing is made first,
then annotations that are missing, and then the annotation is written. The shape of the metadata is
looked at on the way, so a fault could come when something has been changed already. It never does:
what has just been made has the right shape.

* `Resource.annotateNow` : the changes by which an annotation is set;
* `Value.edit_edit_new` : a change of a map that has just been put in is part of what is put in;
* `Resource.exec_annotateNow` : the changes together are the edit that sets the annotation, and if
  the annotation cannot be set there are none.
-/

set_option autoImplicit false

namespace ScopedFn

/-- How far changes in place have come. -/
structure Progress where
  /-- The first identity that is not in use. -/
  supply : Supply
  /-- The changes of maps, first to last. -/
  edits : List Edit

/-- Changes made in place. After a fault, what has been changed stays changed. -/
abbrev InPlace (ε : Type) := ExceptT ε (StateM Progress)

namespace InPlace

variable {ε ε' α β : Type}

/-- What the changes give, and how far they come. -/
def exec (m : InPlace ε α) (p : Progress) : Except ε α × Progress := (ExceptT.run m).run p

/-- Changes a map. -/
def change (id : ObjectId) (c : Change) : InPlace ε Unit :=
  modify fun p => { p with edits := p.edits ++ [⟨id, c⟩] }

/-- Sets identities apart for new maps. -/
def reserve (count : ℕ) : InPlace ε Unit := modify fun p => { p with supply := p.supply + count }

theorem exec_bind (m : InPlace ε α) (f : α → InPlace ε β) (p : Progress) :
    (m >>= f).exec p = match m.exec p with
      | (.ok a, p') => (f a).exec p'
      | (.error fault, p') => (.error fault, p') := by
  simp only [exec, ExceptT.run_bind, StateT.run_bind]
  rcases (ExceptT.run m).run p with ⟨fault | a, p'⟩ <;> rfl

theorem exec_bind_ok {m : InPlace ε α} {f : α → InPlace ε β} {a : α} {p p' : Progress}
    (h : m.exec p = (.ok a, p')) : (m >>= f).exec p = (f a).exec p' := by
  rw [exec_bind, h]

theorem exec_bind_error {m : InPlace ε α} {f : α → InPlace ε β} {fault : ε} {p p' : Progress}
    (h : m.exec p = (.error fault, p')) : (m >>= f).exec p = (.error fault, p') := by
  rw [exec_bind, h]

end InPlace

namespace Value

variable {v w : Value} {e : Edit} {t : ObjectId} {k : Atom}

theorem editEntries_put (e : Edit) (k : Atom) (w : Value) (es : MapEntries) :
    editEntries e (Entries.put Atom.same k w es) =
      Entries.put Atom.same k (w.edit e) (editEntries e es) := by
  induction es with
  | nil => rfl
  | cons p es ih =>
    rw [editEntries, Entries.put, Entries.put]
    split
    · rfl
    · rw [editEntries, ih]

/-- A change of a map that has just been put in is part of what is put in. -/
theorem edit_edit_new (h : e.target ∉ v.objects) :
    (v.edit ⟨t, .put k w⟩).edit e = v.edit ⟨t, .put k (w.edit e)⟩ := by
  induction v using Value.induction with
  | atom a => rfl
  | set id ms => rfl
  | list id items ih =>
    have hitems : ∀ v ∈ items, (v.edit ⟨t, .put k w⟩).edit e = v.edit ⟨t, .put k (w.edit e)⟩ :=
      fun v hv => ih v hv fun hmem => h (mem_objectsOfItems.2 ⟨v, hv, hmem⟩)
    rw [edit, edit, edit, editItems_eq, editItems_eq, editItems_eq, List.map_map]
    exact congrArg _ (List.map_congr_left hitems)
  | tuple id items ih =>
    have hitems : ∀ v ∈ items, (v.edit ⟨t, .put k w⟩).edit e = v.edit ⟨t, .put k (w.edit e)⟩ :=
      fun v hv => ih v hv fun hmem => h (mem_objectsOfItems.2 ⟨v, hv, hmem⟩)
    rw [edit, edit, edit, editItems_eq, editItems_eq, editItems_eq, List.map_map]
    exact congrArg _ (List.map_congr_left hitems)
  | map id es ih =>
    obtain ⟨hid, hes⟩ := not_or.1 fun hor => h (List.mem_cons.2 hor)
    have hentries : editEntries e (editEntries ⟨t, .put k w⟩ es) =
        editEntries ⟨t, .put k (w.edit e)⟩ es := by
      rw [editEntries_eq, editEntries_eq, editEntries_eq, List.map_map]
      exact List.map_congr_left fun p hp => Prod.ext rfl
        (ih p hp fun hmem => hes (mem_objectsOfEntries.2 ⟨p, hp, hmem⟩))
    rw [edit, edit, edit, if_neg fun heq => hid heq.symm]
    split
    · rw [Change.apply, Change.apply, editEntries_put, hentries]
    · rw [hentries]

end Value

namespace InPlace

variable {es es' : MapEntries} {key : String} {fault : String → MetaFault} {fresh id id' : ObjectId}
  {p : Progress}

/-- The map under a key of a map, which is made if it is missing. -/
def mapUnder (fault : String → MetaFault) (fresh id : ObjectId) (es : MapEntries) (key : String) :
    InPlace MetaFault (ObjectId × MapEntries) :=
  match MapEntries.get es key with
  | .null => do
    change id (.put (.text key) (.map fresh []))
    return (fresh, [])
  | .map id' es' => return (id', es')
  | v => throw (fault v.typeName)

theorem exec_mapUnder_null (h : MapEntries.get es key = .null) :
    (mapUnder fault fresh id es key).exec p =
      (.ok (fresh, []), ⟨p.supply, p.edits ++ [⟨id, .put (.text key) (.map fresh [])⟩]⟩) := by
  rw [mapUnder, h]
  rfl

theorem exec_mapUnder_map (h : MapEntries.get es key = .map id' es') :
    (mapUnder fault fresh id es key).exec p = (.ok (id', es'), p) := by
  rw [mapUnder, h]
  rfl

theorem exec_mapUnder_other (hnull : MapEntries.get es key ≠ .null)
    (hmap : ∀ id es', MapEntries.get es key ≠ .map id es') :
    (mapUnder fault fresh id es key).exec p =
      (.error (fault (MapEntries.get es key).typeName), p) := by
  unfold mapUnder
  split
  · exact absurd (by assumption) hnull
  · exact absurd (by assumption) (hmap _ _)
  · rfl

end InPlace

namespace Resource

open InPlace

variable {r : Resource} {key value : String} {p p' : Progress} {fault : MetaFault} {e : Edit}
  {node : ObjectId} {steps : List Edit}

/-- The map of the annotations, which is made if it is missing, and so is the metadata. -/
def annotationsNode (fresh : ObjectId) (r : Resource) : InPlace MetaFault ObjectId := do
  let metadata ← mapUnder .metadataNotMap fresh r.id r.entries "metadata"
  let annotations ← mapUnder .annotationsNotMap (fresh + 1) metadata.1 metadata.2 "annotations"
  return annotations.1

/-- Sets an annotation. Two identities are set apart for maps that are missing. -/
def annotateNow (key value : String) (r : Resource) : InPlace MetaFault Unit := do
  let node ← r.annotationsNode (← get).supply
  change node (.put (.text key) (.text value))
  reserve 2

theorem exec_annotateNow_eq (key value : String) (r : Resource) (p : Progress) :
    (r.annotateNow key value).exec p = (do
      let node ← r.annotationsNode p.supply
      change node (.put (.text key) (.text value))
      reserve 2).exec p := rfl

theorem exec_annotateNow_of_node
    (h : (r.annotationsNode p.supply).exec p = (.ok node, ⟨p.supply, p.edits ++ steps⟩)) :
    (r.annotateNow key value).exec p = (.ok (),
      ⟨p.supply + 2, p.edits ++ (steps ++ [⟨node, .put (.text key) (.text value)⟩])⟩) := by
  rw [exec_annotateNow_eq, exec_bind_ok h, ← List.append_assoc]
  rfl

/-- If the annotation cannot be set, nothing is changed. -/
theorem exec_annotateNow_error
    (h : r.annotationEdit p.supply (p.supply + 1) key value = .error fault) :
    (r.annotateNow key value).exec p = (.error fault, p) := by
  rw [exec_annotateNow_eq]
  refine exec_bind_error ?_
  unfold annotationEdit at h
  split at h
  · cases h
  · rename_i hmeta
    refine (exec_bind_ok (exec_mapUnder_map hmeta)).trans (exec_bind_error ?_)
    split at h
    · cases h
    · cases h
    · rename_i hnull hmap
      rw [exec_mapUnder_other hnull hmap, ← Except.error.inj h]
  · rename_i hnull hmap
    refine exec_bind_error ?_
    rw [exec_mapUnder_other hnull hmap, ← Except.error.inj h]

/-- **An annotation is set in place** by changes that amount to the edit, in every value that holds
nothing that is new. -/
theorem exec_annotateNow (h : r.annotationEdit p.supply (p.supply + 1) key value = .ok e) :
    ∃ steps, (r.annotateNow key value).exec p = (.ok (), ⟨p.supply + 2, p.edits ++ steps⟩) ∧
      ∀ v : Value, v.bound ≤ p.supply → v.editAll steps = v.edit e := by
  have hnew : ∀ {v : Value}, v.bound ≤ p.supply → ∀ n, p.supply + n ∉ v.objects := fun hv n hmem =>
    absurd (Value.lt_of_mem_objects hv hmem) (not_lt.2 (Nat.le_add_right _ n))
  unfold annotationEdit at h
  split at h
  · -- metadata and annotations are made
    rename_i hmeta
    obtain rfl := Except.ok.inj h
    have hnode : (r.annotationsNode p.supply).exec p = (.ok (p.supply + 1), ⟨p.supply, p.edits ++
        [⟨r.id, .put (.text "metadata") (.map p.supply [])⟩,
          ⟨p.supply, .put (.text "annotations") (.map (p.supply + 1) [])⟩]⟩) := by
      rw [annotationsNode, exec_bind_ok (exec_mapUnder_null hmeta),
        exec_bind_ok (exec_mapUnder_null rfl), List.append_assoc]
      rfl
    refine ⟨_, exec_annotateNow_of_node hnode, fun v hv => ?_⟩
    show ((v.edit _).edit _).edit _ = _
    rw [Value.edit_edit_new (e := ⟨p.supply, _⟩) (hnew hv 0),
      Value.edit_edit_new (e := ⟨p.supply + 1, _⟩) (hnew hv 1)]
    simp [Value.edit, Value.editEntries, Change.apply, Entries.put]
  · rename_i id es hmeta
    split at h
    · -- annotations are made
      rename_i hann
      obtain rfl := Except.ok.inj h
      have hnode : (r.annotationsNode p.supply).exec p = (.ok (p.supply + 1), ⟨p.supply, p.edits ++
          [⟨id, .put (.text "annotations") (.map (p.supply + 1) [])⟩]⟩) := by
        rw [annotationsNode, exec_bind_ok (exec_mapUnder_map hmeta),
          exec_bind_ok (exec_mapUnder_null hann)]
        rfl
      refine ⟨_, exec_annotateNow_of_node hnode, fun v hv => ?_⟩
      show (v.edit _).edit _ = _
      rw [Value.edit_edit_new (e := ⟨p.supply + 1, _⟩) (hnew hv 1)]
      simp [Value.edit, Value.editEntries, Change.apply, Entries.put]
    · -- the annotations are there
      rename_i id' es' hann
      obtain rfl := Except.ok.inj h
      have hnode : (r.annotationsNode p.supply).exec p = (.ok id', ⟨p.supply, p.edits ++ []⟩) := by
        rw [annotationsNode, exec_bind_ok (exec_mapUnder_map hmeta),
          exec_bind_ok (exec_mapUnder_map hann), List.append_nil]
        rfl
      exact ⟨_, exec_annotateNow_of_node hnode, fun v hv => rfl⟩
    · cases h
  · cases h

/-- **Nothing has been changed** when an annotation cannot be set. -/
theorem eq_of_exec_annotateNow (h : (r.annotateNow key value).exec p = (.error fault, p')) :
    p' = p := by
  cases hedit : r.annotationEdit p.supply (p.supply + 1) key value with
  | error fault' =>
    rw [exec_annotateNow_error hedit] at h
    exact (Prod.mk.inj h).2.symm
  | ok e =>
    obtain ⟨steps, hexec, -⟩ := exec_annotateNow hedit
    rw [hexec] at h
    cases (Prod.mk.inj h).1

end Resource

end ScopedFn
