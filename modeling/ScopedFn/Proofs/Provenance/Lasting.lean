import ScopedFn.Proofs.Provenance.Free
import ScopedFn.Proofs.Provenance.Settled
import ScopedFn.Proofs.Resource.File

/-!
# Paths that last

Provenance is written into maps that several resources may hold, so what is written for one resource
may change another. It never takes a path away: what is put on the way to a path annotation brings
a path of its own. So when all resources have been placed all of them have a path, whatever maps they
share.

* `Change.LeavesPath` : the changes that take no path away;
* `Provenance.HasPath.edit` : a resource keeps having a path behind them;
* `Provenance.hasPath_assign` : every resource has a path after an assignment.
-/

set_option autoImplicit false

namespace ScopedFn

/-- The keys that lead to the path of a resource. -/
def pathRoute : List String := Resource.annotationPath ++ [pathKey]

/-- What the change puts on the way to a path has a path. -/
def Change.LeavesPath (c : Change) : Prop := ∀ key parts w, key :: parts <:+ pathRoute →
  c = .put (.text key) w → (w.field parts).visible?.isSome

/-- The keys differ, so one of them tells what is left of the way. -/
theorem eq_of_suffix_pathRoute {key : String} {parts parts' : List String}
    (h : key :: parts <:+ pathRoute) (h' : key :: parts' <:+ pathRoute) : parts = parts' := by
  have hcases : ∀ {parts}, key :: parts <:+ pathRoute →
      key = "metadata" ∧ parts = ["annotations", pathKey] ∨
        key = "annotations" ∧ parts = [pathKey] ∨ key = pathKey ∧ parts = [] := fun h => by
    simpa [pathRoute, Resource.annotationPath, List.suffix_cons_iff] using h
  obtain ⟨rfl, rfl⟩ | ⟨rfl, rfl⟩ | ⟨rfl, rfl⟩ := hcases h <;>
    exact Eq.symm (by simpa [pathKey] using hcases h')

theorem Change.leavesPath_of_field {key : String} {parts : List String} {w : Value}
    (hroute : key :: parts <:+ pathRoute) (h : (w.field parts).visible?.isSome) :
    (Change.put (.text key) w).LeavesPath := by
  intro key' parts' w' hroute' hput
  obtain ⟨hkey, rfl⟩ := Change.put.inj hput
  obtain rfl := Atom.text.inj hkey
  exact eq_of_suffix_pathRoute hroute hroute' ▸ h

theorem Change.leavesPath_of_notMem {key : String} (h : key ∉ pathRoute) (w : Value) :
    (Change.put (.text key) w).LeavesPath := by
  intro key' parts' w' hroute hput
  obtain rfl := Atom.text.inj (Change.put.inj hput).1
  exact absurd (hroute.subset List.mem_cons_self) h

namespace Value

variable {v : Value} {e : Edit} {parts : List String}

theorem visible?_text {s : String} (h : s ≠ "") : (Value.text s).visible? = some s := by
  have hdisplay : (Value.text s).display = s := rfl
  have hnull : (Value.text s).isNull = false := rfl
  rw [visible?, hnull, if_neg Bool.false_ne_true, hdisplay, Option.filter_some_pos (by simpa using h)]

theorem isSome_visible_edit (h : v.visible?.isSome) (e : Edit) : (v.edit e).visible?.isSome := by
  obtain hsame | ⟨-, s, hafter, -⟩ := visible?_editAll v [e]
  · exact (congrArg Option.isSome hsame).trans h
  · exact (congrArg Option.isSome hafter).trans rfl

theorem field_edit_map (e : Edit) (id : ObjectId) (es : MapEntries) (key : String)
    (parts : List String) : ((Value.map id es).edit e).field (key :: parts) =
      (MapEntries.get (entriesAfter e id es) key).field parts := rfl

/-- What is shown at the end of the way to a path is there still behind such a change. -/
theorem isSome_visible_field_edit (he : e.change.Annotates) (hleaves : e.change.LeavesPath)
    (hparts : parts <:+ pathRoute) (h : (v.field parts).visible?.isSome) :
    ((v.edit e).field parts).visible?.isSome := by
  induction parts generalizing v with
  | nil => exact isSome_visible_edit h e
  | cons key parts ih =>
    cases v with
    | map id es =>
      rw [field_edit_map]
      obtain hget | hput := get_entriesAfter he id es key
      · rw [hget]
        exact ih ((List.suffix_cons key parts).trans hparts) h
      · exact hleaves key parts _ hparts hput
    | _ => cases h

end Value

namespace Value

variable {e : Edit} {k key : String} {w : Value} {id : ObjectId} {es : MapEntries}

theorem get_entriesAfter_ne (he : e.change = .put (.text k) w) (hne : k ≠ key) :
    MapEntries.get (entriesAfter e id es) key = (MapEntries.get es key).edit e := by
  unfold entriesAfter
  split
  · rw [he, Change.apply, MapEntries.get_put, if_neg hne, MapEntries.get_editEntries]
  · exact MapEntries.get_editEntries e es key

theorem get_entriesAfter_target (he : e.change = .put (.text k) w) (hid : id = e.target) :
    MapEntries.get (entriesAfter e id es) k = w := by
  rw [entriesAfter, if_pos hid, he, Change.apply, MapEntries.get_put, if_pos rfl]

theorem get_singleton (k : String) (w : Value) : MapEntries.get [(.text k, w)] k = w :=
  (MapEntries.get_put [] k k w).trans (if_pos rfl)

end Value

namespace Resource

variable {r : Resource} {e : Edit} {fresh fresh' : ObjectId} {key value : String}

/-- An annotation that is set has the value that it was set to, whatever maps the resource shares. -/
theorem field_annotationEdit (h : r.annotationEdit fresh fresh' key value = .ok e)
    (hkey : key ∈ readerKeys) :
    (r.edit e).toValue.field (annotationPath ++ [key]) = .text value := by
  have hmetadata : key ≠ "metadata" := by rintro rfl; revert hkey; decide
  have hannotations : key ≠ "annotations" := by rintro rfl; revert hkey; decide
  rw [toValue_edit]
  show (MapEntries.get (Value.entriesAfter e r.id r.entries) "metadata").field ["annotations", key] = _
  unfold annotationEdit at h
  split at h
  · obtain rfl := Except.ok.inj h
    rw [Value.get_entriesAfter_target rfl rfl]
    rw [Value.field, Value.get_singleton]
    exact Value.get_singleton key (.text value)
  · rename_i id es hmeta
    split at h
    · obtain rfl := Except.ok.inj h
      rw [Value.get_entriesAfter_ne rfl (by decide), hmeta, Value.field_edit_map,
        Value.get_entriesAfter_target rfl rfl]
      exact Value.get_singleton key (.text value)
    · rename_i id' es' hann
      obtain rfl := Except.ok.inj h
      rw [Value.get_entriesAfter_ne rfl hmetadata, hmeta, Value.field_edit_map,
        Value.get_entriesAfter_ne rfl hannotations, hann, Value.field_edit_map,
        Value.get_entriesAfter_target rfl rfl]
      rfl
    · cases h
  · cases h

end Resource

namespace Provenance

open Resource

variable {r : Resource} {e : Edit} {fresh fresh' : ObjectId} {key value : String}

/-- A resource has a path iff its metadata can be read and something is shown at the end of the way to
a path. -/
theorem hasPath_iff : HasPath r ↔
    (∃ m, r.getMeta = .ok m) ∧ (r.toValue.field pathRoute).visible?.isSome := by
  have hvalue : r.valueOn annotationPath pathKey = r.toValue.field pathRoute := rfl
  constructor
  · rintro ⟨m, hm, hpath⟩
    refine ⟨⟨m, hm⟩, ?_⟩
    rwa [← hvalue, ← file?_eq ⟨m, hm⟩, file?_of_getMeta hm]
  · rintro ⟨⟨m, hm⟩, hvisible⟩
    refine ⟨m, hm, ?_⟩
    rwa [← hvalue, ← file?_eq ⟨m, hm⟩, file?_of_getMeta hm] at hvisible

/-- A path lasts. -/
theorem HasPath.edit (h : HasPath r) (he : e.change.WritesText) (hleaves : e.change.LeavesPath) :
    HasPath (r.edit e) := by
  obtain ⟨hmeta, hvisible⟩ := hasPath_iff.1 h
  refine hasPath_iff.2 ⟨exists_getMeta_edit hmeta he, ?_⟩
  rw [toValue_edit]
  exact Value.isSome_visible_field_edit he.annotates hleaves List.suffix_rfl hvisible

/-- A resource that is given a path has one. -/
theorem hasPath_annotationEdit (hmeta : ∃ m, r.getMeta = .ok m) (hvalue : value ≠ "")
    (h : r.annotationEdit fresh fresh' pathKey value = .ok e) : HasPath (r.edit e) := by
  have hkey : pathKey ∈ readerKeys := by decide
  refine hasPath_iff.2 ⟨exists_getMeta_edit hmeta (writesText_annotationEdit h hkey), ?_⟩
  rw [pathRoute, field_annotationEdit h hkey, Value.visible?_text hvalue]
  rfl

/-- Giving a path takes none away. -/
theorem leavesPath_annotationEdit (hvalue : value ≠ "")
    (h : r.annotationEdit fresh fresh' pathKey value = .ok e) : e.change.LeavesPath := by
  have hvisible : (Value.text value).visible?.isSome := by rw [Value.visible?_text hvalue]; rfl
  obtain ⟨-, rfl⟩ | ⟨id, es, -, rfl | ⟨id', es', -, rfl⟩⟩ := annotationEdit_cases h
  · have hroute : ["metadata", "annotations", pathKey] <:+ pathRoute := List.suffix_rfl
    refine Change.leavesPath_of_field hroute ?_
    rwa [Value.field, Value.get_singleton, Value.field, Value.get_singleton, Value.field]
  · have hroute : ["annotations", pathKey] <:+ pathRoute := List.suffix_cons _ _
    refine Change.leavesPath_of_field hroute ?_
    rwa [Value.field, Value.get_singleton, Value.field]
  · have hroute : [pathKey] <:+ pathRoute := by decide
    exact Change.leavesPath_of_field hroute hvisible

/-- A resource that has a path has annotations, in which an annotation is set by itself. -/
theorem HasPath.annotationEdit_eq (h : HasPath r)
    (he : r.annotationEdit fresh fresh' key value = .ok e) :
    e.change = .put (.text key) (.text value) := by
  have hvisible : ((MapEntries.get r.entries "metadata").field ["annotations", pathKey]).visible?.isSome :=
    (hasPath_iff.1 h).2
  unfold annotationEdit at he
  split at he
  · rename_i hmeta
    rw [hmeta] at hvisible
    cases hvisible
  · rename_i id es hmeta
    split at he
    · rename_i hann
      rw [hmeta, Value.field, hann] at hvisible
      cases hvisible
    · exact Except.ok.inj he ▸ rfl
    · cases he
  · cases he

/-- Nor does giving an index to a resource that has a path. -/
theorem HasPath.leavesPath (hpath : HasPath r)
    (h : r.annotationEdit fresh fresh' indexKey value = .ok e) : e.change.LeavesPath := by
  rw [hpath.annotationEdit_eq h]
  exact Change.leavesPath_of_notMem (by decide) _

/-! ### The whole assignment -/

namespace Assignment

variable {a a' : Assignment} {position : ℕ} {m : Meta} {ms : List Meta} {path scope stem : Path}
  {done todo : List Resource}

/-- What is known of a resource that is yet to be placed: it can be read, and if there was a path in
its metadata it has one. -/
def Awaits (m : Meta) (r : Resource) : Prop :=
  (∃ m', r.getMeta = .ok m') ∧ (m.path?.isSome → HasPath r)

/-- Some resources have been placed, the others are yet to be. -/
structure Halfway (ms : List Meta) (done todo : List Resource) (a : Assignment) : Prop where
  resources : a.resources = done ++ todo
  placed : ∀ r ∈ done, HasPath r
  awaits : List.Forall₂ Awaits ms todo

/-- An edit that takes no path away leaves an assignment as far as it has come. -/
theorem Halfway.annotated (h : Halfway ms done todo a) (he : e.change.WritesText)
    (hleaves : e.change.LeavesPath) :
    Halfway ms (done.map (·.edit e)) (todo.map (·.edit e)) (a.annotated e) where
  resources := by
    rw [Assignment.annotated, Assignment.edit, h.resources, List.map_append]
  placed := List.forall_mem_map.2 fun r hr => (h.placed r hr).edit he hleaves
  awaits := List.forall₂_map_right_iff.2 (h.awaits.imp fun _ _ hr =>
    ⟨exists_getMeta_edit hr.1 he, fun hpath => (hr.2 hpath).edit he hleaves⟩)

/-- A resource that has a path counts as placed. -/
theorem Halfway.pass (h : Halfway (m :: ms) done (r :: todo) a) (hpath : HasPath r) :
    Halfway ms (done ++ [r]) todo a where
  resources := by rw [h.resources, List.append_assoc, List.singleton_append]
  placed := List.forall_mem_append.2 ⟨h.placed, List.forall_mem_singleton.2 hpath⟩
  awaits := (List.forall₂_cons.1 h.awaits).2

theorem annotate_eq (hr : a.resources[position]? = some r)
    (h : a.annotate position key value = .ok a') :
    ∃ e, r.annotationEdit a.supply (a.supply + 1) key value = .ok e ∧ a' = a.annotated e := by
  unfold annotate at h
  rw [hr] at h
  obtain ⟨e, he, h⟩ := Result.ok_of_bind h
  exact ⟨e, he, (Except.ok.inj h).symm⟩

/-- Placing a resource brings the assignment one resource further. -/
theorem Halfway.place (h : Halfway (m :: ms) done (r :: todo) a) (hpath : path ≠ [])
    (hplace : a.place done.length m path = .ok a') :
    ∃ done' todo', done'.length = done.length + 1 ∧ Halfway ms done' todo' a' := by
  have hvalue : String.ofList (freePath a.taken path) ≠ "" := by
    simpa using freePath_ne_nil hpath a.taken
  have htake : Halfway (m :: ms) done (r :: todo) (a.take (freePath a.taken path)) :=
    ⟨h.resources, h.placed, h.awaits⟩
  rw [place_eq] at hplace
  obtain ⟨a₁, hannotate, hplace⟩ := Result.ok_of_bind hplace
  obtain ⟨e, he, rfl⟩ := annotate_eq (r := r) (by simp [htake.resources]) hannotate
  have hgiven : HasPath (r.edit e) :=
    hasPath_annotationEdit (List.forall₂_cons.1 h.awaits).1.1 hvalue he
  have h₁ := (htake.annotated (writesText_annotationEdit he (by decide))
    (leavesPath_annotationEdit hvalue he)).pass hgiven
  split at hplace
  · -- the index is set in annotations that hold the path
    obtain ⟨e', he', rfl⟩ := annotate_eq (r := r.edit e) (by simp [h₁.resources]) hplace
    exact ⟨_, _, by simp, h₁.annotated (writesText_annotationEdit he' (by decide))
      (hgiven.leavesPath he')⟩
  · obtain rfl := Except.ok.inj hplace
    exact ⟨_, _, by simp, h₁⟩

/-- When all resources have been placed, all of them have a path. -/
theorem Halfway.placeAll (h : Halfway ms done todo a)
    (hplace : placeAll scope stem done.length ms a = .ok a') : ∀ r ∈ a'.resources, HasPath r := by
  induction ms generalizing done todo a with
  | nil =>
    obtain rfl := Except.ok.inj hplace
    have hnil : todo = [] := List.forall₂_nil_left_iff.1 h.awaits
    rw [h.resources, hnil, List.append_nil]
    exact h.placed
  | cons m ms ih =>
    obtain ⟨r, todo, hr, -, rfl⟩ := List.forall₂_cons_left_iff.1 h.awaits
    unfold Assignment.placeAll at hplace
    split at hplace
    · rename_i hpath
      have hlength : done.length + 1 = (done ++ [r]).length := by simp
      rw [hlength] at hplace
      exact ih (h.pass (hr.2 hpath)) hplace
    · obtain ⟨a₁, hone, hplace⟩ := Result.ok_of_bind hplace
      obtain ⟨done', todo', hlength, h₁⟩ := h.place (defaultPath_ne_nil scope m stem) hone
      rw [← hlength] at hplace
      exact ih h₁ hplace

end Assignment

/-- **Every resource has a path after an assignment**, whatever maps the resources share. -/
theorem hasPath_assign {scope : Path} {functionPath : Option String} {rs : List Resource}
    {supply : Supply} {a : Assignment} (h : assign scope functionPath rs supply = .ok a) :
    ∀ r ∈ a.resources, HasPath r := by
  obtain ⟨metas, hmetas, hplace⟩ := assign_eq_ok_iff.1 h
  have hall := Result.forall₂_of_mapM hmetas
  have hawaits : List.Forall₂ Assignment.Awaits metas rs :=
    hall.flip.imp fun m r hm => ⟨⟨m, hm⟩, fun hpath => ⟨m, hm, hpath⟩⟩
  have hstart : Assignment.Halfway metas [] rs (.start rs metas supply) := ⟨rfl, nofun, hawaits⟩
  exact hstart.placeAll hplace

end Provenance

end ScopedFn
