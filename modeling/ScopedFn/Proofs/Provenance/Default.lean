import ScopedFn.Proofs.Provenance.Place
import ScopedFn.Proofs.Resource.Metadata

/-!
# What an assignment of provenance should do

A resource that has a path is not to be touched. Any other one is to be given a path, and an index
unless it has one, and nothing else about it is to change. The annotations are written one after the
other into maps that are there, so this is what happens if each of these maps stands at one place only.

* `Provenance.Defaulted` : what should become of resources;
* `Provenance.Unshared` : no map that is edited stands at a second place;
* `Provenance.defaulted_of_unshared` : then what should happen does.
-/

set_option autoImplicit false

namespace ScopedFn

/-- The identities of the maps in several resources. -/
def Resource.objectsOf (rs : List Resource) : List ObjectId := rs.flatMap fun r => r.toValue.objects

namespace Provenance

open Resource

variable {scope stem path : Path} {lo : Supply} {rs rest done : List Resource} {r : Resource} {m : Meta}
  {a a' : Assignment} {key value : String} {target : ObjectId}

/-- The resource with a path and, unless it has an index, the index zero. Maps that are missing are
made with identities from the given one on. -/
def located (fresh : ObjectId) (m : Meta) (path : Path) (r : Resource) : Resource :=
  let r := r.annotatedWith fresh pathKey (String.ofList path)
  if (m.annotations.get? indexKey).isNone then r.annotatedWith (fresh + 2) indexKey "0" else r

/-- What should become of resources and of the paths that are given: who has a path stays as it is,
and the others are given the paths in their order, and an index, and nothing else. -/
inductive Defaulted (lo : Supply) : List Resource → List Path → List Resource → Prop
  /-- Nothing is left. -/
  | nil : Defaulted lo [] [] []
  /-- A resource that has a path. -/
  | kept {r m rs paths rs'} (hmeta : r.getMeta = .ok m) (hpath : m.path?.isSome)
      (hrest : Defaulted lo rs paths rs') : Defaulted lo (r :: rs) paths (r :: rs')
  /-- A resource that is given a path. -/
  | given {r m fresh path rs paths rs'} (hmeta : r.getMeta = .ok m) (hpath : m.path? = none)
      (hfresh : lo ≤ fresh) (hrest : Defaulted lo rs paths rs') :
      Defaulted lo (r :: rs) (path :: paths) (located fresh m path r :: rs')

/-- The resource is to be given a path. -/
def IsNew (r : Resource) : Prop := ∃ m, r.getMeta = .ok m ∧ m.path? = none

/-- The map that is edited when a new resource is annotated stands at one place in all resources. -/
def Unshared (rs : List Resource) : Prop :=
  ∀ r ∈ rs, IsNew r → (objectsOf rs).count r.place = 1

/-! ### One resource -/

/-- The metadata of a resource with a path and an index. -/
theorem getMeta_located (h : r.getMeta = .ok m) (fresh : ObjectId) (path : Path) :
    (located fresh m path r).getMeta =
      let annotations := m.annotations.put pathKey (String.ofList path)
      .ok { m with
        annotations :=
          if (m.annotations.get? indexKey).isNone then annotations.put indexKey "0"
          else annotations } := by
  have hpath := getMeta_annotatedWith h fresh pathKey (String.ofList path)
  unfold located
  dsimp only
  split
  · exact getMeta_annotatedWith hpath (fresh + 2) indexKey "0"
  · exact hpath

/-- The path of a resource, as far as its metadata can be read. -/
def pathOf? (r : Resource) : Option String := r.getMeta.toOption.bind fun m => m.annotations.get? pathKey

theorem pathOf?_located (h : r.getMeta = .ok m) (fresh : ObjectId) (path : Path) :
    pathOf? (located fresh m path r) = some (String.ofList path) := by
  have hput : (m.annotations.put pathKey (String.ofList path)).get? pathKey =
      some (String.ofList path) := Entries.find?_put_self (beq_self_eq_true _) _
  rw [pathOf?, getMeta_located h]
  show TextMap.get? _ pathKey = _
  dsimp only
  split
  · rw [← hput]
    refine Entries.find?_put_ne (fun key hkey => ?_) (by decide) _
    rw [eq_of_beq hkey]
    decide
  · exact hput

/-- Who is given a path has that path. -/
theorem Defaulted.pathOf?_eq {rs' : List Resource} {paths : List Path} (h : Defaulted lo rs paths rs')
    (hnew : ∀ r ∈ rs, IsNew r) :
    rs'.map pathOf? = paths.map fun path => some (String.ofList path) := by
  induction h with
  | nil => rfl
  | kept hmeta hpath _ _ =>
    obtain ⟨m, hm, hnone⟩ := hnew _ List.mem_cons_self
    obtain rfl := Except.ok.inj (hm.symm.trans hmeta)
    rw [hnone] at hpath
    cases hpath
  | given hmeta _ _ _ ih =>
    rw [List.map_cons, List.map_cons, pathOf?_located hmeta,
      ih fun r hr => hnew r (List.mem_cons_of_mem _ hr)]

theorem objectsOf_append (rs rs' : List Resource) :
    objectsOf (rs ++ rs') = objectsOf rs ++ objectsOf rs' :=
  List.flatMap_append

theorem objectsOf_cons (r : Resource) (rs : List Resource) :
    objectsOf (r :: rs) = r.toValue.objects ++ objectsOf rs :=
  List.flatMap_cons

/-- The map that is edited when the resource is annotated stands there once, and in no other
resource. -/
structure Alone (r : Resource) (others : List Resource) : Prop where
  /-- It stands in the resource once. -/
  once : r.toValue.objects.count r.place = 1
  /-- It does not stand in another one. -/
  elsewhere : r.place ∉ objectsOf others

theorem alone_of_count (h : (objectsOf (done ++ r :: rest)).count r.place = 1) :
    Alone r (done ++ rest) := by
  have hpos : 0 < r.toValue.objects.count r.place := List.count_pos_iff.2 r.place_mem_objects
  rw [objectsOf_append, objectsOf_cons, List.count_append, List.count_append] at h
  refine ⟨by omega, List.count_eq_zero.1 ?_⟩
  rw [objectsOf_append, List.count_append]
  omega

/-- No identity that the resources hold lies behind the supply. -/
def BoundedBy (hi : Supply) (rs : List Resource) : Prop := ∀ r ∈ rs, r.toValue.bound ≤ hi

theorem lt_of_mem_objectsOf {hi : Supply} (h : BoundedBy hi rs) (hmem : target ∈ objectsOf rs) :
    target < hi := by
  obtain ⟨r, hr, hin⟩ := List.mem_flatMap.1 hmem
  exact Value.lt_of_mem_objects (h r hr) hin

theorem Alone.annotatedWith (h : Alone r rs) {supply : Supply} (hr : r.toValue.bound ≤ supply)
    (hrs : BoundedBy supply rs) (key value : String) : Alone (r.annotatedWith supply key value) rs := by
  refine ⟨count_place_annotatedWith hr h.once, fun hmem => ?_⟩
  obtain heq | hle := place_annotatedWith r supply key value
  · exact h.elsewhere (heq ▸ hmem)
  · exact absurd (lt_of_mem_objectsOf hrs hmem) (not_lt.2 hle)

/-- Where the edited map stands nowhere else, an annotation is set and nothing else happens. -/
theorem resources_annotate (ha : a.resources = done ++ r :: rest) (halone : Alone r (done ++ rest))
    (h : a.annotate done.length key value = .ok a') :
    a'.resources = done ++ r.annotatedWith a.supply key value :: rest ∧ a'.supply = a.supply + 2 := by
  have hat : a.resources[done.length]? = some r := by
    rw [ha, List.getElem?_append_right le_rfl, Nat.sub_self, List.getElem?_cons_zero]
  unfold Assignment.annotate at h
  rw [hat] at h
  obtain ⟨e, he, h⟩ := Result.ok_of_bind h
  obtain rfl := Except.ok.inj h
  have hothers : ∀ q ∈ done ++ rest, q.edit e = q := by
    intro q hq
    refine toValue_injective ((toValue_edit e q).trans (Value.edit_eq_self ?_))
    rw [target_annotationEdit he]
    exact fun hmem => halone.elsewhere (List.mem_flatMap.2 ⟨q, hq, hmem⟩)
  have hdone : done.map (·.edit e) = done :=
    (List.map_congr_left fun q hq => hothers q (List.mem_append_left _ hq)).trans (List.map_id _)
  have hrest : rest.map (·.edit e) = rest :=
    (List.map_congr_left fun q hq => hothers q (List.mem_append_right _ hq)).trans (List.map_id _)
  refine ⟨?_, rfl⟩
  have hedited : (a.edit e).resources = a.resources.map (·.edit e) := rfl
  show (a.edit e).resources = _
  rw [hedited, ha, List.map_append, List.map_cons, hdone, hrest, edit_eq_annotatedWith he halone.once]

/-- The same of a path and an index. -/
theorem resources_place (ha : a.resources = done ++ r :: rest) (halone : Alone r (done ++ rest))
    (hbound : BoundedBy a.supply (done ++ r :: rest)) (h : a.place done.length m path = .ok a') :
    a'.resources = done ++ located a.supply m (freePath a.taken path) r :: rest := by
  rw [Assignment.place_eq] at h
  obtain ⟨a₁, hfirst, h⟩ := Result.ok_of_bind h
  have htaken : (a.take (freePath a.taken path)).resources = done ++ r :: rest := ha
  obtain ⟨hresources, hsupply⟩ := resources_annotate htaken halone hfirst
  have hfirst' : a₁.supply = a.supply + 2 := hsupply
  unfold located
  split at h
  · rename_i hindex
    -- the second annotation is set in the map of the first one
    have hr : r.toValue.bound ≤ a.supply := hbound r (by simp)
    have hothers : BoundedBy a.supply (done ++ rest) := fun q hq => hbound q (by
      rw [List.mem_append, List.mem_cons]
      exact (List.mem_append.1 hq).imp_right .inr)
    obtain ⟨hresources', -⟩ := resources_annotate hresources (halone.annotatedWith hr hothers _ _) h
    rw [hresources', hfirst', if_pos hindex]
    rfl
  · rename_i hindex
    rw [← Except.ok.inj h, hresources, if_neg hindex]
    rfl

theorem mem_objects_located {fresh : ObjectId}
    (h : target ∈ (located fresh m path r).toValue.objects) :
    target ∈ r.toValue.objects ∨ fresh ≤ target := by
  unfold located at h
  dsimp only at h
  split at h
  · obtain hmem | hle := mem_objects_annotatedWith h
    · exact mem_objects_annotatedWith hmem
    · exact .inr (le_trans (Nat.le_add_right _ _) hle)
  · exact mem_objects_annotatedWith h

/-! ### All resources -/

/-- The resources that are still to be given a path can be annotated apart from all others. -/
def Pending (done rest : List Resource) : Prop :=
  ∀ r ∈ rest, IsNew r → (objectsOf (done ++ rest)).count r.place = 1

theorem Pending.kept (h : Pending done (r :: rest)) : Pending (done ++ [r]) rest := by
  intro q hq hnew
  rw [List.append_assoc]
  exact h q (List.mem_cons_of_mem r hq) hnew

/-- What is set in one resource changes nothing for those that come later. -/
theorem Pending.given (h : Pending done (r :: rest)) {supply : Supply}
    (hbound : BoundedBy supply (done ++ r :: rest)) :
    Pending (done ++ [located supply m path r]) rest := by
  intro q hq hnew
  have hone := h q (List.mem_cons_of_mem r hq) hnew
  have hmem : q.place ∈ objectsOf rest := List.mem_flatMap.2 ⟨q, hq, q.place_mem_objects⟩
  have hlt : q.place < supply := by
    refine lt_of_mem_objectsOf hbound ?_
    rw [objectsOf_append, objectsOf_cons]
    simp [hmem]
  have hpos : 0 < (objectsOf rest).count q.place := List.count_pos_iff.2 hmem
  rw [objectsOf_append, objectsOf_cons, List.count_append, List.count_append] at hone
  have hold : q.place ∉ r.toValue.objects := List.count_eq_zero.1 (by omega)
  have hlocated : (located supply m path r).toValue.objects.count q.place = 0 := by
    refine List.count_eq_zero.2 fun hin => ?_
    obtain hin' | hle := mem_objects_located hin
    · exact hold hin'
    · exact absurd hlt (not_lt.2 hle)
  rw [List.append_assoc, List.singleton_append, objectsOf_append, objectsOf_cons, List.count_append,
    List.count_append, hlocated]
  omega

/-- Placing the rest of the resources does to them what it should. -/
theorem defaulted_placeAll {ms : List Meta}
    (h : Assignment.placeAll scope stem done.length ms a = .ok a') (ha : a.resources = done ++ rest)
    (hmetas : List.Forall₂ (fun r m => r.getMeta = .ok m) rest ms) (hbound : a.Bounded lo)
    (hpending : Pending done rest) :
    ∃ paths rest', a'.resources = done ++ rest' ∧ a'.paths = a.paths ++ paths ∧
      Defaulted lo rest paths rest' := by
  induction hmetas generalizing a done with
  | nil =>
    obtain rfl := Except.ok.inj h
    exact ⟨[], [], ha, (List.append_nil _).symm, .nil⟩
  | @cons r m rest ms hmeta _ ih =>
    have hlength : ∀ r : Resource, done.length + 1 = (done ++ [r]).length := by simp
    unfold Assignment.placeAll at h
    split at h
    · rename_i hpath
      have hlater : Assignment.placeAll scope stem (done.length + 1) ms a = .ok a' := h
      rw [hlength r] at hlater
      have ha' : a.resources = (done ++ [r]) ++ rest := by
        rw [ha, List.append_assoc, List.singleton_append]
      obtain ⟨paths, rest', hresources, hpaths, hrest⟩ := ih hlater ha' hbound hpending.kept
      refine ⟨paths, r :: rest', ?_, hpaths, .kept hmeta hpath hrest⟩
      rw [hresources, List.append_assoc, List.singleton_append]
    · rename_i hpath
      have hnone : m.path? = none := by simpa using hpath
      obtain ⟨a₁, hplace, hlater⟩ := Result.ok_of_bind h
      have hall : BoundedBy a.supply (done ++ r :: rest) := ha ▸ hbound.resources
      have halone : Alone r (done ++ rest) :=
        alone_of_count (hpending r List.mem_cons_self ⟨m, hmeta, hnone⟩)
      have ha₁ := resources_place ha halone hall hplace
      rw [List.append_cons] at ha₁
      rw [hlength (located a.supply m (freePath a.taken (defaultPath scope m stem)) r)] at hlater
      obtain ⟨paths, rest', hresources, hpaths, hrest⟩ :=
        ih hlater ha₁ ((Assignment.kept_bounded lo).place hplace hbound) (hpending.given hall)
      refine ⟨freePath a.taken (defaultPath scope m stem) :: paths, _ :: rest', ?_, ?_,
        .given hmeta hnone hbound.supply hrest⟩
      · rw [hresources, List.append_assoc, List.singleton_append]
      · rw [hpaths, Assignment.paths_place hplace, List.append_assoc, List.singleton_append]

variable {functionPath : Option String} {supply : Supply}

/-- If no edited map stands at a second place, provenance is assigned as it should be. -/
theorem defaulted_of_unshared (h : assign scope functionPath rs supply = .ok a)
    (hrs : BoundedBy supply rs) (hunshared : Unshared rs) : Defaulted supply rs a.paths a.resources := by
  obtain ⟨metas, hmetas, hplace⟩ := assign_eq_ok_iff.1 h
  have hall : Assignment.placeAll scope (functionStem functionPath) ([] : List Resource).length metas
      (Assignment.start rs metas supply) = .ok a := hplace
  obtain ⟨paths, rs', hresources, hpaths, hdefaulted⟩ := defaulted_placeAll hall rfl
    (Result.forall₂_of_mapM hmetas) ⟨le_rfl, hrs⟩ hunshared
  rw [hresources, hpaths]
  exact hdefaulted

end Provenance

end ScopedFn
