import Mathlib.Data.List.Flatten
import ScopedFn.Proofs.Envelope.Renaming
import ScopedFn.Proofs.Value.Beside
import ScopedFn.Proofs.Value.Erase

/-!
# Removing annotations

Annotations are removed from map objects, so the removal shows wherever such an object stands. Two
objects lose something: the annotations, if one of the keys is there, and the metadata, if no
annotation is left.

* `Resource.stripped` : the resource without some annotations, and nothing else removed;
* `Resource.losing` : the objects that lose an entry;
* `Resource.Holds.removals_eq` : the edits that remove annotations;
* `Resource.contents_removals_iff` : they remove nothing else iff each of these objects stands at
  one place only.
-/

set_option autoImplicit false

namespace ScopedFn

open Entries (put erase)

namespace Value

/-- Removing keys brings no map into a value, and moves none. -/
theorem objects_edit_sublist {e : Edit} (he : e.Removes) (v : Value) :
    (v.edit e).objects.Sublist v.objects := by
  obtain ⟨key, hkey⟩ := he
  induction v using Value.induction with
  | atom a | set id ms => exact List.Sublist.refl _
  | list id items ih =>
    rw [edit, objects, objects, objectsOfItems_eq, objectsOfItems_eq, editItems_eq,
      List.flatMap_map]
    exact List.Sublist.flatMap_right items ih
  | tuple id items ih =>
    rw [edit, objects, objects, objectsOfItems_eq, objectsOfItems_eq, editItems_eq,
      List.flatMap_map]
    exact List.Sublist.flatMap_right items ih
  | map id es ih =>
    have hin : (objectsOfEntries (editEntries e es)).Sublist (objectsOfEntries es) := by
      rw [objectsOfEntries_eq, objectsOfEntries_eq, editEntries_eq, List.flatMap_map]
      exact List.Sublist.flatMap_right es ih
    rw [edit, objects, objects, List.cons_sublist_cons]
    split
    · rw [hkey, Change.apply, objectsOfEntries_eq]
      refine List.Sublist.trans ?_ hin
      rw [objectsOfEntries_eq]
      exact (Entries.erase_sublist _).flatMap _
    · exact hin

end Value

/-- Sets the entries of the map under a key, and removes the key if there are none. -/
def MapEntries.putUnlessEmpty (es : MapEntries) (key : String) (id : ObjectId) (fs : MapEntries) :
    MapEntries :=
  if fs.isEmpty then erase Atom.same (.text key) es else put Atom.same (.text key) (.map id fs) es

namespace Resource

open Value Envelope

variable {r : Resource} {id id' : ObjectId} {es ann : MapEntries} {keys done : List String}
  {key : String}

/-- The resource without some annotations. Of annotations none of which is left not even the map
stays. -/
def stripped (keys : List String) (r : Resource) : Resource :=
  match r.entries.get "metadata" with
  | .map id es =>
    match MapEntries.get es "annotations" with
    | .map id' ann =>
      let left := MapEntries.putUnlessEmpty es "annotations" id' (MapEntries.without keys ann)
      ⟨r.id, put Atom.same (.text "metadata") (.map id left) r.entries⟩
    | _ => r
  | _ => r

/-- The maps that lose an entry: the annotations if one of the keys is there, and the metadata if no
annotation is left. -/
def losing (keys : List String) (r : Resource) : List ObjectId :=
  match r.entries.get "metadata" with
  | .map id es =>
    match MapEntries.get es "annotations" with
    | .map id' ann =>
      (if keys.any fun key => (MapEntries.get? ann key).isSome then [id'] else []) ++
        if (MapEntries.without keys ann).isEmpty then [id] else []
    | _ => []
  | _ => []

/-- The resource has annotations in its metadata, and neither these maps nor the resource stand
inside themselves. -/
structure Holds (r : Resource) (id : ObjectId) (es : MapEntries) (id' : ObjectId)
    (ann : MapEntries) : Prop where
  metadata : r.entries.get "metadata" = .map id es
  annotations : MapEntries.get es "annotations" = .map id' ann
  keyed : es.Keyed
  annKeyed : ann.Keyed
  root : r.id ∉ objectsOfEntries r.entries
  outer : id ∉ objectsOfEntries es
  inner : id' ∉ objectsOfEntries ann

theorem Holds.mem_metadata (h : Holds r id es id' ann) : (id, es) ∈ mapsOfEntries r.entries := by
  refine (mem_maps_get r.entries "metadata").2 (.inr ?_)
  rw [h.metadata]
  exact List.mem_cons_self

theorem Holds.mem_annotations (h : Holds r id es id' ann) : (id', ann) ∈ mapsOfEntries es := by
  refine (mem_maps_get es "annotations").2 (.inr ?_)
  rw [h.annotations]
  exact List.mem_cons_self

theorem Holds.ne (h : Holds r id es id' ann) : id ≠ id' := by
  rintro rfl
  exact h.outer (mem_objectsOfEntries_iff.2 ⟨_, h.mem_annotations⟩)

theorem Holds.id_ne_metadata (h : Holds r id es id' ann) : r.id ≠ id := by
  rintro rfl
  exact h.root (mem_objectsOfEntries_iff.2 ⟨_, h.mem_metadata⟩)

theorem Holds.id_ne_annotations (h : Holds r id es id' ann) : r.id ≠ id' := by
  rintro rfl
  refine h.root (mem_objectsOfEntries_iff.2 ⟨ann, (mem_maps_get r.entries "metadata").2 (.inr ?_)⟩)
  rw [h.metadata]
  exact List.mem_cons_of_mem _ h.mem_annotations

theorem keyed_editEntries (h : es.Keyed) (e : Edit) : MapEntries.Keyed (editEntries e es) := by
  refine h.of_keys ?_
  rw [editEntries_eq, List.map_map]
  rfl

theorem notMem_editEntries {e : Edit} (he : e.Removes) (h : id ∉ objectsOfEntries es) :
    id ∉ objectsOfEntries (editEntries e es) := by
  intro hid
  obtain ⟨q, hq, hmem⟩ := mem_objectsOfEntries.1 hid
  rw [editEntries_eq] at hq
  obtain ⟨p, hp, rfl⟩ := List.mem_map.1 hq
  exact h (mem_objectsOfEntries.2 ⟨p, hp, (objects_edit_sublist he p.2).subset hmem⟩)

theorem notMem_erase (h : id ∉ objectsOfEntries es) (key : String) :
    id ∉ objectsOfEntries (erase Atom.same (.text key) es) := by
  intro hid
  obtain ⟨p, hp, hmem⟩ := mem_objectsOfEntries.1 hid
  exact h (mem_objectsOfEntries.2 ⟨p, (Entries.erase_sublist es).subset hp, hmem⟩)

/-- An annotation is removed: the maps are the same, and the annotations lack a key. -/
theorem Holds.edit (h : Holds r id es id' ann) (key : String) :
    Holds (r.edit ⟨id', .erase (.text key)⟩) id (editEntries ⟨id', .erase (.text key)⟩ es) id'
      (erase Atom.same (.text key) ann) := by
  have hremoves : Edit.Removes ⟨id', .erase (.text key)⟩ := ⟨key, rfl⟩
  have hentries : (r.edit ⟨id', .erase (.text key)⟩).entries =
      editEntries ⟨id', .erase (.text key)⟩ r.entries := if_neg h.id_ne_annotations
  refine ⟨?_, ?_, keyed_editEntries h.keyed _, h.annKeyed.sublist (Entries.erase_sublist ann), ?_,
    notMem_editEntries hremoves h.outer, notMem_erase h.inner key⟩
  · rw [hentries, MapEntries.get_editEntries, h.metadata, Value.edit, if_neg h.ne]
  · have hinner : editEntries ⟨id', .erase (.text key)⟩ ann = ann :=
      editEntries_eq_self fun p hp => edit_eq_self fun hmem =>
        h.inner (mem_objectsOfEntries.2 ⟨p, hp, hmem⟩)
    rw [MapEntries.get_editEntries, h.annotations, Value.edit, if_pos rfl, hinner, Change.apply]
  · rw [hentries]
    exact notMem_editEntries hremoves h.root

theorem removals_eq_nil (h : ∀ key, r.removalEdits key = []) (keys : List String) :
    removals r keys = [] := by
  induction keys with
  | nil => rfl
  | cons key keys ih => rw [removals, unannotate, h, List.nil_append, editAll, List.foldl_nil, ih]

/-- The annotations are dropped: nothing is left to be removed. -/
theorem Holds.removals_drop (h : Holds r id es id' ann) (keys : List String) :
    removals (r.edit ⟨id, .erase (.text "annotations")⟩) keys = [] := by
  refine removals_eq_nil (fun key => ?_) keys
  have hentries : (r.edit ⟨id, .erase (.text "annotations")⟩).entries =
      editEntries ⟨id, .erase (.text "annotations")⟩ r.entries := if_neg h.id_ne_metadata
  rw [removalEdits, hentries, MapEntries.get_editEntries, h.metadata, Value.edit, if_pos rfl]
  dsimp only [Change.apply]
  rw [MapEntries.get, MapEntries.get?_erase (keyed_editEntries h.keyed _), if_pos rfl]
  rfl

/-- **The edits that remove annotations**: some keys are removed, until none of the keys is left,
and then the annotations are dropped if they are empty. -/
theorem Holds.removals_eq (h : Holds r id es id' ann) (hne : keys ≠ []) : ∃ done,
    MapEntries.without done ann = MapEntries.without keys ann ∧
      removals r keys = done.map (fun key => ⟨id', .erase (.text key)⟩) ++
        if (MapEntries.without keys ann).isEmpty then [⟨id, .erase (.text "annotations")⟩]
        else [] := by
  induction keys generalizing r es ann with
  | nil => exact absurd rfl hne
  | cons key keys ih =>
    have hedits : r.removalEdits key = if (erase Atom.same (.text key) ann).isEmpty then
        [⟨id', .erase (.text key)⟩, ⟨id, .erase (.text "annotations")⟩]
        else [⟨id', .erase (.text key)⟩] := by
      rw [removalEdits, h.metadata]
      dsimp only
      rw [h.annotations]
      rfl
    have hwithout : MapEntries.without (key :: keys) ann =
        MapEntries.without keys (erase Atom.same (.text key) ann) := rfl
    rw [removals, unannotate, hedits, hwithout]
    split
    · rename_i hempty
      have hnil : MapEntries.without keys (erase Atom.same (.text key) ann) = [] :=
        List.sublist_nil.1 (List.isEmpty_iff.1 hempty ▸ MapEntries.without_sublist keys _)
      refine ⟨[key], ?_, ?_⟩
      · rw [hnil]
        exact List.isEmpty_iff.1 hempty
      · rw [hnil, editAll, List.foldl_cons, List.foldl_cons, List.foldl_nil,
          (h.edit key).removals_drop]
        rfl
    · rename_i hfull
      rw [editAll, List.foldl_cons, List.foldl_nil]
      cases keys with
      | nil => exact ⟨[key], rfl, by rw [MapEntries.without, List.foldl_nil, if_neg hfull]; rfl⟩
      | cons key' keys =>
        obtain ⟨done, hdone, hrest⟩ := ih (h.edit key) (List.cons_ne_nil _ _)
        exact ⟨key :: done, hdone, by rw [hrest]; rfl⟩

/-! ### What else is removed -/

/-- What the maps of a resource lose when annotations are removed. -/
theorem Holds.lost_removals (h : Holds r id es id' ann) (hne : keys ≠ []) : ∃ done,
    MapEntries.without done ann = MapEntries.without keys ann ∧
      lost (removals r keys) id' = done ∧
      (lost (removals r keys) id =
        if (MapEntries.without keys ann).isEmpty then ["annotations"] else []) ∧
      ∀ i, i ≠ id → i ≠ id' → lost (removals r keys) i = [] := by
  obtain ⟨done, hdone, hremovals⟩ := h.removals_eq hne
  have hkeys : ∀ i, lost (done.map fun key => ⟨id', .erase (.text key)⟩) i =
      if i = id' then done else [] := by
    intro i
    rw [lost, List.flatMap_map]
    split_ifs with hi
    · simp [lostBy, hi]
    · simp [lostBy, hi]
  refine ⟨done, hdone, ?_, ?_, fun i hi hi' => ?_⟩
  · rw [hremovals, lost, List.flatMap_append, ← lost, hkeys, if_pos rfl]
    split <;> simp [lostBy, h.ne.symm]
  · rw [hremovals, lost, List.flatMap_append, ← lost, hkeys, if_neg h.ne]
    split <;> simp [lostBy]
  · rw [hremovals, lost, List.flatMap_append, ← lost, hkeys, if_neg hi']
    split <;> simp [lostBy, hi]

theorem Holds.stripped_eq (h : Holds r id es id' ann) (keys : List String) :
    r.stripped keys = ⟨r.id, put Atom.same (.text "metadata") (.map id
      (MapEntries.putUnlessEmpty es "annotations" id' (MapEntries.without keys ann))) r.entries⟩ := by
  rw [stripped, h.metadata]
  dsimp only
  rw [h.annotations]

/-- Setting a key to another value that is pruned to the same makes no difference to pruning. -/
theorem pruneEntries_put {K : ObjectId → List String} {v : Value}
    (hnull : MapEntries.get es key ≠ .null) (h : v.prune K = (MapEntries.get es key).prune K) :
    pruneEntries K (put Atom.same (.text key) v es) = pruneEntries K es := by
  obtain ⟨before, after, hes, hput⟩ := MapEntries.exists_split hnull
  conv_rhs => rw [hes]
  rw [hput, pruneEntries_eq, pruneEntries_eq, List.map_append, List.map_append, List.map_cons,
    List.map_cons, h]

/-- Keys that are lost can be removed before, to the same effect. -/
theorem Holds.prune_stripped (h : Holds r id es id' ann) {K : ObjectId → List String}
    (hann : MapEntries.without (K id') ann = MapEntries.without keys ann)
    (hid : K id = if (MapEntries.without keys ann).isEmpty then ["annotations"] else []) :
    (r.stripped keys).toValue.prune K = r.toValue.prune K := by
  have hinner : (Value.map id' (MapEntries.without keys ann)).prune K =
      (Value.map id' ann).prune K := by
    rw [prune, prune, ← hann, pruneEntries_without,
      MapEntries.without_without (keyed_pruneEntries h.annKeyed K)]
  have houter : (Value.map id
      (MapEntries.putUnlessEmpty es "annotations" id' (MapEntries.without keys ann))).prune K =
        (Value.map id es).prune K := by
    unfold MapEntries.putUnlessEmpty
    rw [prune, prune, hid]
    split
    · have herase : erase Atom.same (.text "annotations") es =
          MapEntries.without ["annotations"] es := rfl
      rw [herase, pruneEntries_without, MapEntries.without_without (keyed_pruneEntries h.keyed K)]
    · refine congrArg _ (congrArg _ (pruneEntries_put ?_ ?_))
      · simp [h.annotations]
      · rw [h.annotations, hinner]
  rw [h.stripped_eq, toValue, toValue, prune, prune]
  refine congrArg _ (congrArg _ (pruneEntries_put ?_ ?_))
  · simp [h.metadata]
  · rw [h.metadata, houter]

/-! ### Where the maps stand -/

theorem Holds.count_metadata (h : Holds r id es id' ann) :
    r.toValue.objects.count id = 1 ↔ id ∉ objectsBeside r.entries "metadata" := by
  rw [toValue, objects, List.count_cons_of_ne h.id_ne_metadata,
    @count_objects _ r.entries "metadata", h.metadata, objects, List.count_cons_self,
    List.count_eq_zero.2 h.outer, ← List.count_eq_zero]
  omega

theorem Holds.count_annotations (h : Holds r id es id' ann) : r.toValue.objects.count id' = 1 ↔
    id' ∉ objectsBeside r.entries "metadata" ∧ id' ∉ objectsBeside es "annotations" := by
  rw [toValue, objects, List.count_cons_of_ne h.id_ne_annotations,
    @count_objects _ r.entries "metadata", h.metadata, objects, List.count_cons_of_ne h.ne,
    @count_objects _ es "annotations", h.annotations, objects, List.count_cons_self,
    List.count_eq_zero.2 h.inner, ← List.count_eq_zero, ← List.count_eq_zero]
  omega

/-- The places of maps in the resource without annotations. -/
theorem Holds.mem_maps_stripped (h : Holds r id es id' ann) {m : ObjectId × MapEntries} :
    m ∈ (r.stripped keys).toValue.maps ↔
      m = (r.id, (r.stripped keys).entries) ∨ m ∈ mapsBeside r.entries "metadata" ∨
        m = (id, MapEntries.putUnlessEmpty es "annotations" id' (MapEntries.without keys ann)) ∨
          m ∈ mapsBeside es "annotations" ∨ MapEntries.without keys ann ≠ [] ∧
            (m = (id', MapEntries.without keys ann) ∨
              m ∈ mapsOfEntries (MapEntries.without keys ann)) := by
  have hbelow : m ∈ mapsOfEntries
      (MapEntries.putUnlessEmpty es "annotations" id' (MapEntries.without keys ann)) ↔
        m ∈ mapsBeside es "annotations" ∨ MapEntries.without keys ann ≠ [] ∧
          (m = (id', MapEntries.without keys ann) ∨
            m ∈ mapsOfEntries (MapEntries.without keys ann)) := by
    unfold MapEntries.putUnlessEmpty
    split
    · rename_i hempty
      simp [maps_erase, List.isEmpty_iff.1 hempty]
    · rename_i hfull
      rw [mem_maps_put, maps, List.mem_cons, and_iff_right (by simpa using hfull)]
  rw [toValue, h.stripped_eq, maps, List.mem_cons, mem_maps_put, maps, List.mem_cons, hbelow]

theorem Holds.mem_losing (h : Holds r id es id' ann) {i : ObjectId} : i ∈ r.losing keys ↔
    (i = id' ∧ ∃ key ∈ keys, MapEntries.get? ann key ≠ none) ∨
      (i = id ∧ MapEntries.without keys ann = []) := by
  rw [losing, h.metadata]
  dsimp only
  rw [h.annotations]
  simp only [List.mem_append, List.any_eq_true, Option.isSome_iff_ne_none, List.isEmpty_iff]
  refine or_congr ?_ ?_
  · split_ifs with hany <;> simp [hany]
  · split_ifs with hempty <;> simp [hempty]

theorem mapsBeside_subset (es : MapEntries) (key : String) : mapsBeside es key ⊆ mapsOfEntries es :=
  fun _ hm => (mem_maps_get es key).2 (.inl hm)

/-- The maps beside the annotations stand in the resource. -/
theorem Holds.beside_subset (h : Holds r id es id' ann) :
    mapsBeside r.entries "metadata" ⊆ r.toValue.maps ∧
      mapsBeside es "annotations" ⊆ r.toValue.maps := by
  have hmetadata : (id, es) ∈ r.toValue.maps := List.mem_cons_of_mem _ h.mem_metadata
  refine ⟨fun m hm => List.mem_cons_of_mem _ (mapsBeside_subset _ _ hm), fun m hm => ?_⟩
  exact maps_subset hmetadata (List.mem_cons_of_mem _ (mapsBeside_subset _ _ hm))

/-- Elsewhere the annotations and the metadata have the entries that they have here. -/
theorem Holds.eq_of_mem (h : Holds r id es id' ann) (hcoherent : Coherent r.toValue.maps)
    {fs : MapEntries} :
    ((id, fs) ∈ r.toValue.maps → fs = es) ∧ ((id', fs) ∈ r.toValue.maps → fs = ann) := by
  have hmetadata : (id, es) ∈ r.toValue.maps := List.mem_cons_of_mem _ h.mem_metadata
  have hann : (id', ann) ∈ r.toValue.maps :=
    maps_subset hmetadata (List.mem_cons_of_mem _ h.mem_annotations)
  exact ⟨fun hin => (Prod.mk.inj (hcoherent _ hin _ hmetadata rfl)).2,
    fun hin => (Prod.mk.inj (hcoherent _ hin _ hann rfl)).2⟩

/-- Of keys that are absent none is removed, however far the removal goes. -/
theorem absent_done (hdone : MapEntries.without done ann = MapEntries.without keys ann) :
    (∀ key ∈ done, MapEntries.get? ann key = none) ↔
      ∀ key ∈ keys, MapEntries.get? ann key = none := by
  have hiff : ∀ ks,
      (∀ key ∈ ks, MapEntries.get? ann key = none) ↔ MapEntries.without ks ann = ann :=
    fun ks => ⟨MapEntries.without_eq_self, fun h =>
      MapEntries.get?_of_length_without (congrArg List.length h)⟩
  rw [hiff, hiff, hdone]

/-- If the annotations stand at one place or lack the keys, they lack them wherever they stand in what
is left. -/
theorem Holds.absent_of_mem (h : Holds r id es id' ann) (hcoherent : Coherent r.toValue.maps)
    (hdone : MapEntries.without done ann = MapEntries.without keys ann)
    (hcount : (∃ key ∈ keys, MapEntries.get? ann key ≠ none) → r.toValue.objects.count id' = 1)
    {fs : MapEntries} (hfs : (id', fs) ∈ (r.stripped keys).toValue.maps) (hkey : key ∈ done) :
    MapEntries.get? fs key = none := by
  obtain ⟨hbeside, hbeside'⟩ := h.beside_subset
  have helsewhere : (id', fs) ∈ r.toValue.maps →
      (id' ∈ objectsBeside r.entries "metadata" ∨ id' ∈ objectsBeside es "annotations") →
        MapEntries.get? fs key = none := by
    intro hin hplace
    have habsent : ∀ key ∈ keys, MapEntries.get? ann key = none := by
      by_contra hpresent
      push Not at hpresent
      obtain ⟨hmetadata, hann⟩ := h.count_annotations.1 (hcount hpresent)
      exact hplace.elim hmetadata hann
    rw [(h.eq_of_mem hcoherent).2 hin]
    exact (absent_done hdone).2 habsent key hkey
  obtain heq | hin | heq | hin | ⟨-, heq | hin⟩ := h.mem_maps_stripped.1 hfs
  · exact absurd (Prod.mk.inj heq).1.symm h.id_ne_annotations
  · exact helsewhere (hbeside hin) (.inl (mem_objectsBeside.2 ⟨fs, hin⟩))
  · exact absurd (Prod.mk.inj heq).1.symm h.ne
  · exact helsewhere (hbeside' hin) (.inr (mem_objectsBeside.2 ⟨fs, hin⟩))
  · rw [(Prod.mk.inj heq).2, ← hdone, MapEntries.get?_without h.annKeyed, if_pos hkey]
  · obtain ⟨p, hp, hmem⟩ := mem_mapsOfEntries.1 hin
    exact absurd (mem_objectsOfEntries_iff.2
      ⟨fs, mem_mapsOfEntries.2 ⟨p, (MapEntries.without_sublist keys ann).subset hp, hmem⟩⟩) h.inner

/-- If the metadata stands at one place and no annotation is left, no annotations stand in it. -/
theorem Holds.absent_drop (h : Holds r id es id' ann) (hempty : MapEntries.without keys ann = [])
    (hcount : r.toValue.objects.count id = 1) {fs : MapEntries}
    (hfs : (id, fs) ∈ (r.stripped keys).toValue.maps) : MapEntries.get? fs "annotations" = none := by
  have hnowhere := h.count_metadata.1 hcount
  obtain heq | hin | heq | hin | ⟨hfull, -⟩ := h.mem_maps_stripped.1 hfs
  · exact absurd (Prod.mk.inj heq).1.symm h.id_ne_metadata
  · exact absurd (mem_objectsBeside.2 ⟨fs, hin⟩) hnowhere
  · rw [(Prod.mk.inj heq).2, hempty, MapEntries.putUnlessEmpty, if_pos List.isEmpty_nil,
      MapEntries.get?_erase h.keyed, if_pos rfl]
  · exact absurd (mem_objectsOfEntries_iff.2 ⟨fs, mapsBeside_subset _ _ hin⟩) h.outer
  · exact absurd hempty hfull

/-- **What is lost is lost in its own place only** iff each map that loses an entry stands at one
place. -/
theorem Holds.absent_iff (h : Holds r id es id' ann) (hcoherent : Coherent r.toValue.maps)
    (hne : keys ≠ []) :
    (∀ m ∈ (r.stripped keys).toValue.maps, ∀ key ∈ lost (removals r keys) m.1,
      MapEntries.get? m.2 key = none) ↔
      ∀ i ∈ r.losing keys, r.toValue.objects.count i = 1 := by
  obtain ⟨done, hdone, hlost, hlost', hother⟩ := h.lost_removals hne
  obtain ⟨hbeside, hbeside'⟩ := h.beside_subset
  constructor
  · intro habsent i hi
    obtain ⟨rfl, key, hkey, hpresent⟩ | ⟨rfl, hempty⟩ := h.mem_losing.1 hi
    · -- at another place the annotations would have a key that they are to lose
      have hnowhere : ∀ fs,
          (i, fs) ∈ (r.stripped keys).toValue.maps → (i, fs) ∉ r.toValue.maps := by
        intro fs hfs hin
        have hann : ∀ key ∈ done, MapEntries.get? ann key = none := by
          intro key hkey
          rw [← (h.eq_of_mem hcoherent).2 hin]
          exact habsent _ hfs key (hlost ▸ hkey)
        exact hpresent ((absent_done hdone).1 hann key hkey)
      rw [h.count_annotations, mem_objectsBeside, mem_objectsBeside]
      exact ⟨fun ⟨fs, hfs⟩ => hnowhere fs (h.mem_maps_stripped.2 (.inr (.inl hfs))) (hbeside hfs),
        fun ⟨fs, hfs⟩ => hnowhere fs (h.mem_maps_stripped.2 (.inr (.inr (.inr (.inl hfs)))))
          (hbeside' hfs)⟩
    · rw [h.count_metadata, mem_objectsBeside]
      rintro ⟨fs, hfs⟩
      have hnone := habsent _ (h.mem_maps_stripped.2 (.inr (.inl hfs))) "annotations"
        (by simp [hlost', hempty])
      rw [(h.eq_of_mem hcoherent).1 (hbeside hfs)] at hnone
      have hann := h.annotations
      rw [MapEntries.get, hnone] at hann
      cases hann
  · intro hcount m hm key hkey
    obtain ⟨i, fs⟩ := m
    by_cases hi : i = id'
    · subst hi
      exact h.absent_of_mem hcoherent hdone
        (fun hany => hcount i (h.mem_losing.2 (.inl ⟨rfl, hany⟩)))
        hm (hlost ▸ hkey)
    by_cases hi' : i = id
    · subst hi'
      rw [hlost'] at hkey
      split at hkey
      · rename_i hempty
        obtain rfl := List.mem_singleton.1 hkey
        have hempty := List.isEmpty_iff.1 hempty
        exact h.absent_drop hempty (hcount i (h.mem_losing.2 (.inr ⟨rfl, hempty⟩))) hm
      · exact absurd hkey List.not_mem_nil
    · rw [hother i hi' hi] at hkey
      exact absurd hkey List.not_mem_nil

/-! ### Whole resources -/

/-- Where maps have different keys and one content each, annotations are as they should be. -/
theorem holds_of_get (hkeyed : ∀ m ∈ r.toValue.maps, MapEntries.Keyed m.2)
    (hcoherent : Coherent r.toValue.maps) (hmetadata : r.entries.get "metadata" = .map id es)
    (hann : MapEntries.get es "annotations" = .map id' ann) : Holds r id es id' ann := by
  have hroot : (r.id, r.entries) ∈ r.toValue.maps := List.mem_cons_self
  have hin : (id, es) ∈ r.toValue.maps := by
    refine List.mem_cons_of_mem _ ((mem_maps_get r.entries "metadata").2 (.inr ?_))
    rw [hmetadata]
    exact List.mem_cons_self
  have hin' : (id', ann) ∈ r.toValue.maps := by
    refine maps_subset hin (List.mem_cons_of_mem _ ((mem_maps_get es "annotations").2 (.inr ?_)))
    rw [hann]
    exact List.mem_cons_self
  exact ⟨hmetadata, hann, hkeyed _ hin, hkeyed _ hin', notMem_objectsOfEntries hcoherent hroot,
    notMem_objectsOfEntries hcoherent hin, notMem_objectsOfEntries hcoherent hin'⟩

/-- The resource has annotations in its metadata. -/
def HasAnnotations (r : Resource) : Prop := ∃ id es id' ann,
  r.entries.get "metadata" = .map id es ∧ MapEntries.get es "annotations" = .map id' ann

/-- Whatever is made of the annotations, without them it is something fixed. -/
theorem match_of_not_hasAnnotations {α : Type} (h : ¬r.HasAnnotations)
    (f : ObjectId → MapEntries → ObjectId → MapEntries → α) (a : α) :
    (match r.entries.get "metadata" with
      | .map id es =>
        match MapEntries.get es "annotations" with
        | .map id' ann => f id es id' ann
        | _ => a
      | _ => a) = a := by
  split
  · split
    · exact absurd ⟨_, _, _, _, by assumption, by assumption⟩ h
    · rfl
  · rfl

/-- Without annotations there is nothing to be removed. -/
theorem holds_or (hkeyed : ∀ m ∈ r.toValue.maps, MapEntries.Keyed m.2)
    (hcoherent : Coherent r.toValue.maps) (keys : List String) :
    (∃ id es id' ann, Holds r id es id' ann) ∨
      r.stripped keys = r ∧ r.losing keys = [] ∧ removals r keys = [] := by
  by_cases hann : r.HasAnnotations
  · obtain ⟨id, es, id', ann, hmetadata, hann⟩ := hann
    exact .inl ⟨id, es, id', ann, holds_of_get hkeyed hcoherent hmetadata hann⟩
  · exact .inr ⟨match_of_not_hasAnnotations hann _ _, match_of_not_hasAnnotations hann _ _,
      removals_eq_nil (fun _ => match_of_not_hasAnnotations hann _ _) keys⟩

theorem Holds.editAll_removals (h : Holds r id es id' ann) (hne : keys ≠ []) :
    (r.editAll (removals r keys)).toValue =
      (r.stripped keys).toValue.prune (lost (removals r keys)) := by
  obtain ⟨done, hdone, hlost, hlost', -⟩ := h.lost_removals hne
  rw [h.prune_stripped (hlost ▸ hdone) hlost', toValue_editAll,
    editAll_eq_prune (removes_removals r keys)]

/-- **Annotations are removed and nothing else** if each map that loses an entry stands at one place
only. -/
theorem editAll_removals_eq (hkeyed : ∀ m ∈ r.toValue.maps, MapEntries.Keyed m.2)
    (hcoherent : Coherent r.toValue.maps) (hne : keys ≠ [])
    (hcount : ∀ i ∈ r.losing keys, r.toValue.objects.count i = 1) :
    r.editAll (removals r keys) = r.stripped keys := by
  obtain ⟨id, es, id', ann, h⟩ | ⟨hstripped, -, hremovals⟩ := holds_or hkeyed hcoherent keys
  · refine toValue_injective ?_
    rw [h.editAll_removals hne]
    exact prune_eq_self ((h.absent_iff hcoherent hne).2 hcount)
  · rw [hstripped, hremovals]
    rfl

/-- And otherwise something else is removed too. -/
theorem contents_removals_iff (hkeyed : ∀ m ∈ r.toValue.maps, MapEntries.Keyed m.2)
    (hcoherent : Coherent r.toValue.maps) (hne : keys ≠ []) :
    (r.editAll (removals r keys)).toValue.contents = (r.stripped keys).toValue.contents ↔
      ∀ i ∈ r.losing keys, r.toValue.objects.count i = 1 := by
  obtain ⟨id, es, id', ann, h⟩ | ⟨hstripped, hlosing, hremovals⟩ := holds_or hkeyed hcoherent keys
  · rw [h.editAll_removals hne, contents_prune_eq_iff]
    exact h.absent_iff hcoherent hne
  · rw [hstripped, hremovals, hlosing]
    exact iff_of_true rfl nofun

end Resource

end ScopedFn
