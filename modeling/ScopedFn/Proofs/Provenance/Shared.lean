import ScopedFn.Proofs.Envelope.Objects
import ScopedFn.Proofs.Provenance.Default
import ScopedFn.Proofs.Provenance.Free
import ScopedFn.Proofs.Resource.Metadata
import ScopedFn.Proofs.Value.Coherent
import ScopedFn.Proofs.Value.Decidable

/-!
# Maps that stand at a second place

In a document an alias stands for a map that stands elsewhere too. An annotation is written to such a
map in place, so it shows wherever the map stands: in another field, in another resource, or in the
annotations of another resource, where the next path is then written over it. Aliases of maps that
nothing is written to do no harm.

* `Provenance.Led` : what becomes of the maps of a resource that is given a path and nothing else;
* `Provenance.Marked` : a map from which a path is found that was not found before. Since a map has
  one content wherever it stands, it can stand nowhere else if nothing else has happened;
* `Provenance.defaulted_iff_unshared` : provenance is assigned as it should be exactly if no map that
  is written to stands at a second place;
* `Provenance.path_overwritten_sharedMetadata` : two new resources that end in one file.
-/

set_option autoImplicit false

namespace ScopedFn

namespace Provenance

open Resource

variable {lo : Supply} {rs rs' : List Resource} {r r' : Resource} {m : Meta} {path path' : Path}
  {paths : List Path} {target : ObjectId} {es es' fs : MapEntries} {route route' : List String}
  {ms ms' : List (ObjectId × MapEntries)}

/-- The maps on the way to the annotations of a resource. -/
def wayTo (r : Resource) : List (ObjectId × MapEntries × List String) :=
  MapEntries.trail annotationPath r.id r.entries

/-- A resource that has been given a path and nothing else: the maps beside the way to its annotations
are the same, and those on the way are the same but for the keys that lead on, at the end of which
the path is found. -/
structure Led (path : Path) (r r' : Resource) : Prop where
  /-- The maps beside the way are the same. -/
  beside : ∃ others, r.toValue.maps.Perm ((wayTo r).map MapEntries.stop ++ others) ∧
    r'.toValue.maps.Perm ((wayTo r').map MapEntries.stop ++ others)
  /-- The maps on the way lead to the path. -/
  along : ∀ {id es route}, (id, es, route) ∈ wayTo r → ∃ es', (id, es', route) ∈ wayTo r' ∧
    (Value.map id es').field (route ++ [pathKey]) = .text (String.ofList path) ∧
    ∀ {key}, key ≠ indexKey → (route ++ [pathKey]).head? ≠ some key →
      MapEntries.get es' key = MapEntries.get es key

theorem led_annotatedWith (h : MapEntries.KeepsMaps pathKey annotationPath r.entries)
    (fresh : ObjectId) (path : Path) :
    Led path r (r.annotatedWith fresh pathKey (String.ofList path)) := by
  obtain ⟨others, hold, hnew⟩ := MapEntries.exists_perm_putIn r.id h
  refine ⟨⟨others, hold, hnew fresh _ rfl⟩, fun hmem => ?_⟩
  obtain ⟨fresh', hmem'⟩ := MapEntries.mem_trail_putIn hmem fresh pathKey
    (.text (String.ofList path))
  refine ⟨_, hmem', MapEntries.field_putIn _ _ _ _ _ _, fun _ hhead => MapEntries.get_putIn hhead⟩

/-- An index that is added makes no difference to that. -/
theorem Led.withIndex (h : Led path r r')
    (hindex : MapEntries.KeepsMaps indexKey annotationPath r'.entries) (fresh : ObjectId)
    (value : String) :
    Led path r (r'.annotatedWith fresh indexKey value) := by
  obtain ⟨others, hold, hnew⟩ := h.beside
  obtain ⟨others', hold', hnew'⟩ := MapEntries.exists_perm_putIn r'.id hindex
  -- the same maps are left when the way is taken out
  have hothers : others.Perm others' := (List.perm_append_left_iff _).1 (hnew.symm.trans hold')
  refine ⟨⟨others, hold, (hnew' fresh _ rfl).trans (hothers.symm.append_left _)⟩, ?_⟩
  intro _ _ route hmem
  obtain ⟨es', hmem', hfield, hget⟩ := h.along hmem
  obtain ⟨fresh', hmem''⟩ := MapEntries.mem_trail_putIn hmem' fresh indexKey (.text value)
  refine ⟨_, hmem'', ?_, fun hkey hhead => ?_⟩
  · rw [MapEntries.field_putIn_ne (by decide), hfield]
  · rw [MapEntries.get_putIn, hget hkey hhead]
    -- a key that leads on is none that is set
    cases route with
    | nil => exact fun heq => hkey (Option.some.inj heq).symm
    | cons part route => exact hhead

theorem led_located (hmeta : r.getMeta = .ok m) (hpath : m.path? = none) (fresh : ObjectId)
    (path : Path) : Led path r (located fresh m path r) := by
  have hempty : ∀ s, m.annotations.get? pathKey = some s → s = "" := fun s hs => by
    by_contra hne
    rw [Meta.path?, hs, Option.filter_some_pos (by simpa using hne)] at hpath
    cases hpath
  have hled := led_annotatedWith (keepsMaps_of_get? hmeta hempty) fresh path
  unfold located
  dsimp only
  split
  · rename_i hindex
    have habsent : ∀ s, m.annotations.get? indexKey = some s → s = "" := fun s hs => by
      rw [hs] at hindex
      cases hindex
    exact hled.withIndex ((keepsMaps_of_get? hmeta habsent).putIn (by decide) fresh _) _ _
  · exact hled

/-! ### A map that has been edited -/

/-- What remains of the way to the annotations is known from its first key. -/
theorem eq_of_head_eq (h : route <:+ annotationPath) (h' : route' <:+ annotationPath)
    (hhead : (route ++ [pathKey]).head? = (route' ++ [pathKey]).head?) : route = route' := by
  rw [annotationPath, List.suffix_cons_iff, List.suffix_cons_iff, List.suffix_nil] at h h'
  obtain rfl | rfl | rfl := h <;> obtain rfl | rfl | rfl := h' <;> first | rfl | (revert hhead; decide)

/-- No key that leads on is that of the index. -/
theorem head_ne_indexKey (h : route <:+ annotationPath) :
    (route ++ [pathKey]).head? ≠ some indexKey := by
  rw [annotationPath, List.suffix_cons_iff, List.suffix_cons_iff, List.suffix_nil] at h
  obtain rfl | rfl | rfl := h <;> decide

/-- A map of old resources, from which a path is found in the new ones and was not before. Old and new
maps have one content each. -/
structure Marked (ms ms' : List (ObjectId × MapEntries)) (target : ObjectId) (es es' : MapEntries)
    (route : List String) (path : Path) : Prop where
  /-- The old maps have one content each. -/
  coherent : Coherent ms
  /-- So have the new ones. -/
  coherent' : Coherent ms'
  /-- The map was there. -/
  old : (target, es) ∈ ms
  /-- It still is. -/
  new : (target, es') ∈ ms'
  /-- It stands on the way to annotations. -/
  onWay : route <:+ annotationPath
  /-- The path was not found from there. -/
  before : (Value.map target es).field (route ++ [pathKey]) ≠ .text (String.ofList path)
  /-- Now it is. -/
  after : (Value.map target es').field (route ++ [pathKey]) = .text (String.ofList path)

namespace Marked

/-- Nowhere has the map kept its entries. -/
theorem changed (h : Marked ms ms' target es es' route path) (hold : (target, fs) ∈ ms) :
    (target, fs) ∉ ms' := by
  intro hnew
  obtain ⟨-, rfl⟩ := Prod.mk.inj (h.coherent _ hold _ h.old rfl)
  obtain ⟨-, rfl⟩ := Prod.mk.inj (h.coherent' _ hnew _ h.new rfl)
  exact h.before h.after

/-- It stands on the way to annotations only, and these are given the same path. -/
theorem eq_of_mem_way (h : Marked ms ms' target es es' route path) (hled : Led path' r r')
    (hr : r.toValue.maps ⊆ ms) (hr' : r'.toValue.maps ⊆ ms') (hmem : (target, fs, route') ∈ wayTo r) :
    route' = route ∧ path' = path := by
  obtain ⟨others, hperm, hperm'⟩ := hled.beside
  obtain ⟨gs, hmem', hfield, hget⟩ := hled.along hmem
  have hin : (target, fs) ∈ ms :=
    hr (hperm.mem_iff.2 (List.mem_append_left _ (List.mem_map_of_mem hmem)))
  have hin' : (target, gs) ∈ ms' :=
    hr' (hperm'.mem_iff.2 (List.mem_append_left _ (List.mem_map_of_mem hmem')))
  obtain ⟨-, rfl⟩ := Prod.mk.inj (h.coherent _ hin _ h.old rfl)
  obtain ⟨-, rfl⟩ := Prod.mk.inj (h.coherent' _ hin' _ h.new rfl)
  have hroute : route' = route := by
    by_contra hne
    -- on another way, the key that leads on to the path has not changed
    refine h.before ?_
    obtain ⟨key, keys, hkeys⟩ := List.exists_cons_of_ne_nil (List.append_ne_nil_of_right_ne_nil route
      (List.cons_ne_nil pathKey []))
    have hhead : (route ++ [pathKey]).head? = some key := by rw [hkeys, List.head?_cons]
    have hindex : key ≠ indexKey := by
      rintro rfl
      exact head_ne_indexKey h.onWay hhead
    have hother : (route' ++ [pathKey]).head? ≠ some key := fun heq =>
      hne (eq_of_head_eq (MapEntries.suffix_of_mem_trail hmem) h.onWay (heq.trans hhead.symm))
    rw [← h.after, hkeys, Value.field, Value.field, hget hindex hother]
  refine ⟨hroute, ?_⟩
  have htext : Value.text (String.ofList path') = .text (String.ofList path) := by
    rw [← hfield, hroute, h.after]
  exact String.ofList_injective (Atom.text.inj (Value.atom.inj htext))

/-- Beside the way to annotations it does not stand at all. -/
theorem notMem_others (h : Marked ms ms' target es es' route path)
    {ways ways' others : List (ObjectId × MapEntries)}
    (hperm : r.toValue.maps.Perm (ways ++ others)) (hperm' : r'.toValue.maps.Perm (ways' ++ others))
    (hr : r.toValue.maps ⊆ ms) (hr' : r'.toValue.maps ⊆ ms') : (target, fs) ∉ others := by
  intro hmem
  exact h.changed (hr (hperm.mem_iff.2 (List.mem_append_right _ hmem)))
    (hr' (hperm'.mem_iff.2 (List.mem_append_right _ hmem)))

end Marked

/-! ### All resources -/

/-- What is done to several resources is done to the first ones and to the rest. -/
theorem Defaulted.exists_append {before after : List Resource}
    (h : Defaulted lo (before ++ after) paths rs') :
    ∃ given later before' after', paths = given ++ later ∧ rs' = before' ++ after' ∧
      Defaulted lo before given before' ∧ Defaulted lo after later after' := by
  induction before generalizing paths rs' with
  | nil => exact ⟨[], paths, [], rs', rfl, rfl, .nil, h⟩
  | cons r before ih =>
    cases h with
    | kept hmeta hpath hrest =>
      obtain ⟨given, later, before', after', rfl, rfl, hbefore, hafter⟩ := ih hrest
      exact ⟨given, later, r :: before', after', rfl, rfl, .kept hmeta hpath hbefore, hafter⟩
    | @given _ m fresh path _ _ _ hmeta hpath hfresh hrest =>
      obtain ⟨given, later, before', after', rfl, rfl, hbefore, hafter⟩ := ih hrest
      exact ⟨path :: given, later, located fresh m path r :: before', after', rfl, rfl,
        .given hmeta hpath hfresh hbefore, hafter⟩

/-- A new resource is given the first path. -/
theorem Defaulted.exists_given (h : Defaulted lo (r :: rs) paths rs') (hnew : IsNew r) :
    ∃ m fresh path later after', paths = path :: later ∧ rs' = located fresh m path r :: after' ∧
      r.getMeta = .ok m ∧ m.path? = none ∧ Defaulted lo rs later after' := by
  obtain ⟨m, hm, hnone⟩ := hnew
  cases h with
  | kept hmeta hpath _ =>
    obtain rfl := Except.ok.inj (hm.symm.trans hmeta)
    rw [hnone] at hpath
    cases hpath
  | @given _ m' fresh path _ later after' hmeta hpath _ hrest =>
    exact ⟨m', fresh, path, later, after', rfl, rfl, hmeta, hpath, hrest⟩

/-- What becomes of a resource. -/
theorem Defaulted.kept_or_led (h : Defaulted lo rs paths rs') (hr : r ∈ rs) :
    r ∈ rs' ∨ ∃ path ∈ paths, ∃ r' ∈ rs', Led path r r' := by
  induction h with
  | nil => exact absurd hr List.not_mem_nil
  | kept hmeta hpath hrest ih =>
    obtain rfl | hmem := List.mem_cons.1 hr
    · exact .inl List.mem_cons_self
    · obtain hin | ⟨path, hp, r', hr', hled⟩ := ih hmem
      · exact .inl (List.mem_cons_of_mem _ hin)
      · exact .inr ⟨path, hp, r', List.mem_cons_of_mem _ hr', hled⟩
  | given hmeta hpath hfresh hrest ih =>
    obtain rfl | hmem := List.mem_cons.1 hr
    · exact .inr ⟨_, List.mem_cons_self, _, List.mem_cons_self, led_located hmeta hpath _ _⟩
    · obtain hin | ⟨path, hp, r', hr', hled⟩ := ih hmem
      · exact .inl (List.mem_cons_of_mem _ hin)
      · exact .inr ⟨path, List.mem_cons_of_mem _ hp, r', List.mem_cons_of_mem _ hr', hled⟩

/-- A marked map does not stand in resources that are given other paths. -/
theorem Marked.notMem_objectsOf (h : Marked ms ms' target es es' route path)
    (hdefaulted : Defaulted lo rs paths rs') (hpath : path ∉ paths) (hms : mapsOf rs ⊆ ms)
    (hms' : mapsOf rs' ⊆ ms') : target ∉ objectsOf rs := by
  intro hmem
  obtain ⟨r, hr, hin⟩ := List.mem_flatMap.1 hmem
  rw [← Value.map_fst_maps] at hin
  obtain ⟨⟨_, fs⟩, hfs, rfl⟩ := List.mem_map.1 hin
  have hsub : r.toValue.maps ⊆ ms := fun m hm => hms (mem_mapsOf.2 ⟨r, hr, hm⟩)
  obtain hkept | ⟨path', hpath', r', hr', hled⟩ := hdefaulted.kept_or_led hr
  · exact h.changed (hsub hfs) (hms' (mem_mapsOf.2 ⟨r, hkept, hfs⟩))
  · have hsub' : r'.toValue.maps ⊆ ms' := fun m hm => hms' (mem_mapsOf.2 ⟨r', hr', hm⟩)
    obtain ⟨others, hperm, hperm'⟩ := hled.beside
    obtain hway | hother := List.mem_append.1 (hperm.mem_iff.1 hfs)
    · obtain ⟨⟨_, _, route'⟩, hmem', heq⟩ := List.mem_map.1 hway
      obtain ⟨rfl, rfl⟩ := Prod.mk.inj heq
      exact hpath ((h.eq_of_mem_way hled hsub hsub' hmem').2 ▸ hpath')
    · exact h.notMem_others hperm hperm' hsub hsub' hother

/-- A new resource has no path yet. -/
theorem field_ne_path (hmeta : r.getMeta = .ok m) (hpath : m.path? = none) (hne : path ≠ []) :
    r.toValue.field (annotationPath ++ [pathKey]) ≠ .text (String.ofList path) := by
  intro hfield
  have hget := get?_annotations hmeta pathKey (by rw [hfield]; simp)
  rw [hfield] at hget
  have hsome : m.annotations.get? pathKey = some (String.ofList path) := hget
  rw [Meta.path?, hsome, Option.filter_some_pos (by simpa using hne)] at hpath
  cases hpath

/-- The map that is edited when a new resource is annotated has been marked with the path. -/
theorem exists_marked (hmeta : r.getMeta = .ok m) (hpath : m.path? = none) (hne : path ≠ [])
    (hled : Led path r r') (hms : Coherent ms) (hms' : Coherent ms') (hr : r.toValue.maps ⊆ ms)
    (hr' : r'.toValue.maps ⊆ ms') : ∃ way es es' route, wayTo r = way ++ [(r.place, es, route)] ∧
      (∀ t ∈ way, t.2.2 ≠ route) ∧ Marked ms ms' r.place es es' route path := by
  obtain ⟨way, es, route, hway, hend⟩ := MapEntries.exists_trail_eq annotationPath r.id r.entries
  have hmem : (r.place, es, route) ∈ wayTo r := by
    rw [wayTo, hway]
    exact List.mem_append_right _ List.mem_cons_self
  obtain ⟨others, hperm, hperm'⟩ := hled.beside
  obtain ⟨es', hmem', hafter, -⟩ := hled.along hmem
  refine ⟨way, es, es', route, hway, hend, hms, hms', ?_, ?_, MapEntries.suffix_of_mem_trail hmem, ?_,
    hafter⟩
  · exact hr (hperm.mem_iff.2 (List.mem_append_left _ (List.mem_map_of_mem hmem)))
  · exact hr' (hperm'.mem_iff.2 (List.mem_append_left _ (List.mem_map_of_mem hmem')))
  · rw [MapEntries.field_of_mem_trail hmem]
    exact field_ne_path hmeta hpath hne

/-- In the resource that has been annotated, the edited map stands once. -/
theorem count_place_of_led (hmeta : r.getMeta = .ok m) (hpath : m.path? = none) (hne : path ≠ [])
    (hled : Led path r r') (hms : Coherent ms) (hms' : Coherent ms') (hr : r.toValue.maps ⊆ ms)
    (hr' : r'.toValue.maps ⊆ ms') : r.toValue.objects.count r.place = 1 := by
  obtain ⟨way, es, es', route, hway, hend, hmarked⟩ := exists_marked hmeta hpath hne hled hms hms' hr hr'
  obtain ⟨others, hperm, hperm'⟩ := hled.beside
  have hothers : (others.map Prod.fst).count r.place = 0 := by
    refine List.count_eq_zero.2 fun hin => ?_
    obtain ⟨⟨_, fs⟩, hfs, rfl⟩ := List.mem_map.1 hin
    exact hmarked.notMem_others hperm hperm' hr hr' hfs
  have hbefore : ((way.map MapEntries.stop).map Prod.fst).count r.place = 0 := by
    refine List.count_eq_zero.2 fun hin => ?_
    rw [List.map_map] at hin
    obtain ⟨⟨_, fs, route'⟩, ht, rfl⟩ := List.mem_map.1 hin
    have hmem : (r.place, fs, route') ∈ wayTo r := hway ▸ List.mem_append_left _ ht
    exact hend _ ht (hmarked.eq_of_mem_way hled hr hr' hmem).1
  rw [← Value.map_fst_maps, (hperm.map Prod.fst).count_eq, hway, List.map_append, List.map_append,
    List.map_append, List.count_append, List.count_append, hothers, hbefore]
  simp [MapEntries.stop]

/-- **What is done as it should be is done apart.** If assigning different paths does nothing else, no
edited map stands at a second place. -/
theorem unshared_of_defaulted (h : Defaulted lo rs paths rs') (hrs : Coherent (mapsOf rs))
    (hrs' : Coherent (mapsOf rs')) (hnodup : paths.Nodup) (hnamed : ∀ p ∈ paths, p ≠ []) :
    Unshared rs := by
  intro r hr hnew
  obtain ⟨before, after, rfl⟩ := List.append_of_mem hr
  obtain ⟨given, _, before', _, rfl, rfl, hbefore, hrest⟩ := h.exists_append
  obtain ⟨m, fresh, path, later, after', rfl, rfl, hm, hnone, hafter⟩ := hrest.exists_given hnew
  have hled : Led path r (located fresh m path r) := led_located hm hnone fresh path
  have hne : path ≠ [] := hnamed path (by simp)
  have hsub : r.toValue.maps ⊆ mapsOf (before ++ r :: after) := fun m hm =>
    mem_mapsOf.2 ⟨r, by simp, hm⟩
  have hsub' : (located fresh m path r).toValue.maps ⊆
      mapsOf (before' ++ located fresh m path r :: after') := fun m' hm' =>
    mem_mapsOf.2 ⟨_, by simp, hm'⟩
  obtain ⟨way, es, es', route, -, -, hmarked⟩ := exists_marked hm hnone hne hled hrs hrs' hsub hsub'
  obtain ⟨-, hlater, hgiven⟩ := List.nodup_append.1 hnodup
  have hmono : ∀ {qs qs' : List Resource}, qs ⊆ qs' → mapsOf qs ⊆ mapsOf qs' := fun hqs m hm => by
    obtain ⟨q, hq, hin⟩ := mem_mapsOf.1 hm
    exact mem_mapsOf.2 ⟨q, hqs hq, hin⟩
  have hzero : r.place ∉ objectsOf before := hmarked.notMem_objectsOf hbefore
    (fun hmem => hgiven path hmem path List.mem_cons_self rfl) (hmono (by simp)) (hmono (by simp))
  have hzero' : r.place ∉ objectsOf after := hmarked.notMem_objectsOf hafter
    (List.nodup_cons.1 hlater).1 (hmono (fun q hq => by simp [hq])) (hmono (fun q hq => by simp [hq]))
  rw [objectsOf_append, objectsOf_cons, List.count_append, List.count_append,
    List.count_eq_zero.2 hzero, List.count_eq_zero.2 hzero',
    count_place_of_led hm hnone hne hled hrs hrs' hsub hsub']

/-! ### An assignment -/

/-- Assigning provenance leaves to each map one content. -/
theorem kept_coherent (lo : Supply) :
    Assignment.Kept fun a => a.Bounded lo ∧ Coherent (mapsOf a.resources) where
  take path h := ⟨(Assignment.kept_bounded lo).take path h.1, h.2⟩
  annotated := by
    intro a r e key value hr hkey hedit h
    obtain ⟨hchange, hnew⟩ := maps_annotationEdit hedit
    exact ⟨(Assignment.kept_bounded lo).annotated hr hkey hedit h.1,
      coherent_edit h.2 h.1.resources hchange hnew⟩

variable {scope : Path} {functionPath : Option String} {supply supply' supply'' : Supply}
  {a : Assignment}

theorem coherent_assign (h : assign scope functionPath rs supply = .ok a) (hbound : BoundedBy supply rs)
    (hrs : Coherent (mapsOf rs)) : Coherent (mapsOf a.resources) := by
  obtain ⟨metas, -, hplace⟩ := assign_eq_ok_iff.1 h
  exact (Assignment.placeAll_induction (kept_coherent supply) hplace ⟨⟨le_rfl, hbound⟩, hrs⟩).2

/-- What the function `apps/fn.yaml` wrote, and the provenance that is assigned to it. -/
def assignText (text : String) : Option (Envelope.Decoded × Supply × Assignment) := do
  let (decoded, supply) ← ((Envelope.decode text).run 1).toOption
  let a ← (assign "apps".toList (some "apps/fn.yaml") decoded.resources supply).toOption
  return (decoded, supply, a)

theorem exists_assigned {β : Type} {text : String}
    {f : Envelope.Decoded × Supply × Assignment → β} {b : β}
    (h : (assignText text).map f = some b) : ∃ decoded supply a,
      (Envelope.decode text).run 1 = .ok (decoded, supply) ∧
      assign "apps".toList (some "apps/fn.yaml") decoded.resources supply = .ok a ∧
      f (decoded, supply, a) = b := by
  obtain ⟨x, hx, rfl⟩ := Option.map_eq_some_iff.1 h
  obtain ⟨⟨decoded, supply⟩, hdecode, hx⟩ := Option.bind_eq_some_iff.1 hx
  obtain ⟨a, hassign, hx⟩ := Option.bind_eq_some_iff.1 hx
  obtain rfl := Option.some.inj hx
  exact ⟨decoded, supply, a, Result.ok_of_toOption hdecode, Result.ok_of_toOption hassign, rfl⟩

/-- **When the assignment of provenance does nothing else.** To the resources that a function wrote it
does what it should exactly if, of each new one, the map that is edited stands nowhere else in what the
function wrote. -/
theorem defaulted_iff_unshared {text : String} {decoded : Envelope.Decoded}
    (hdecode : (Envelope.decode text).run supply = .ok (decoded, supply')) (hle : supply' ≤ supply'')
    (h : assign scope functionPath decoded.resources supply'' = .ok a) :
    Defaulted supply'' decoded.resources a.paths a.resources ↔ Unshared decoded.resources := by
  have hbound : BoundedBy supply'' decoded.resources := fun r hr =>
    le_trans ((Envelope.within_decode hdecode).2 r hr).bound hle
  have hrs : Coherent (mapsOf decoded.resources) := Envelope.coherent_decode hdecode
  have hdistinct : a.Distinct := distinct_assign h
  constructor
  · intro hdefaulted
    exact unshared_of_defaulted hdefaulted hrs (coherent_assign h hbound hrs) hdistinct.nodup
      hdistinct.named
  · exact defaulted_of_unshared h hbound

/-- Two resources whose specification is one map. -/
def sharedSpec : String :=
  "kind: ResourceList\napiVersion: config.kubernetes.io/v1\nitems:\n" ++
    "- kind: A\n  spec: &s \x7b\x7d\n- kind: B\n  spec: *s\n"

/-- Such a map makes no difference, for nothing is written to it. -/
theorem defaulted_sharedSpec : ∃ decoded supply a,
    (Envelope.decode sharedSpec).run 1 = .ok (decoded, supply) ∧
    assign "apps".toList (some "apps/fn.yaml") decoded.resources supply = .ok a ∧
    ¬ (objectsOf decoded.resources).Nodup ∧
    a.paths.map String.ofList = ["apps/fn/a_.yaml", "apps/fn/b_.yaml"] ∧
    Defaulted supply decoded.resources a.paths a.resources := by
  have hrun : (assignText sharedSpec).map (fun x => (decide (objectsOf x.1.resources).Nodup,
      x.1.resources.all fun r => (objectsOf x.1.resources).count r.place == 1,
      x.2.2.paths.map String.ofList)) =
        some (false, true, ["apps/fn/a_.yaml", "apps/fn/b_.yaml"]) := by decide +kernel
  obtain ⟨decoded, supply, a, hdecode, hassign, hfacts⟩ := exists_assigned hrun
  obtain ⟨hshared, hplaces, hpaths⟩ := Prod.mk.inj hfacts |>.imp_right Prod.mk.inj
  have hunshared : Unshared decoded.resources := fun r hr _ =>
    beq_iff_eq.1 (List.all_eq_true.1 hplaces r hr)
  exact ⟨decoded, supply, a, hdecode, hassign, of_decide_eq_false hshared, hpaths,
    (defaulted_iff_unshared hdecode le_rfl hassign).2 hunshared⟩

/-- Two resources whose metadata is one map. -/
def sharedMetadata : String :=
  "kind: ResourceList\napiVersion: config.kubernetes.io/v1\nitems:\n" ++
    "- kind: A\n  metadata: &m \x7b\x7d\n- kind: B\n  metadata: *m\n"

/-- **A file that is lost.** The path that is given to the second resource is written over that of the
first one, and both end in one file. -/
theorem path_overwritten_sharedMetadata : ∃ decoded supply a,
    (Envelope.decode sharedMetadata).run 1 = .ok (decoded, supply) ∧
    assign "apps".toList (some "apps/fn.yaml") decoded.resources supply = .ok a ∧
    a.paths.map String.ofList = ["apps/fn/a_.yaml", "apps/fn/b_.yaml"] ∧
    a.resources.map pathOf? = [some "apps/fn/b_.yaml", some "apps/fn/b_.yaml"] ∧
    ¬ Defaulted supply decoded.resources a.paths a.resources := by
  have hrun : (assignText sharedMetadata).map (fun x => (
      x.1.resources.all fun r => r.getMeta.toOption.map Meta.path? == some none,
      x.2.2.paths.map String.ofList, x.2.2.resources.map pathOf?)) =
        some (true, ["apps/fn/a_.yaml", "apps/fn/b_.yaml"],
          [some "apps/fn/b_.yaml", some "apps/fn/b_.yaml"]) := by decide +kernel
  obtain ⟨decoded, supply, a, hdecode, hassign, hfacts⟩ := exists_assigned hrun
  obtain ⟨hnew, hpaths, hfiles⟩ := Prod.mk.inj hfacts |>.imp_right Prod.mk.inj
  refine ⟨decoded, supply, a, hdecode, hassign, hpaths, hfiles, fun hdefaulted => ?_⟩
  have hall : ∀ r ∈ decoded.resources, IsNew r := fun r hr => by
    obtain ⟨m, hm, hpath⟩ := Option.map_eq_some_iff.1 (beq_iff_eq.1 (List.all_eq_true.1 hnew r hr))
    exact ⟨m, Result.ok_of_toOption hm, hpath⟩
  -- each resource would have the path that it was given
  have hgiven : a.resources.map pathOf? = a.paths.map fun path => some (String.ofList path) :=
    hdefaulted.pathOf?_eq hall
  have hsome : (a.paths.map fun path => some (String.ofList path)) =
      (a.paths.map String.ofList).map some := List.map_map.symm
  rw [hfiles, hsome, hpaths] at hgiven
  revert hgiven
  decide

end Provenance

end ScopedFn
