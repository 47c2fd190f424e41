import ScopedFn.Proofs.Provenance.Shared
import ScopedFn.Proofs.Resource.Site

/-!
# Where paths are written

New resources are given their paths one after the other, each of them at the site of the resource.
Resources that share a site share the path that is written there last, and so does every other value
in which that site stands; all other sites keep what they have.

* `Provenance.lacksPath` : the resources that are given a path;
* `Provenance.Traced` : what is found at every site, by the paths that have been written so far;
* `Provenance.traced_assign` : what is found when all paths have been written.
-/

set_option autoImplicit false

namespace ScopedFn

namespace Provenance

open Resource

variable {scope stem path : Path} {lo : Supply} {rs fam rest done : List Resource} {q r : Resource}
  {m : Meta} {a a' : Assignment} {key value : String} {parts : List String}

/-- Whether a resource is to be given a path. -/
def lacksPath (r : Resource) : Bool := r.getMeta.toOption.any fun m => m.path?.isNone

theorem lacksPath_eq (h : r.getMeta = .ok m) : lacksPath r = m.path?.isNone := by
  rw [lacksPath, h]
  rfl

theorem lacksPath_iff : lacksPath r = true ↔ IsNew r := by
  rw [lacksPath, IsNew]
  cases h : r.getMeta with
  | error fault => simp [Except.toOption]
  | ok m => simp [Except.toOption]

/-- The sites at which paths have been written, the last one first. -/
abbrev Writings := List ((ObjectId × List String) × Path)

/-- What is found where a path may have been written: the last path that was, or what was there
before, as the edits leave it. -/
def Writings.valueAt (written : Writings) (site : ObjectId × List String) (es : List Edit) (v : Value) :
    Value :=
  match written.lookup site with
  | some p => .text (String.ofList p)
  | none => v.editAll es

theorem Writings.valueAt_of_some {written : Writings} {site : ObjectId × List String} {p : Path}
    (h : written.lookup site = some p) (es : List Edit) (v : Value) :
    written.valueAt site es v = .text (String.ofList p) := by
  rw [valueAt, h]

theorem Writings.valueAt_of_none {written : Writings} {site : ObjectId × List String}
    (h : written.lookup site = none) (es : List Edit) (v : Value) :
    written.valueAt site es v = v.editAll es := by
  rw [valueAt, h]

/-- What the values of a family look like after edits that have written paths at sites. -/
structure Traced (lo : Supply) (fam : List Resource) (written : Writings) (es : List Edit)
    (supply : Supply) : Prop where
  /-- The supply goes on from the given identity. -/
  older : lo ≤ supply
  /-- No identity in the family lies behind the supply. -/
  bounded : BoundedBy supply (fam.map (·.editAll es))
  /-- A map of the family has one content. -/
  coherent : Coherent (mapsOf (fam.map (·.editAll es)))
  /-- Paths of keys that had one site have one site. -/
  sites : ∀ q ∈ fam, ∀ q' ∈ fam, ∀ parts parts', parts <:+ annotationPath →
    parts' <:+ annotationPath →
    ((q.editAll es).siteOn parts = (q'.editAll es).siteOn parts' ↔ q.siteOn parts = q'.siteOn parts')
  /-- The map of a site is the one that it was, unless it has been made. -/
  moved : ∀ q ∈ fam, ∀ parts, parts <:+ annotationPath →
    ((q.editAll es).siteOn parts).1 = (q.siteOn parts).1 ∨ lo ≤ ((q.editAll es).siteOn parts).1
  /-- At a site stands the path that was written there last. -/
  values : ∀ q ∈ fam, ∀ parts, parts <:+ annotationPath → (q.editAll es).valueOn parts pathKey =
    written.valueAt (q.siteOn parts) es (q.valueOn parts pathKey)
  /-- Nothing else is edited than the maps of these sites and those that have been made. -/
  targets : ∀ e ∈ es, e.target ∈ written.map (·.1.1) ∨ lo ≤ e.target

theorem traced_nil (hbound : BoundedBy lo fam) (hfam : Coherent (mapsOf fam)) :
    Traced lo fam [] [] lo where
  older := le_rfl
  bounded := (List.map_id fam).symm ▸ hbound
  coherent := (List.map_id fam).symm ▸ hfam
  sites _ _ _ _ _ _ _ _ := Iff.rfl
  moved _ _ _ _ := .inl rfl
  values _ _ _ _ := rfl
  targets := nofun

section

variable {written written' : Writings} {es : List Edit} {e : Edit} {supply : Supply}

theorem map_editAll_concat (es : List Edit) (e : Edit) (rs : List Resource) :
    rs.map (·.editAll (es ++ [e])) = (rs.map (·.editAll es)).map (·.edit e) := by
  rw [List.map_map]
  exact List.map_congr_left fun r _ => editAll_append es [e] r

theorem maps_subset_mapsOf (h : q ∈ fam) (es : List Edit) :
    (q.editAll es).toValue.maps ⊆ mapsOf (fam.map (·.editAll es)) := fun _ hm =>
  mem_mapsOf.2 ⟨_, List.mem_map_of_mem h, hm⟩

/-- **An annotation is written at one site.** If it is a path, it is the last one there. -/
theorem Traced.edit (h : Traced lo fam written es supply) (hr : r ∈ fam) (hkey : key ∈ readerKeys)
    (he : (r.editAll es).annotationEdit supply (supply + 1) key value = .ok e)
    (hlookup : ∀ s, written'.lookup s =
      if s = r.site ∧ key = pathKey then some value.toList else written.lookup s)
    (hmem : r.place ∈ written'.map (·.1.1)) (hsub : written ⊆ written') :
    Traced lo fam written' (es ++ [e]) (supply + 2) := by
  have hsupply : supply ≤ supply + 2 := Nat.le_add_right _ _
  have hbound : ∀ q ∈ fam, (q.editAll es).toValue.bound ≤ supply := fun q hq =>
    h.bounded _ (List.mem_map_of_mem hq)
  have hmaps : ∀ q ∈ fam, (q.editAll es).toValue.maps ⊆ mapsOf (fam.map (·.editAll es)) :=
    fun q hq => maps_subset_mapsOf hq es
  have hall : ∀ q : Resource, q.editAll (es ++ [e]) = (q.editAll es).edit e := editAll_append es [e]
  refine ⟨le_trans h.older hsupply, ?_, ?_, ?_, ?_, ?_, ?_⟩
  · rw [map_editAll_concat]
    refine List.forall_mem_map.2 fun q hq => ?_
    rw [toValue_edit]
    exact Value.bound_edit_le (le_trans (h.bounded q hq) hsupply)
      (bounded_annotationEdit he (Nat.lt_add_of_pos_right (by decide)) (Nat.lt_succ_self _))
  · obtain ⟨hchange, hnew⟩ := maps_annotationEdit he
    rw [map_editAll_concat]
    exact coherent_edit h.coherent h.bounded hchange hnew
  · intro q hq q' hq' parts parts' hparts hparts'
    rw [hall, hall, siteOn_edit_eq_iff he hkey h.coherent (hmaps r hr) (hmaps q hq) (hmaps q' hq')
      hparts hparts' (hbound q hq) (hbound q' hq')]
    exact h.sites q hq q' hq' parts parts' hparts hparts'
  · intro q hq parts hparts
    rw [hall]
    obtain heq | hle := siteOn_edit_fst he hkey h.coherent (hmaps r hr) (hmaps q hq) hparts
    · rw [heq]
      exact h.moved q hq parts hparts
    · exact .inr (le_trans h.older hle)
  · intro q hq parts hparts
    have hsite : (q.editAll es).siteOn parts = (r.editAll es).site ↔ q.siteOn parts = r.site :=
      h.sites q hq r hr parts annotationPath hparts List.suffix_rfl
    rw [hall, valueOn_edit he hkey h.coherent (hmaps r hr) (hmaps q hq) hparts (by decide),
      h.values q hq parts hparts, Writings.valueAt, Writings.valueAt, hlookup]
    simp only [hsite]
    split_ifs with hand
    · exact congrArg Value.text String.ofList_toList.symm
    · cases written.lookup (q.siteOn parts) with
      | some p => rfl
      | none => exact (Value.editAll_append es [e] _).symm
  · refine List.forall_mem_append.2 ⟨fun e' he' => ?_, List.forall_mem_singleton.2 ?_⟩
    · exact (h.targets e' he').imp_left fun hold => List.map_subset _ hsub hold
    · rw [target_annotationEdit he]
      have hmoved : (r.editAll es).place = r.place ∨ lo ≤ (r.editAll es).place :=
        h.moved r hr annotationPath List.suffix_rfl
      exact hmoved.imp_left fun heq => by rwa [heq]

/-! ### An assignment -/

/-- An assignment of provenance to resources of a family, on its way. -/
structure Writes (lo : Supply) (rs fam : List Resource) (written : Writings) (a : Assignment) :
    Prop where
  /-- The resources are as the edits leave them. -/
  follows : Assignment.Follows rs a
  /-- So is the family, in which they are. -/
  traced : Traced lo fam written a.edits a.supply

theorem Writes.annotate (h : Writes lo rs fam written a) (hfam : rs ⊆ fam) {position : ℕ}
    (hat : rs[position]? = some r) (hkey : key ∈ readerKeys)
    (ha : a.annotate position key value = .ok a')
    (hlookup : ∀ s, written'.lookup s =
      if s = r.site ∧ key = pathKey then some value.toList else written.lookup s)
    (hmem : r.place ∈ written'.map (·.1.1)) (hsub : written ⊆ written') :
    Writes lo rs fam written' a' := by
  have hat' : a.resources[position]? = some (r.editAll a.edits) := by
    rw [h.follows, List.getElem?_map, hat]
    rfl
  refine ⟨(Assignment.kept_follows rs).annotate hkey ha h.follows, ?_⟩
  unfold Assignment.annotate at ha
  rw [hat'] at ha
  obtain ⟨e, he, ha⟩ := Result.ok_of_bind ha
  obtain rfl := Except.ok.inj ha
  exact h.traced.edit (hfam (List.mem_of_getElem? hat)) hkey he hlookup hmem hsub

/-- A new resource is given a path at its site. -/
theorem Writes.place (h : Writes lo rs fam written a) (hfam : rs ⊆ fam) {position : ℕ}
    (hat : rs[position]? = some r) (ha : a.place position m path = .ok a') :
    Writes lo rs fam ((r.site, freePath a.taken path) :: written) a' := by
  rw [Assignment.place_eq] at ha
  obtain ⟨a₁, hpath, ha⟩ := Result.ok_of_bind ha
  have htaken : Writes lo rs fam written (a.take (freePath a.taken path)) := ⟨h.follows, h.traced⟩
  have h₁ : Writes lo rs fam ((r.site, freePath a.taken path) :: written) a₁ := by
    refine htaken.annotate hfam hat (by decide) hpath (fun s => ?_) List.mem_cons_self
      (List.subset_cons_self _ _)
    rw [List.lookup_cons, String.toList_ofList]
    by_cases hs : s = r.site
    · rw [beq_iff_eq.2 hs, if_pos ⟨hs, rfl⟩]
    · rw [beq_false_of_ne hs, if_neg fun hand => hs hand.1]
  split at ha
  · refine h₁.annotate hfam hat (by decide) ha (fun s => ?_) List.mem_cons_self
      (List.Subset.refl _)
    exact (if_neg fun hand => absurd hand.2 (by decide)).symm
  · exact Except.ok.inj ha ▸ h₁

/-- The sites of the new resources, with the paths that they are given. -/
def writings (rs : List Resource) (paths : List Path) : Writings :=
  ((rs.filter lacksPath).map site).zip paths

theorem writes_placeAll {ms : List Meta}
    (h : Assignment.placeAll scope stem done.length ms a = .ok a') (hrs : rs = done ++ rest)
    (hmetas : List.Forall₂ (fun r m => r.getMeta = .ok m) rest ms) (hfam : rs ⊆ fam)
    (ha : Writes lo rs fam written a) :
    ∃ paths, a'.paths = a.paths ++ paths ∧ paths.length = (rest.filter lacksPath).length ∧
      Writes lo rs fam ((writings rest paths).reverse ++ written) a' := by
  induction hmetas generalizing a done written with
  | nil =>
    obtain rfl := Except.ok.inj h
    exact ⟨[], (List.append_nil _).symm, rfl, ha⟩
  | @cons r m rest ms hmeta _ ih =>
    have hrs' : rs = (done ++ [r]) ++ rest := by rw [hrs, List.append_assoc, List.singleton_append]
    have hlength : done.length + 1 = (done ++ [r]).length := by simp
    unfold Assignment.placeAll at h
    rw [hlength] at h
    split at h
    · rename_i hpath
      have hold : lacksPath r = false := by simpa [lacksPath_eq hmeta] using hpath
      obtain ⟨paths, hpaths, hcount, hwrites⟩ := ih h hrs' ha
      refine ⟨paths, hpaths, ?_, ?_⟩
      · rw [List.filter_cons_of_neg (by simp [hold]), hcount]
      · rwa [writings, List.filter_cons_of_neg (by simp [hold])]
    · rename_i hpath
      have hnew : lacksPath r = true := by simpa [lacksPath_eq hmeta] using hpath
      obtain ⟨a₁, hplace, hlater⟩ := Result.ok_of_bind h
      have hat : rs[done.length]? = some r := by
        rw [hrs, List.getElem?_append_right le_rfl, Nat.sub_self, List.getElem?_cons_zero]
      obtain ⟨paths, hpaths, hcount, hwrites⟩ := ih hlater hrs' (ha.place hfam hat hplace)
      refine ⟨freePath a.taken (defaultPath scope m stem) :: paths, ?_, ?_, ?_⟩
      · rw [hpaths, Assignment.paths_place hplace, List.append_assoc, List.singleton_append]
      · rw [List.filter_cons_of_pos hnew, List.length_cons, List.length_cons, hcount]
      · rw [writings, List.filter_cons_of_pos hnew, List.map_cons, List.zip_cons_cons,
          List.reverse_cons, List.append_assoc, List.singleton_append]
        exact hwrites

end

variable {functionPath : Option String} {supply : Supply}

/-- **The last writer of a path stays.** When provenance has been assigned, at the site of each new
resource stands the path that the last resource of that site was given; every other value of the
family is as it was. -/
theorem writes_assign (h : assign scope functionPath rs supply = .ok a) (hfam : rs ⊆ fam)
    (hbound : BoundedBy supply fam) (hcoherent : Coherent (mapsOf fam)) :
    a.paths.length = (rs.filter lacksPath).length ∧
      Writes supply rs fam (writings rs a.paths).reverse a := by
  obtain ⟨metas, hmetas, hplace⟩ := assign_eq_ok_iff.1 h
  have hstart : Writes supply rs fam [] (Assignment.start rs metas supply) :=
    ⟨(List.map_id rs).symm, traced_nil hbound hcoherent⟩
  have hall : Assignment.placeAll scope (functionStem functionPath) ([] : List Resource).length metas
      (Assignment.start rs metas supply) = .ok a := hplace
  obtain ⟨paths, hpaths, hcount, hwrites⟩ :=
    writes_placeAll hall rfl (Result.forall₂_of_mapM hmetas) hfam hstart
  rw [List.append_nil] at hwrites
  obtain rfl : a.paths = paths := hpaths
  exact ⟨hcount, hwrites⟩

/-! ### Which paths were written -/

theorem mem_writings {s : ObjectId × List String} {p : Path} {paths : List Path}
    (h : (s, p) ∈ writings rs paths) : p ∈ paths ∧ ∃ r ∈ rs, IsNew r ∧ s = r.site := by
  obtain ⟨hs, hp⟩ := List.of_mem_zip h
  obtain ⟨r, hr, rfl⟩ := List.mem_map.1 hs
  obtain ⟨hr, hnew⟩ := List.mem_filter.1 hr
  exact ⟨hp, r, hr, lacksPath_iff.1 hnew, rfl⟩

theorem mem_of_lookup {s : ObjectId × List String} {p : Path} {written : Writings}
    (h : written.lookup s = some p) : (s, p) ∈ written := by
  obtain ⟨before, after, heq, -⟩ := List.lookup_eq_some_iff.1 h
  rw [heq]
  simp

/-- At the site of a new resource, one of the given paths was written. -/
theorem exists_lookup {paths : List Path} (hcount : paths.length = (rs.filter lacksPath).length)
    (hr : r ∈ rs) (hnew : IsNew r) :
    ∃ p ∈ paths, (writings rs paths).reverse.lookup r.site = some p := by
  cases hlookup : (writings rs paths).reverse.lookup r.site with
  | some p => exact ⟨p, (mem_writings (List.mem_reverse.1 (mem_of_lookup hlookup))).1, rfl⟩
  | none =>
    have hmem : r.site ∈ (writings rs paths).map Prod.fst := by
      rw [writings, List.map_fst_zip (by rw [List.length_map, hcount])]
      exact List.mem_map_of_mem (List.mem_filter.2 ⟨hr, lacksPath_iff.2 hnew⟩)
    obtain ⟨⟨s, p⟩, hin, rfl⟩ := List.mem_map.1 hmem
    have hne := List.lookup_eq_none_iff.1 hlookup (r.site, p) (List.mem_reverse.2 hin)
    simp at hne

/-! ### Where the paths show -/

theorem id_editAll (es : List Edit) (r : Resource) : (r.editAll es).id = r.id := by
  induction es generalizing r with
  | nil => rfl
  | cons e es ih => exact ih (r.edit e)

/-- Where the map stands that is edited for a new resource, the path of that site is found in the end,
and it was not there before. -/
theorem valueOn_place_ne {paths : List Path} {es : MapEntries} {edits : List Edit} {supply' : Supply}
    (htraced : Traced lo fam (writings rs paths).reverse edits supply')
    (hcount : paths.length = (rs.filter lacksPath).length) (hnamed : ∀ p ∈ paths, p ≠ [])
    (hcoherent : Coherent (mapsOf fam)) (hr : r ∈ rs) (hfam : r ∈ fam) (hnew : IsNew r)
    (hq : (⟨r.place, es⟩ : Resource) ∈ fam) :
    (⟨r.place, es⟩ : Resource).editAll edits ≠ ⟨r.place, es⟩ := by
  intro heq
  obtain ⟨m, hmeta, hpath⟩ := hnew
  obtain ⟨es', hend⟩ := MapEntries.exists_mem_trail annotationPath r.id r.entries
  -- the map has one content, so it leads to the same site
  have hin : (r.place, es') ∈ mapsOf fam := mem_mapsOf.2 ⟨r, hfam, MapEntries.stop_mem_maps hend⟩
  have hin' : (r.place, es) ∈ mapsOf fam := mem_mapsOf.2 ⟨_, hq, List.mem_cons_self⟩
  obtain ⟨-, rfl⟩ := Prod.mk.inj (hcoherent _ hin _ hin' rfl)
  have hsite : (⟨r.place, es'⟩ : Resource).siteOn r.site.2 = r.site :=
    (MapEntries.site_of_mem_trail hend).symm
  obtain ⟨p, hp, hlookup⟩ := exists_lookup hcount hr ⟨m, hmeta, hpath⟩
  have hvalue := htraced.values _ hq r.site.2 (MapEntries.remainder_suffix _ _)
  rw [heq, hsite, Writings.valueAt_of_some hlookup] at hvalue
  refine field_ne_path hmeta hpath (hnamed p hp) ?_
  rw [← hvalue]
  exact (MapEntries.field_of_mem_trail hend pathKey).symm

/-- **What else an assignment changes.** A value that was written with the resources stays as it is
exactly if it holds no map that is edited for a new resource. -/
theorem editAll_eq_self_iff (h : assign scope functionPath rs supply = .ok a)
    (hbound : BoundedBy supply (q :: rs)) (hcoherent : Coherent (mapsOf (q :: rs))) :
    q.editAll a.edits = q ↔ ∀ r ∈ rs, IsNew r → r.place ∉ q.toValue.objects := by
  constructor
  · intro heq r hr hnew hmem
    rw [← Value.map_fst_maps] at hmem
    obtain ⟨⟨target, es⟩, hes, htarget⟩ := List.mem_map.1 hmem
    obtain rfl : target = r.place := htarget
    -- the map by itself joins the family, so that its way to the path can be followed
    have hsub : mapsOf (⟨r.place, es⟩ :: q :: rs) ⊆ mapsOf (q :: rs) := fun m hm => by
      obtain ⟨r', hr', hin⟩ := mem_mapsOf.1 hm
      obtain rfl | hr' := List.mem_cons.1 hr'
      · exact mem_mapsOf.2 ⟨q, List.mem_cons_self, Value.maps_subset hes hin⟩
      · exact mem_mapsOf.2 ⟨r', hr', hin⟩
    have hcoherent' : Coherent (mapsOf (⟨r.place, es⟩ :: q :: rs)) := fun m hm m' hm' =>
      hcoherent m (hsub hm) m' (hsub hm')
    have hwithin : q.toValue.Within 0 supply := ⟨fun _ _ => Nat.zero_le _, hbound q List.mem_cons_self⟩
    have hbound' : BoundedBy supply (⟨r.place, es⟩ :: q :: rs) :=
      List.forall_mem_cons.2 ⟨(hwithin.of_mem_maps hes).bound, hbound⟩
    have hfam : rs ⊆ ⟨r.place, es⟩ :: q :: rs := fun _ hr => by simp [hr]
    obtain ⟨hcount, -, htraced⟩ := writes_assign h hfam hbound' hcoherent'
    have hself : (⟨r.place, es⟩ : Resource).editAll a.edits ≠ ⟨r.place, es⟩ :=
      valueOn_place_ne htraced hcount (distinct_assign h).named hcoherent' hr (hfam hr) hnew
        List.mem_cons_self
    -- but the value is the same, and holds the map with the entries that it had
    refine hself (Resource.toValue_injective ?_)
    have hin : ((⟨r.place, es⟩ : Resource).editAll a.edits |>.id,
        ((⟨r.place, es⟩ : Resource).editAll a.edits).entries) ∈
        mapsOf ((⟨r.place, es⟩ :: q :: rs).map (·.editAll a.edits)) :=
      mem_mapsOf.2 ⟨_, List.mem_map_of_mem List.mem_cons_self, List.mem_cons_self⟩
    have hin' : (r.place, es) ∈ mapsOf ((⟨r.place, es⟩ :: q :: rs).map (·.editAll a.edits)) :=
      mem_mapsOf.2 ⟨q, List.mem_map.2 ⟨q, by simp, heq⟩, hes⟩
    obtain ⟨hid, hentries⟩ := Prod.mk.inj (htraced.coherent _ hin _ hin' (id_editAll _ _))
    rw [Resource.toValue, hid, hentries]
    rfl
  · intro hall
    have hfam : rs ⊆ q :: rs := List.subset_cons_self q rs
    obtain ⟨-, -, htraced⟩ := writes_assign h hfam hbound hcoherent
    refine toValue_injective ((toValue_editAll a.edits q).trans ?_)
    refine Value.editAll_eq_self fun e he hmem => ?_
    obtain hsite | hle := htraced.targets e he
    · obtain ⟨⟨s, p⟩, hin, htarget⟩ := List.mem_map.1 hsite
      obtain ⟨-, r, hr, hnew, rfl⟩ := mem_writings (List.mem_reverse.1 hin)
      rw [← htarget] at hmem
      exact hall r hr hnew hmem
    · exact absurd (Value.lt_of_mem_objects (hbound q List.mem_cons_self) hmem) (not_lt.2 hle)

end Provenance

end ScopedFn
