import ScopedFn.Proofs.Provenance.Written
import ScopedFn.Proofs.Resource.File
import ScopedFn.Proofs.Scope.Spelling

/-!
# Files of their own

A new resource is given a path that no other resource of the output has. Paths are compared by their
text, so another spelling of the file counts as another file; they are compared in the output only;
and resources that share the map they are written in end with one path.

* `Provenance.file?_given`, `Provenance.file?_kept` : the files of an output with provenance;
* `Provenance.AloneInFiles` : every new resource is the only one in its file;
* `Provenance.aloneInFiles_iff` : when this is so.
-/

set_option autoImplicit false

namespace ScopedFn.Provenance

open Resource ScopedFn.Path

variable {scope stem path : Path} {functionPath : Option String} {supply : Supply}
  {rs outside : List Resource} {r r' q : Resource} {a : Assignment} {m : Meta} {p : Path} {s : String}

/-! ### The form of a given path -/

/-- The path ends with a name and the extension of a document. -/
def IsDocument (p : Path) : Prop := ∃ head base, p = head ++ (base ++ ".yaml".toList) ∧
  IsHead head ∧ '/' ∉ base ∧ base.any (· != '.') = true

theorem IsDocument.of_join {dir base : Path} (hbase : '/' ∉ base) (hany : base.any (· != '.') = true)
    (hdir : dir ≠ []) : IsDocument (join dir (base ++ ".yaml".toList)) := by
  obtain ⟨head, hhead, hjoin⟩ := exists_head hdir
  have hfile : '/' ∉ base ++ ".yaml".toList := by simpa using hbase
  exact ⟨head, base, hjoin _ hfile, hhead, hbase, hany⟩

theorem isDocument_defaultPath (scope : Path) (m : Meta) (stem : Path) :
    IsDocument (defaultPath scope m stem) := by
  have hslash : '/' ∉ fileSegment m.kind ++ '_' :: fileSegment m.name := fun hmem =>
    slash_notMem_fileName m (List.mem_append_left _ hmem)
  have hany : (fileSegment m.kind ++ '_' :: fileSegment m.name).any (· != '.') = true := by simp
  unfold defaultPath
  cases hparts : [scope, stem, m.space.toList].filter (· != []) with
  | nil => exact ⟨[], _, rfl, .inl rfl, hslash, hany⟩
  | cons first rest =>
    have hfirst : first ∈ [scope, stem, m.space.toList].filter (· != []) :=
      hparts ▸ List.mem_cons_self
    have hne : first ≠ [] := by simpa using (List.mem_filter.1 hfirst).2
    have hname : fileName m = fileSegment m.kind ++ '_' :: fileSegment m.name ++ ".yaml".toList :=
      rfl
    show IsDocument ((rest ++ [fileName m]).foldl join first)
    rw [List.foldl_append, List.foldl_cons, List.foldl_nil, hname]
    exact .of_join hslash hany (foldl_join_ne_nil hne rest)

theorem splitExtension_document {head base : Path} (hhead : IsHead head) (hbase : '/' ∉ base)
    (hany : base.any (· != '.') = true) :
    splitExtension (head ++ (base ++ ".yaml".toList)) = (head ++ base, ".yaml".toList) := by
  have hfile : '/' ∉ base ++ ".yaml".toList := by simpa using hbase
  have hextension : ((base ++ ".yaml".toList).reverse.takeWhile (· != '.')).reverse =
      "yaml".toList := by
    rw [List.reverse_append]
    rfl
  have hstem : (base ++ ".yaml".toList).take
      ((base ++ ".yaml".toList).length - "yaml".toList.length - 1) = base := by
    simp
  rw [splitExtension, splitLast_append hhead hfile]
  dsimp only
  rw [hextension, hstem, if_pos ⟨by simp, hany⟩]
  rfl

/-- A number is put before the extension. -/
theorem IsDocument.numbered (h : IsDocument p) (n : ℕ) : IsDocument (numbered p n) := by
  obtain ⟨head, base, rfl, hhead, hbase, hany⟩ := h
  refine ⟨head, base ++ '_' :: Nat.toDigits 10 n, ?_, hhead, ?_, by simp⟩
  · rw [Provenance.numbered, splitExtension_document hhead hbase hany]
    simp
  · simp [hbase, slash_notMem_toDigits]

theorem IsDocument.freePath (h : IsDocument p) (taken : List Path) :
    IsDocument (freePath taken p) := by
  unfold Provenance.freePath
  split
  · dsimp only
    cases hfind : ((List.range (taken.length + 1)).map fun n => Provenance.numbered p (n + 1)).find?
        fun p => !taken.contains p with
    | none => exact h
    | some p' =>
      obtain ⟨n, -, rfl⟩ := List.mem_map.1 (List.mem_of_find?_eq_some hfind)
      exact h.numbered (n + 1)
  · exact h

theorem isDocument_paths (h : assign scope functionPath rs supply = .ok a) :
    ∀ p ∈ a.paths, IsDocument p := by
  obtain ⟨metas, -, hplace⟩ := assign_eq_ok_iff.1 h
  obtain ⟨paths, hpaths, hall⟩ := Assignment.paths_placeAll hplace
  have hstart : a.paths = paths := hpaths.trans (List.nil_append paths)
  rw [hstart]
  intro p hp
  obtain ⟨m, -, taken, rfl⟩ := Result.exists_of_mem_left hall.flip hp
  exact (isDocument_defaultPath _ _ _).freePath taken

/-- The name of such a path, which is not reserved. -/
theorem IsDocument.exists_name (h : IsDocument p) : ∃ head name, p = head ++ name ∧ IsHead head ∧
    IsName name ∧ name.getLast? = some 'l' := by
  obtain ⟨head, base, rfl, hhead, hbase, hany⟩ := h
  have hlast : (base ++ ".yaml".toList).getLast? = some 'l' := by
    rw [List.getLast?_append]
    rfl
  refine ⟨head, _, rfl, hhead, ⟨?_, ?_, ?_, by simpa using hbase⟩, hlast⟩ <;>
  · intro heq
    rw [heq] at hlast
    revert hlast
    decide

/-- No text that ends with a bracket is a spelling of it. -/
theorem IsDocument.normalize_ne (h : IsDocument p) (hs : Value.Bracketed s) :
    normalize s.toList ≠ normalize p := by
  obtain ⟨head, name, rfl, hhead, hname, hlast⟩ := h.exists_name
  obtain ⟨c, hc, hend⟩ := hs
  obtain ⟨head', name', heq, hhead', hslash⟩ := exists_head_append s.toList
  rw [heq] at hend ⊢
  have hne : c ≠ '/' ∧ c ≠ '.' ∧ c ≠ 'l' := by
    revert hc
    simp only [List.mem_cons, List.not_mem_nil, or_false]
    rintro (rfl | rfl | rfl) <;> decide
  have hend' : name'.getLast? = some c := by
    rw [List.getLast?_append] at hend
    cases hname' : name'.getLast? with
    | some c' => rwa [hname'] at hend
    | none =>
      rw [hname', Option.none_or] at hend
      obtain rfl | hslash' := hhead'
      · cases hend
      · exact absurd (Option.some.inj (hend.symm.trans hslash')) hne.1
  have hname' : IsName name' := by
    refine ⟨?_, ?_, ?_, hslash⟩ <;> rintro rfl
    · cases hend'
    · exact hne.2.1 (Option.some.inj hend').symm
    · exact hne.2.1 (Option.some.inj hend').symm
  intro hsame
  obtain ⟨-, -, rfl⟩ := eq_of_normalize_eq hhead' hname' hhead hname hsame
  exact hne.2.2 (Option.some.inj (hend'.symm.trans hlast))

/-! ### The paths that are not free -/

/-- The files that resources name. -/
def files (rs : List Resource) : List Path := rs.filterMap fun r => r.file?.map String.toList

theorem mem_files : p ∈ files rs ↔ ∃ r ∈ rs, ∃ s, r.file? = some s ∧ s.toList = p := by
  simp [files, List.mem_filterMap]

/-- No path is given that is not free. -/
theorem Assignment.notMem_paths_placeAll {a a' : Assignment} {position : ℕ} {ms : List Meta}
    {taken : List Path} (h : placeAll scope stem position ms a = .ok a') (htaken : taken ⊆ a.taken)
    (ha : ∀ p ∈ a.paths, p ∉ taken) : ∀ p ∈ a'.paths, p ∉ taken := by
  induction ms generalizing position a with
  | nil => exact Except.ok.inj h ▸ ha
  | cons m ms ih =>
    unfold placeAll at h
    split at h
    · exact ih h htaken ha
    · obtain ⟨a₁, hplace, h⟩ := Result.ok_of_bind h
      refine ih h ?_ ?_
      · rw [taken_place hplace]
        exact List.subset_cons_of_subset _ htaken
      · rw [paths_place hplace]
        exact List.forall_mem_append.2 ⟨ha, List.forall_mem_singleton.2 fun hmem =>
          freePath_notMem _ _ (htaken hmem)⟩

/-- No path is given that a resource has already. -/
theorem notMem_files_of_assign (h : assign scope functionPath rs supply = .ok a) :
    ∀ p ∈ a.paths, p ∉ files rs := by
  obtain ⟨metas, hmetas, hplace⟩ := assign_eq_ok_iff.1 h
  have hfree := Assignment.notMem_paths_placeAll hplace (List.Subset.refl _)
    (fun p hp => absurd hp List.not_mem_nil)
  intro p hp hmem
  obtain ⟨r, hr, s, hs, rfl⟩ := mem_files.1 hmem
  obtain ⟨m, hm, hmeta⟩ := Result.exists_of_mem_left (Result.forall₂_of_mapM hmetas) hr
  rw [file?_of_getMeta hmeta] at hs
  exact hfree _ hp (List.mem_filterMap.2 ⟨m, hm, by rw [hs]; rfl⟩)

/-! ### The files in the end -/

theorem isNew_iff : IsNew r ↔ (∃ m, r.getMeta = .ok m) ∧ r.file? = none := by
  constructor
  · rintro ⟨m, hm, hpath⟩
    exact ⟨⟨m, hm⟩, (file?_of_getMeta hm).trans hpath⟩
  · rintro ⟨⟨m, hm⟩, hfile⟩
    exact ⟨m, hm, (file?_of_getMeta hm).symm.trans hfile⟩

/-- Resources with one site have the same annotations there. -/
theorem valueOn_eq_of_site_eq (hcoherent : Coherent (mapsOf rs)) (hr : r ∈ rs) (hr' : r' ∈ rs)
    (hsite : r.site = r'.site) (key : String) :
    r.valueOn annotationPath key = r'.valueOn annotationPath key := by
  obtain ⟨es, hend⟩ := MapEntries.exists_mem_trail annotationPath r.id r.entries
  obtain ⟨es', hend'⟩ := MapEntries.exists_mem_trail annotationPath r'.id r'.entries
  have hin := mem_mapsOf.2 ⟨r, hr, MapEntries.stop_mem_maps hend⟩
  have hin' := mem_mapsOf.2 ⟨r', hr', MapEntries.stop_mem_maps hend'⟩
  have hid : r.site.1 = r'.site.1 := congrArg Prod.fst hsite
  obtain ⟨-, rfl⟩ := Prod.mk.inj (hcoherent _ hin _ hin' hid)
  have hfield : r.valueOn annotationPath key = _ := (MapEntries.field_of_mem_trail hend key).symm
  have hfield' : r'.valueOn annotationPath key = _ := (MapEntries.field_of_mem_trail hend' key).symm
  have hroute : (MapEntries.site annotationPath r.id r.entries) =
      MapEntries.site annotationPath r'.id r'.entries := hsite
  rw [hfield, hfield', hroute]

theorem lookup_of_mem {κ α : Type} [BEq κ] [LawfulBEq κ] {l : List (κ × α)} {k : κ} {x : α}
    (hnodup : (l.map Prod.fst).Nodup) (hmem : (k, x) ∈ l) : l.lookup k = some x := by
  induction l with
  | nil => exact absurd hmem List.not_mem_nil
  | cons e l ih =>
    obtain ⟨hnotMem, hnodup⟩ := List.nodup_cons.1 hnodup
    rw [List.lookup_cons]
    obtain rfl | hmem := List.mem_cons.1 hmem
    · rw [beq_self_eq_true]
    · have hne : k ≠ e.1 := fun heq => hnotMem (heq ▸ List.mem_map_of_mem hmem)
      rw [beq_false_of_ne hne]
      exact ih hnodup hmem

/-- New resources are given their paths at sites of their own. -/
def OwnSites (rs : List Resource) : Prop :=
  rs.Pairwise fun r r' => IsNew r → IsNew r' → r.site ≠ r'.site

theorem OwnSites.ne_of_getElem? (hown : OwnSites rs) {i j : ℕ} (hi : rs[i]? = some r)
    (hj : rs[j]? = some r') (hne : i ≠ j) (hnew : IsNew r) (hnew' : IsNew r') : r.site ≠ r'.site := by
  obtain ⟨hlti, rfl⟩ := List.getElem?_eq_some_iff.1 hi
  obtain ⟨hltj, rfl⟩ := List.getElem?_eq_some_iff.1 hj
  obtain hlt | hlt := Nat.lt_or_gt_of_ne hne
  · exact List.pairwise_iff_getElem.1 hown i j hlti hltj hlt hnew hnew'
  · exact (List.pairwise_iff_getElem.1 hown j i hltj hlti hlt hnew' hnew).symm

theorem kept_writesText : Assignment.Kept fun a => ∀ e ∈ a.edits, e.change.WritesText where
  take _ h := h
  annotated := by
    intro a r e key value _ hkey hedit h
    exact List.forall_mem_append.2
      ⟨h, List.forall_mem_singleton.2 (writesText_annotationEdit hedit hkey)⟩

section

variable (h : assign scope functionPath rs supply = .ok a)

include h

/-- The metadata can still be read. -/
theorem exists_getMeta_assign (hr : r ∈ rs) : ∃ m, (r.editAll a.edits).getMeta = .ok m := by
  obtain ⟨metas, -, hplace⟩ := assign_eq_ok_iff.1 h
  have hwrites : ∀ e ∈ a.edits, e.change.WritesText :=
    Assignment.placeAll_induction kept_writesText hplace nofun
  exact exists_getMeta_editAll (exists_assign_iff.1 ⟨a, h⟩ r hr) hwrites

variable (hbound : BoundedBy supply rs) (hcoherent : Coherent (mapsOf rs))

include hbound hcoherent

theorem file?_assign (hr : r ∈ rs) : (r.editAll a.edits).file? =
    (Writings.valueAt (writings rs a.paths).reverse r.site a.edits
      (r.valueOn annotationPath pathKey)).visible? := by
  obtain ⟨-, -, htraced⟩ := writes_assign h (List.Subset.refl rs) hbound hcoherent
  rw [file?_eq (exists_getMeta_assign h hr), htraced.values r hr annotationPath List.suffix_rfl]
  rfl

/-- A new resource ends with a path that was given at its site. -/
theorem file?_given (hr : r ∈ rs) (hnew : IsNew r) : ∃ p ∈ a.paths,
    (writings rs a.paths).reverse.lookup r.site = some p ∧
      (r.editAll a.edits).file? = some (String.ofList p) := by
  obtain ⟨hcount, -⟩ := writes_assign h (List.Subset.refl rs) hbound hcoherent
  obtain ⟨p, hp, hlookup⟩ := exists_lookup hcount hr hnew
  refine ⟨p, hp, hlookup, ?_⟩
  have hne : String.ofList p ≠ "" := fun heq => (distinct_assign h).named p hp (by
    rw [← String.toList_ofList (l := p), heq]
    rfl)
  rw [file?_assign h hbound hcoherent hr, Writings.valueAt_of_some hlookup]
  exact Option.filter_eq_some_iff.2 ⟨rfl, by simpa using hne⟩

/-- All others keep their files, but for texts that end with a bracket. -/
theorem file?_kept (hr : r ∈ rs) (hfile : r.file? = some s) :
    (r.editAll a.edits).file? = some s ∨
      Value.Bracketed s ∧ ∃ s', (r.editAll a.edits).file? = some s' ∧ Value.Bracketed s' := by
  have hvisible := file?_eq (exists_assign_iff.1 ⟨a, h⟩ r hr)
  have hnone : (writings rs a.paths).reverse.lookup r.site = none := by
    rw [Option.eq_none_iff_forall_ne_some]
    intro p hlookup
    obtain ⟨-, r', hr', hnew, hsite⟩ := mem_writings (List.mem_reverse.1 (mem_of_lookup hlookup))
    obtain ⟨hmeta', hnofile⟩ := isNew_iff.1 hnew
    -- a new resource would have the same path there
    rw [valueOn_eq_of_site_eq hcoherent hr hr' hsite, ← file?_eq hmeta', hnofile, hfile] at hvisible
    cases hvisible
  rw [file?_assign h hbound hcoherent hr, Writings.valueAt_of_none hnone]
  rw [hfile] at hvisible
  obtain heq | ⟨⟨t, ht, hend⟩, hafter⟩ := Value.visible?_editAll (r.valueOn annotationPath pathKey) a.edits
  · exact .inl (heq.trans hvisible.symm)
  · obtain rfl := Option.some.inj (hvisible.trans ht)
    exact .inr ⟨hend, hafter⟩

theorem map_snd_writings : (writings rs a.paths).map Prod.snd = a.paths := by
  obtain ⟨hcount, -⟩ := writes_assign h (List.Subset.refl rs) hbound hcoherent
  exact List.map_snd_zip (by rw [List.length_map, hcount])

/-- A path is found at one site only. -/
theorem site_eq_of_lookup {site site' : ObjectId × List String}
    (hlookup : (writings rs a.paths).reverse.lookup site = some p)
    (hlookup' : (writings rs a.paths).reverse.lookup site' = some p) : site = site' := by
  have hnodup : ((writings rs a.paths).map Prod.snd).Nodup := by
    rw [map_snd_writings h hbound hcoherent]
    exact (distinct_assign h).nodup
  have hpair := List.inj_on_of_nodup_map hnodup (List.mem_reverse.1 (mem_of_lookup hlookup))
    (List.mem_reverse.1 (mem_of_lookup hlookup')) rfl
  exact congrArg Prod.fst hpair

/-- With sites of their own, every given path is that of a new resource in the end. -/
theorem exists_of_given (hown : OwnSites rs) (hp : p ∈ a.paths) :
    ∃ (i : ℕ) (r : Resource), rs[i]? = some r ∧ IsNew r ∧
      (r.editAll a.edits).file? = some (String.ofList p) := by
  have hmap := map_snd_writings h hbound hcoherent
  obtain ⟨⟨site, p'⟩, hmem, rfl⟩ := List.mem_map.1 (hmap.symm ▸ hp)
  obtain ⟨-, r, hr, hnew, rfl⟩ := mem_writings hmem
  obtain ⟨i, hi⟩ := List.mem_iff_getElem?.1 hr
  have hkeys : ((writings rs a.paths).map Prod.fst).Nodup := by
    obtain ⟨hcount, -⟩ := writes_assign h (List.Subset.refl rs) hbound hcoherent
    rw [writings, List.map_fst_zip (by rw [List.length_map, hcount]), List.Nodup, List.pairwise_map]
    refine (List.Pairwise.filter _ hown).imp_of_mem fun hr hr' hne => ?_
    exact hne (lacksPath_iff.1 (List.mem_filter.1 hr).2) (lacksPath_iff.1 (List.mem_filter.1 hr').2)
  have hlookup : (writings rs a.paths).reverse.lookup r.site = some p' :=
    lookup_of_mem (by rwa [List.map_reverse, List.nodup_reverse]) (List.mem_reverse.2 hmem)
  obtain ⟨p'', -, hlookup', hfile⟩ := file?_given h hbound hcoherent hr hnew
  obtain rfl := Option.some.inj (hlookup.symm.trans hlookup')
  exact ⟨i, r, hi, hnew, hfile⟩

end

/-! ### Alone in a file -/

/-- The resource at a position names a file that no other resource names, whatever the spelling. -/
def AloneAt (all : List Resource) (i : ℕ) : Prop :=
  ∃ r s, all[i]? = some r ∧ r.file? = some s ∧ ∀ j r' s', j ≠ i → all[j]? = some r' →
    r'.file? = some s' → normalize s'.toList ≠ normalize s.toList

/-- Every resource that was new is alone in its file. -/
def AloneInFiles (emitted all : List Resource) : Prop :=
  ∀ i r, emitted[i]? = some r → IsNew r → AloneAt all i

/-- No given path is another spelling of a given path or of an old one. -/
def OneSpelling (given old : List Path) : Prop :=
  ∀ p ∈ given, ∀ p' ∈ given ++ old, normalize p' = normalize p → p' = p

section

variable (h : assign scope functionPath rs supply = .ok a) (hbound : BoundedBy supply rs)
  (hcoherent : Coherent (mapsOf rs)) {i j : ℕ}

include h

theorem getElem?_assign (hi : rs[i]? = some r) (outside : List Resource) :
    (a.resources ++ outside)[i]? = some (r.editAll a.edits) := by
  have hmap : a.resources[i]? = some (r.editAll a.edits) := by
    rw [assign_resources h, List.getElem?_map, hi]
    rfl
  rw [List.getElem?_append_left (List.getElem?_eq_some_iff.1 hmap).1, hmap]

theorem getElem?_outside (hj : outside[j]? = some q) :
    (a.resources ++ outside)[rs.length + j]? = some q := by
  have hlength : a.resources.length = rs.length := by rw [assign_resources h, List.length_map]
  rw [List.getElem?_append_right (by omega), hlength, Nat.add_sub_cancel_left, hj]

/-- What stands at a position of the collection. -/
theorem getElem?_cases (hj : (a.resources ++ outside)[j]? = some q) :
    (∃ r, rs[j]? = some r ∧ q = r.editAll a.edits) ∨ q ∈ outside := by
  rw [List.getElem?_append] at hj
  split at hj
  · rw [assign_resources h, List.getElem?_map] at hj
    obtain ⟨r, hr, heq⟩ := Option.map_eq_some_iff.1 hj
    exact .inl ⟨r, hr, heq.symm⟩
  · exact .inr (List.mem_of_getElem? hj)

theorem AloneInFiles.normalize_ne {s' : String}
    (halone : AloneInFiles rs (a.resources ++ outside)) (hi : rs[i]? = some r) (hnew : IsNew r)
    (hfile : (r.editAll a.edits).file? = some s) (hne : j ≠ i)
    (hj : (a.resources ++ outside)[j]? = some q) (hfile' : q.file? = some s') :
    normalize s'.toList ≠ normalize s.toList := by
  obtain ⟨r', t, hr', ht, hother⟩ := halone i r hi hnew
  obtain rfl := Option.some.inj ((getElem?_assign h hi outside).symm.trans hr')
  obtain rfl := Option.some.inj (hfile.symm.trans ht)
  exact hother j q s' hne hj hfile'

include hbound hcoherent

theorem AloneInFiles.ownSites (halone : AloneInFiles rs (a.resources ++ outside)) : OwnSites rs := by
  refine List.pairwise_iff_getElem.2 fun i j hi hj hlt hnew hnew' hsite => ?_
  have hr := List.getElem?_eq_getElem hi
  have hr' := List.getElem?_eq_getElem hj
  obtain ⟨p, -, hlookup, hfile⟩ := file?_given h hbound hcoherent (List.getElem_mem hi) hnew
  obtain ⟨p', -, hlookup', hfile'⟩ := file?_given h hbound hcoherent (List.getElem_mem hj) hnew'
  obtain rfl := Option.some.inj ((hsite ▸ hlookup).symm.trans hlookup')
  exact halone.normalize_ne h hr hnew hfile hlt.ne' (getElem?_assign h hr' outside) hfile' rfl

theorem AloneInFiles.oneSpelling (halone : AloneInFiles rs (a.resources ++ outside)) :
    OneSpelling a.paths (files rs) := by
  have hown := halone.ownSites h hbound hcoherent
  intro p hp p' hp' hsame
  obtain ⟨i, r, hi, hnew, hfile⟩ := exists_of_given h hbound hcoherent hown hp
  obtain hgiven | hold := List.mem_append.1 hp'
  · obtain ⟨j, r', hj, -, hfile'⟩ := exists_of_given h hbound hcoherent hown hgiven
    by_cases hij : j = i
    · subst hij
      obtain rfl := Option.some.inj (hi.symm.trans hj)
      exact String.ofList_injective (Option.some.inj (hfile'.symm.trans hfile))
    · have hne := halone.normalize_ne h hi hnew hfile hij (getElem?_assign h hj outside) hfile'
      rw [String.toList_ofList, String.toList_ofList] at hne
      exact absurd hsame hne
  · obtain ⟨r', hr', s', hs', rfl⟩ := mem_files.1 hold
    obtain ⟨j, hj⟩ := List.mem_iff_getElem?.1 hr'
    obtain hkept | ⟨hend, -⟩ := file?_kept h hbound hcoherent hr' hs'
    · have hij : j ≠ i := by
        rintro rfl
        obtain rfl := Option.some.inj (hi.symm.trans hj)
        exact absurd ((isNew_iff.1 hnew).2.symm.trans hs') (by simp)
      have hne := halone.normalize_ne h hi hnew hfile hij (getElem?_assign h hj outside) hkept
      rw [String.toList_ofList] at hne
      exact absurd hsame hne
    · exact absurd hsame ((isDocument_paths h p hp).normalize_ne hend)

/-- **When new resources are alone in their files**: they are given their paths at sites of their
own, the output has no other spelling of a given path, and nothing that follows has one either. -/
theorem aloneInFiles_iff : AloneInFiles rs (a.resources ++ outside) ↔
    OwnSites rs ∧ OneSpelling a.paths (files rs) ∧
      ∀ p ∈ a.paths, ∀ p' ∈ files outside, normalize p' ≠ normalize p := by
  constructor
  · intro halone
    have hown := halone.ownSites h hbound hcoherent
    refine ⟨hown, halone.oneSpelling h hbound hcoherent, fun p hp p' hp' => ?_⟩
    obtain ⟨i, r, hi, hnew, hfile⟩ := exists_of_given h hbound hcoherent hown hp
    obtain ⟨q, hq, s', hs', rfl⟩ := mem_files.1 hp'
    obtain ⟨j, hj⟩ := List.mem_iff_getElem?.1 hq
    have hlt := (List.getElem?_eq_some_iff.1 hi).1
    have hne := halone.normalize_ne h hi hnew hfile (by omega) (getElem?_outside h hj) hs'
    rwa [String.toList_ofList] at hne
  · rintro ⟨hown, hone, houtside⟩ i r hi hnew
    obtain ⟨p, hp, hlookup, hfile⟩ := file?_given h hbound hcoherent (List.mem_of_getElem? hi) hnew
    refine ⟨_, _, getElem?_assign h hi outside, hfile, fun j q s' hne hj hfile' hsame => ?_⟩
    rw [String.toList_ofList] at hsame
    obtain ⟨r', hr', rfl⟩ | hq := getElem?_cases h hj
    · have hmem := List.mem_of_getElem? hr'
      by_cases hnew' : IsNew r'
      · obtain ⟨p', hp', hlookup', hgiven⟩ := file?_given h hbound hcoherent hmem hnew'
        obtain rfl := Option.some.inj (hfile'.symm.trans hgiven)
        rw [String.toList_ofList] at hsame
        obtain rfl := hone p hp p' (List.mem_append_left _ hp') hsame
        -- one path of both, so one site
        exact hown.ne_of_getElem? hi hr' hne.symm hnew hnew'
          (site_eq_of_lookup h hbound hcoherent hlookup hlookup')
      · have hreadable := exists_assign_iff.1 ⟨a, h⟩ r' hmem
        have hhas : r'.file? ≠ none := fun hnone => hnew' (isNew_iff.2 ⟨hreadable, hnone⟩)
        obtain ⟨t, ht⟩ := Option.ne_none_iff_exists'.1 hhas
        obtain hkept | ⟨-, t', ht', hend⟩ := file?_kept h hbound hcoherent hmem ht
        · obtain rfl := Option.some.inj (hfile'.symm.trans hkept)
          have hold : s'.toList ∈ files rs := mem_files.2 ⟨r', hmem, s', ht, rfl⟩
          have heq := hone p hp _ (List.mem_append_right _ hold) hsame
          exact notMem_files_of_assign h p hp (heq ▸ hold)
        · obtain rfl := Option.some.inj (hfile'.symm.trans ht')
          exact (isDocument_paths h p hp).normalize_ne hend hsame
    · exact houtside p hp _ (mem_files.2 ⟨q, hq, s', hfile', rfl⟩) hsame

end

end ScopedFn.Provenance
