import Mathlib.Data.List.Nodup
import ScopedFn.Proofs.Provenance.Default
import ScopedFn.Proofs.Value.Contents

/-!
# Resources that have a place

What provenance gives to a resource is a matter of contents, whichever maps say it. A resource that
has been given a path keeps it, so resources that have gone through an assignment go through a second
one unchanged.

* `Resource.contents_annotatedWith` : an annotated resource says what the resource and the
  annotation say;
* `Provenance.Settles` : what becomes of a resource, whichever objects it is made of;
* `Provenance.exists_assign_of_hasPath` : nothing is done to resources that have a path.
-/

set_option autoImplicit false

namespace ScopedFn

namespace MapEntries

theorem contentsOfEntries_put (key : String) (v : Value) (es : MapEntries) :
    Value.contentsOfEntries (Entries.put Atom.same (.text key) v es) =
      Entries.put Atom.same (.text key) v.contents (Value.contentsOfEntries es) := by
  induction es with
  | nil => rfl
  | cons p es ih =>
    obtain ⟨k, w⟩ := p
    rw [Value.contentsOfEntries, Entries.put, Entries.put, same_text_contents]
    split
    · rfl
    · rw [Value.contentsOfEntries, ih]

theorem mapAt?_contents (es : MapEntries) (part : String) :
    mapAt? (Value.contentsOfEntries es) part =
      (mapAt? es part).map fun m => (noObject, Value.contentsOfEntries m.2) := by
  unfold mapAt?
  rw [get_contents]
  cases get es part <;> rfl

/-- Setting a key at the end of a path is a matter of contents. -/
theorem contents_putIn {es es' : MapEntries} (fresh fresh' : ObjectId) (key : String) (v : Value)
    (parts : List String) (h : Value.contentsOfEntries es = Value.contentsOfEntries es') :
    Value.contentsOfEntries (putIn fresh key v parts es) =
      Value.contentsOfEntries (putIn fresh' key v parts es') := by
  induction parts generalizing fresh fresh' es es' with
  | nil => rw [putIn, putIn, contentsOfEntries_put, contentsOfEntries_put, h]
  | cons part parts ih =>
    have hat : (mapAt? es part).map (fun m => (noObject, Value.contentsOfEntries m.2)) =
        (mapAt? es' part).map fun m => (noObject, Value.contentsOfEntries m.2) := by
      rw [← mapAt?_contents, h, mapAt?_contents]
    have hinner : Value.contentsOfEntries ((mapAt? es part).getD (fresh, [])).2 =
        Value.contentsOfEntries ((mapAt? es' part).getD (fresh', [])).2 := by
      cases hes : mapAt? es part with
      | none =>
        rw [hes, Option.map_none, eq_comm, Option.map_eq_none_iff] at hat
        rw [hat]
        rfl
      | some m =>
        rw [hes, Option.map_some, eq_comm, Option.map_eq_some_iff] at hat
        obtain ⟨m', hes', heq⟩ := hat
        rw [hes']
        exact (Prod.mk.inj heq).2.symm
    rw [putIn, putIn, contentsOfEntries_put, contentsOfEntries_put, h, Value.contents, Value.contents,
      ih (fresh + 1) (fresh' + 1) hinner]

end MapEntries

variable {r r' : Resource}

/-- Setting an annotation is a matter of contents. -/
theorem Resource.contents_annotatedWith (fresh fresh' : ObjectId) (key value : String)
    (h : r.contents = r'.contents) :
    (r.annotatedWith fresh key value).contents = (r'.annotatedWith fresh' key value).contents :=
  congrArg (Resource.mk noObject) (MapEntries.contents_putIn fresh fresh' key (.text value)
    annotationPath (congrArg Resource.entries h))

namespace Provenance

open Resource

variable {m : Meta} {path : Path} {paths : List Path} {lo supply : Supply}
  {rs rs' qs : List Resource} {scope stem : Path}

theorem contents_located (fresh fresh' : ObjectId) (m : Meta) (path : Path)
    (h : r.contents = r'.contents) :
    (located fresh m path r).contents = (located fresh' m path r').contents := by
  unfold located
  dsimp only
  split
  · exact contents_annotatedWith _ _ _ _ (contents_annotatedWith _ _ _ _ h)
  · exact contents_annotatedWith _ _ _ _ h

/-- The resource has a path. -/
def HasPath (r : Resource) : Prop := ∃ m, r.getMeta = .ok m ∧ m.path?.isSome

theorem HasPath.of_contents (h : HasPath r) (hsame : r'.contents = r.contents) : HasPath r' := by
  obtain ⟨m, hm, hpath⟩ := h
  exact ⟨m, by rw [← getMeta_contents, hsame, getMeta_contents, hm], hpath⟩

theorem hasPath_located (hmeta : r.getMeta = .ok m) (hne : path ≠ []) (fresh : ObjectId) :
    HasPath (located fresh m path r) := by
  obtain ⟨m', hm', hpath⟩ := Option.bind_eq_some_iff.1 (pathOf?_located hmeta fresh path)
  refine ⟨m', Result.ok_of_toOption hm', ?_⟩
  rw [Meta.path?, hpath, Option.filter_some_pos (by simpa using hne), Option.isSome_some]

/-- What becomes of a resource, whichever objects it is made of: it stays as it is if it has a path,
and otherwise is given one, and an index unless it has one. -/
inductive Settles (r r' : Resource) : Prop
  /-- It has a path. -/
  | kept (hpath : HasPath r) (hsame : r'.contents = r.contents)
  /-- It is given a path. -/
  | given {m : Meta} {path : Path} (hmeta : r.getMeta = .ok m) (hnone : m.path? = none)
      (hne : path ≠ []) (hsame : r'.contents = (located noObject m path r).contents)

/-- What has become of a resource has a path. -/
theorem Settles.hasPath (h : Settles r r') : HasPath r' := by
  cases h with
  | kept hpath hsame => exact hpath.of_contents hsame
  | given hmeta hnone hne hsame => exact (hasPath_located hmeta hne noObject).of_contents hsame

/-- What has a path stays as it is. -/
theorem Settles.contents_eq (h : Settles r r') (hpath : HasPath r) : r'.contents = r.contents := by
  cases h with
  | kept _ hsame => exact hsame
  | given hmeta hnone _ _ =>
    obtain ⟨m, hm, hsome⟩ := hpath
    obtain rfl := Except.ok.inj (hm.symm.trans hmeta)
    rw [hnone] at hsome
    cases hsome

/-- Resources that have a path stay as they are. -/
theorem contents_of_settles (h : List.Forall₂ Settles rs rs') (hpath : ∀ r ∈ rs, HasPath r) :
    rs'.map Resource.contents = rs.map Resource.contents := by
  induction h with
  | nil => rfl
  | cons hr _ ih =>
    obtain ⟨hhead, htail⟩ := List.forall_mem_cons.1 hpath
    rw [List.map_cons, List.map_cons, hr.contents_eq hhead, ih htail]

/-- What becomes of resources has paths. -/
theorem hasPath_of_settles (h : List.Forall₂ Settles rs rs') : ∀ r ∈ rs', HasPath r := by
  induction h with
  | nil => exact nofun
  | cons hr _ ih => exact List.forall_mem_cons.2 ⟨hr.hasPath, ih⟩

/-! ### Assignments -/

/-- Where every map stands at one place, none is shared. -/
theorem unshared_of_nodup (h : (objectsOf rs).Nodup) : Unshared rs := fun r hr _ =>
  List.count_eq_one_of_mem h (List.mem_flatMap.2 ⟨r, hr, r.place_mem_objects⟩)

/-- What an assignment does to resources, it does to all that say the same. -/
theorem Defaulted.settles (h : Defaulted lo rs paths rs') (hnamed : ∀ p ∈ paths, p ≠ [])
    (hsame : rs.map Resource.contents = qs.map Resource.contents) : List.Forall₂ Settles qs rs' := by
  induction h generalizing qs with
  | nil =>
    obtain rfl := List.map_eq_nil_iff.1 hsame.symm
    exact .nil
  | @kept r m rs paths rs' hmeta hpath hrest ih =>
    obtain ⟨q, qs, rfl, hq, hqs⟩ := List.map_eq_cons_iff.1 hsame.symm
    have hhas : HasPath q := HasPath.of_contents ⟨m, hmeta, hpath⟩ hq
    exact .cons (.kept hhas hq.symm) (ih hnamed hqs.symm)
  | @given r m fresh path rs paths rs' hmeta hpath hfresh hrest ih =>
    obtain ⟨q, qs, rfl, hq, hqs⟩ := List.map_eq_cons_iff.1 hsame.symm
    obtain ⟨hne, hnamed⟩ := List.forall_mem_cons.1 hnamed
    have hqmeta : q.getMeta = .ok m := by rw [← getMeta_contents, hq, getMeta_contents, hmeta]
    exact .cons (.given hqmeta hpath hne (contents_located fresh noObject m path hq.symm))
      (ih hnamed hqs.symm)

/-- Nothing is placed if everything has a path. -/
theorem Assignment.placeAll_of_hasPath {ms : List Meta} {position : ℕ} {a : Assignment}
    (hmetas : List.Forall₂ (fun r m => r.getMeta = .ok m) rs ms) (h : ∀ r ∈ rs, HasPath r) :
    placeAll scope stem position ms a = .ok a := by
  induction hmetas generalizing position with
  | nil => rfl
  | @cons r m rs ms hmeta hmetas ih =>
    obtain ⟨⟨m', hm', hpath⟩, hrs⟩ := List.forall_mem_cons.1 h
    obtain rfl := Except.ok.inj (hmeta.symm.trans hm')
    rw [placeAll, if_pos hpath]
    exact ih hrs

/-- Nothing is written if everything has a path. -/
theorem assign_of_hasPath (scope : Path) (functionPath : Option String) (supply : Supply)
    (h : ∀ r ∈ rs, HasPath r) :
    ∃ metas, assign scope functionPath rs supply = .ok (.start rs metas supply) := by
  obtain ⟨metas, hmetas⟩ := Result.mapM_ok_iff.2 fun r hr => (h r hr).imp fun m hm => hm.1
  exact ⟨metas, assign_eq_ok_iff.2
    ⟨metas, hmetas, Assignment.placeAll_of_hasPath (Result.forall₂_of_mapM hmetas) h⟩⟩

/-- **Nothing is done to resources that have a path.** -/
theorem exists_assign_of_hasPath (scope : Path) (functionPath : Option String) (supply : Supply)
    (h : ∀ r ∈ rs, HasPath r) :
    ∃ a, assign scope functionPath rs supply = .ok a ∧ a.resources = rs := by
  obtain ⟨metas, hassign⟩ := assign_of_hasPath scope functionPath supply h
  exact ⟨_, hassign, rfl⟩

end Provenance

end ScopedFn
