import ScopedFn.Proofs.Provenance.Lasting
import ScopedFn.Proofs.Resource.InPlace

/-!
# Provenance assigned in place

Resources are placed one after the other, and each annotation is written into maps that the resources
hold and may share, so that the next one is set in what has become of its resource. Before anything is
written all metadata is read. This is the only step that can fail: behind it every annotation can be
set, whatever has been written so far.

* `Provenance.assignNow` : the changes by which provenance is assigned;
* `Provenance.exec_assignNow` : they are carried out as `Provenance.assign` says;
* `Provenance.AllOrNothing` : either some metadata cannot be read, which is reported, and nothing is
  changed, or all resources have a path in the end, and assigning provenance once more does nothing;
* `Provenance.allOrNothing_iff` : the resources for which it is so.
-/

set_option autoImplicit false

namespace ScopedFn

namespace Provenance

open Resource InPlace

variable {scope stem path : Path} {functionPath : Option String} {lo supply : Supply}
  {rs done todo : List Resource} {r : Resource} {m : Meta} {ms : List Meta} {key value : String}
  {position : ℕ} {a a' : Assignment} {p : Progress}

/-- Sets an annotation of what has become of a resource. -/
def setNow (key value : String) (r : Resource) : InPlace MetaFault Unit := do
  (r.editAll (← get).edits).annotateNow key value

/-- Gives a resource a path, and the index zero unless it has an index. -/
def provide (r : Resource) (m : Meta) (path : Path) : InPlace MetaFault Unit := do
  setNow pathKey (String.ofList path) r
  if (m.annotations.get? indexKey).isNone then setNow indexKey "0" r else return ()

/-- Gives all resources without a path one that is not taken. -/
def provideAll (scope stem : Path) : List Resource → List Meta → List Path →
    InPlace MetaFault (List Path)
  | r :: rs, m :: ms, taken =>
    if m.path?.isSome then provideAll scope stem rs ms taken
    else do
      let path := freePath taken (defaultPath scope m stem)
      provide r m path
      let paths ← provideAll scope stem rs ms (path :: taken)
      return path :: paths
  | _, _, _ => return []

/-- Assigns provenance in place: all metadata is read first. -/
def assignNow (scope : Path) (functionPath : Option String) (rs : List Resource) :
    InPlace (OrNoText MetaFault) (List Path) :=
  match rs.mapM Resource.getMeta with
  | .error cause => throw cause
  | .ok metas => (provideAll scope (functionStem functionPath) rs metas
      (metas.filterMap fun m => m.path?.map String.toList)).adapt .fault

/-- The changes in place have come as far as the assignment. -/
structure Mirrors (lo : Supply) (rs : List Resource) (p : Progress) (a : Assignment) : Prop where
  supply : p.supply = a.supply
  le : lo ≤ a.supply
  resources : a.resources = rs.map (·.editAll a.edits)
  /-- What is older than the changes is changed alike. -/
  same : ∀ v : Value, v.bound ≤ lo → v.editAll p.edits = v.editAll a.edits
  bound : ∀ v : Value, v.bound ≤ lo → (v.editAll a.edits).bound ≤ a.supply

theorem Mirrors.annotate (h : Mirrors lo rs p a) (hrs : ∀ r ∈ rs, r.toValue.bound ≤ lo)
    (hr : rs[position]? = some r) (ha : a.annotate position key value = .ok a') :
    ∃ p', (setNow key value r).exec p = (.ok (), p') ∧ Mirrors lo rs p' a' := by
  have hat : a.resources[position]? = some (r.editAll a.edits) := by
    rw [h.resources, List.getElem?_map, hr]
    rfl
  have hbound := hrs r (List.mem_of_getElem? hr)
  have hnow : r.editAll p.edits = r.editAll a.edits := toValue_injective (by
    rw [toValue_editAll, toValue_editAll, h.same _ hbound])
  obtain ⟨e, he, rfl⟩ := Assignment.annotate_eq hat ha
  have hbounded : e.change.Bounded (a.supply + 2) := bounded_annotationEdit he
    (Nat.lt_add_of_pos_right (by decide)) (Nat.lt_succ_self _)
  rw [← hnow, ← h.supply] at he
  obtain ⟨steps, hexec, hsteps⟩ := exec_annotateNow he
  have hsupply : a.supply ≤ a.supply + 2 := Nat.le_add_right _ _
  refine ⟨_, hexec, ?_, le_trans h.le hsupply, ?_, fun v hv => ?_, fun v hv => ?_⟩
  · rw [h.supply]
    rfl
  · show a.resources.map (·.edit e) = _
    rw [h.resources, List.map_map]
    exact List.map_congr_left fun r _ => (Resource.editAll_append a.edits [e] r).symm
  · show v.editAll (p.edits ++ steps) = v.editAll (a.edits ++ [e])
    rw [Value.editAll_append, Value.editAll_append, h.same v hv]
    exact hsteps _ (h.supply ▸ h.bound v hv)
  · show (v.editAll (a.edits ++ [e])).bound ≤ a.supply + 2
    rw [Value.editAll_append]
    exact Value.bound_edit_le (le_trans (h.bound v hv) hsupply) hbounded

theorem Mirrors.place (h : Mirrors lo rs p a) (hrs : ∀ r ∈ rs, r.toValue.bound ≤ lo)
    (hr : rs[position]? = some r) (ha : a.place position m path = .ok a') :
    ∃ p', (provide r m (freePath a.taken path)).exec p = (.ok (), p') ∧ Mirrors lo rs p' a' := by
  have htake : Mirrors lo rs p (a.take (freePath a.taken path)) :=
    ⟨h.supply, h.le, h.resources, h.same, h.bound⟩
  rw [Assignment.place_eq] at ha
  obtain ⟨a₁, hpath, ha⟩ := Result.ok_of_bind ha
  obtain ⟨p₁, hexec, h₁⟩ := htake.annotate hrs hr hpath
  rw [provide, exec_bind_ok hexec]
  split at ha
  · rename_i hindex
    rw [if_pos hindex]
    exact h₁.annotate hrs hr ha
  · rename_i hindex
    rw [if_neg hindex]
    exact ⟨p₁, rfl, Except.ok.inj ha ▸ h₁⟩

/-- All resources are placed in place as the assignment places them. -/
theorem Mirrors.placeAll (h : Mirrors lo (done ++ todo) p a)
    (hrs : ∀ r ∈ done ++ todo, r.toValue.bound ≤ lo) (hlength : todo.length = ms.length)
    (ha : Assignment.placeAll scope stem done.length ms a = .ok a') :
    ∃ paths p', (provideAll scope stem todo ms a.taken).exec p = (.ok paths, p') ∧
      a'.paths = a.paths ++ paths ∧ Mirrors lo (done ++ todo) p' a' := by
  induction ms generalizing done todo a p with
  | nil =>
    obtain rfl := List.length_eq_zero_iff.1 hlength
    obtain rfl := Except.ok.inj ha
    exact ⟨[], p, rfl, (List.append_nil _).symm, h⟩
  | cons m ms ih =>
    obtain ⟨r, todo, rfl⟩ := List.exists_cons_of_length_eq_add_one hlength
    have hmove : done ++ r :: todo = (done ++ [r]) ++ todo := by simp
    have hposition : done.length + 1 = (done ++ [r]).length := by simp
    unfold Assignment.placeAll at ha
    rw [provideAll]
    split at ha
    · rename_i hpath
      rw [if_pos hpath]
      rw [hmove] at h hrs ⊢
      rw [hposition] at ha
      exact ih h hrs (Nat.succ.inj hlength) ha
    · rename_i hpath
      rw [if_neg hpath]
      obtain ⟨a₁, hplace, ha⟩ := Result.ok_of_bind ha
      obtain ⟨p₁, hexec, h₁⟩ := h.place (r := r) hrs (by simp) hplace
      rw [hmove] at h₁ hrs ⊢
      rw [hposition] at ha
      obtain ⟨paths, p', hrest, hpaths, h'⟩ := ih h₁ hrs (Nat.succ.inj hlength) ha
      refine ⟨freePath a.taken (defaultPath scope m stem) :: paths, p', ?_, ?_, h'⟩
      · rw [Assignment.taken_place hplace] at hrest
        rw [exec_bind_ok hexec, exec_bind_ok hrest]
        rfl
      · rw [hpaths, Assignment.paths_place hplace, List.append_assoc, List.singleton_append]

/-! ### The whole assignment -/

/-- **Metadata that cannot be read** is found before anything is changed. -/
theorem exec_assignNow_error {cause : OrNoText MetaFault}
    (h : assign scope functionPath rs supply = .error cause) (p : Progress) :
    (assignNow scope functionPath rs).exec p = (.error cause, p) := by
  cases hmetas : rs.mapM Resource.getMeta with
  | error cause' =>
    rw [assign, hmetas] at h
    obtain rfl := Except.error.inj h
    rw [assignNow, hmetas]
    rfl
  | ok metas =>
    obtain ⟨a, ha⟩ := exists_assign_iff.2 (Result.mapM_ok_iff.1 ⟨metas, hmetas⟩)
    cases h.symm.trans ha

/-- **Provenance is assigned in place** as the assignment says, to all that is older than the maps
that are made. -/
theorem exec_assignNow (hrs : ∀ r ∈ rs, r.toValue.bound ≤ supply)
    (h : assign scope functionPath rs supply = .ok a) :
    ∃ p, (assignNow scope functionPath rs).exec ⟨supply, []⟩ = (.ok a.paths, p) ∧
      Mirrors supply rs p a := by
  obtain ⟨metas, hmetas, hplace⟩ := assign_eq_ok_iff.1 h
  have hstart : Mirrors supply ([] ++ rs) ⟨supply, []⟩ (.start rs metas supply) :=
    ⟨rfl, le_rfl, (List.map_id rs).symm, fun v _ => rfl, fun v hv => hv⟩
  obtain ⟨paths, p, hexec, hpaths, hp⟩ :=
    hstart.placeAll hrs (Result.forall₂_of_mapM hmetas).length_eq hplace
  refine ⟨p, ?_, hp⟩
  rw [assignNow, hmetas, hpaths]
  exact congrArg (fun end' => (Except.mapError OrNoText.fault end'.1, end'.2)) hexec

/-- Nothing is provided if everything has a path. -/
theorem provideAll_of_hasPath (hmetas : List.Forall₂ (fun r m => r.getMeta = .ok m) rs ms)
    (h : ∀ r ∈ rs, HasPath r) (taken : List Path) : provideAll scope stem rs ms taken = return [] := by
  induction hmetas with
  | nil => rfl
  | @cons r m rs ms hmeta hmetas ih =>
    obtain ⟨⟨m', hm', hpath⟩, hrs⟩ := List.forall_mem_cons.1 h
    obtain rfl := Except.ok.inj (hmeta.symm.trans hm')
    rw [provideAll, if_pos hpath]
    exact ih hrs

/-- Assigning provenance does nothing to resources that have a path. -/
theorem exec_assignNow_of_hasPath (h : ∀ r ∈ rs, HasPath r) (scope : Path)
    (functionPath : Option String) (p : Progress) :
    (assignNow scope functionPath rs).exec p = (.ok [], p) := by
  obtain ⟨metas, hmetas⟩ := Result.mapM_ok_iff.2 fun r hr => (h r hr).imp fun m hm => hm.1
  rw [assignNow, hmetas]
  dsimp only
  rw [provideAll_of_hasPath (Result.forall₂_of_mapM hmetas) h]
  rfl

/-- What an assignment is to do: everything or nothing. -/
structure AllOrNothing (scope : Path) (functionPath : Option String) (rs : List Resource)
    (supply : Supply) : Prop where
  /-- A fault of metadata is reported iff some metadata cannot be read. -/
  reported : (∃ fault, assign scope functionPath rs supply = .error (.fault fault)) ↔
    ∃ r ∈ rs, ∃ cause, r.getMeta = .error cause
  /-- If it fails nothing has been changed. -/
  unchanged : ∀ cause, assign scope functionPath rs supply = .error cause →
    (assignNow scope functionPath rs).exec ⟨supply, []⟩ = (.error cause, ⟨supply, []⟩)
  /-- If all metadata can be read it succeeds. Every resource has a path in the end, whatever maps
  the resources share, and another assignment, below any scope and for any function, gives no path
  and changes nothing. -/
  placed : (∀ r ∈ rs, ∃ m, r.getMeta = .ok m) → ∃ a, assign scope functionPath rs supply = .ok a ∧
    (∃ p, (assignNow scope functionPath rs).exec ⟨supply, []⟩ = (.ok a.paths, p) ∧
      rs.map (·.editAll p.edits) = a.resources) ∧
    (∀ r ∈ a.resources, HasPath r) ∧
    ∀ scope' functionPath' supply',
      (assignNow scope' functionPath' a.resources).exec ⟨supply', []⟩ = (.ok [], ⟨supply', []⟩) ∧
      ∃ taken, assign scope' functionPath' a.resources supply' =
        .ok ⟨a.resources, [], [], taken, supply'⟩

/-- **All or nothing.** An assignment does everything or nothing, unless the first resource whose
metadata cannot be read is one with a part that is given as no text. -/
theorem allOrNothing_iff (scope : Path) (functionPath : Option String)
    (hrs : ∀ r ∈ rs, r.toValue.bound ≤ supply) :
    AllOrNothing scope functionPath rs supply ↔
      ¬∃ position cause, IsFirstUnreadable rs position (.noText cause) := by
  constructor
  · rintro h ⟨position, cause, hfirst⟩
    obtain ⟨r, hr, hmeta⟩ := hfirst.1
    obtain ⟨fault, hfault⟩ := h.reported.2 ⟨r, List.mem_of_getElem? hr, _, hmeta⟩
    have hnone : assign scope functionPath rs supply = .error (.noText cause) :=
      assign_eq_error_iff.2 ⟨position, hfirst⟩
    cases hfault.symm.trans hnone
  · intro h
    refine ⟨⟨?_, ?_⟩, fun cause hcause => exec_assignNow_error hcause _, fun hread => ?_⟩
    · rintro ⟨fault, hfault⟩
      obtain ⟨position, ⟨r, hr, hmeta⟩, -⟩ := assign_eq_error_iff.1 hfault
      exact ⟨r, List.mem_of_getElem? hr, _, hmeta⟩
    · rintro ⟨r, hr, cause, hmeta⟩
      have hnot : ¬∃ a, assign scope functionPath rs supply = .ok a := fun hok => by
        obtain ⟨m, hm⟩ := exists_assign_iff.1 hok r hr
        cases hm.symm.trans hmeta
      obtain ⟨cause, hcause⟩ := Result.exists_error_iff.2 hnot
      cases cause with
      | fault fault => exact ⟨fault, hcause⟩
      | noText cause =>
        obtain ⟨position, hfirst⟩ := assign_eq_error_iff.1 hcause
        exact absurd ⟨position, cause, hfirst⟩ h
    · obtain ⟨a, ha⟩ : ∃ a, assign scope functionPath rs supply = .ok a := exists_assign_iff.2 hread
      obtain ⟨p, hexec, hp⟩ := exec_assignNow hrs ha
      have hpath := hasPath_assign ha
      refine ⟨a, ha, ⟨p, hexec, ?_⟩, hpath, fun scope' functionPath' supply' =>
        ⟨exec_assignNow_of_hasPath hpath scope' functionPath' _, ?_⟩⟩
      · rw [hp.resources]
        refine List.map_congr_left fun r hr => toValue_injective ?_
        rw [toValue_editAll, toValue_editAll, hp.same _ (hrs r hr)]
      · obtain ⟨metas, hagain⟩ := assign_of_hasPath scope' functionPath' supply' hpath
        exact ⟨_, hagain⟩

/-- Two resources whose metadata is one map. -/
def twins : List Resource :=
  [⟨1, [(.text "kind", .text "A"), (.text "metadata", .map 2 [])]⟩,
    ⟨3, [(.text "kind", .text "B"), (.text "metadata", .map 2 [])]⟩]

/-- Both are given a path, the second one over the first, and are left alone from then on. -/
theorem allOrNothing_twins : ∃ a, assign "apps".toList none twins 4 = .ok a ∧
    a.paths.map String.ofList = ["apps/a_.yaml", "apps/b_.yaml"] ∧
    (∀ r ∈ a.resources, HasPath r) ∧
    (assignNow "base".toList (some "base/fn.yaml") a.resources).exec ⟨9, []⟩ = (.ok [], ⟨9, []⟩) := by
  have hbound : ∀ r ∈ twins, r.toValue.bound ≤ 4 := by decide
  have hread : ∀ r ∈ twins, ∃ m, r.getMeta = .ok m := by
    exact List.forall_mem_cons.2 ⟨⟨_, rfl⟩, List.forall_mem_singleton.2 ⟨_, rfl⟩⟩
  have hpaths : (assign "apps".toList none twins 4).toOption.map
      (fun a => a.paths.map String.ofList) = some ["apps/a_.yaml", "apps/b_.yaml"] := by
    decide +kernel
  obtain ⟨a, ha, -, hpath, hagain⟩ :=
    ((allOrNothing_iff "apps".toList none hbound).2 (not_isFirstUnreadable_of_read hread)).placed
      hread
  rw [ha] at hpaths
  exact ⟨a, ha, Option.some.inj hpaths, hpath, (hagain _ _ _).1⟩

/-- A resource whose name is a number with too many digits is not reported as one whose metadata
cannot be read. -/
theorem assign_longNamed : ¬AllOrNothing "apps".toList none [longNamed] 3 := by
  rw [allOrNothing_iff _ _ (by decide)]
  exact not_not.2 ⟨0, _, isFirstUnreadable_zero.2 getMeta_longNamed⟩

end Provenance

end ScopedFn
