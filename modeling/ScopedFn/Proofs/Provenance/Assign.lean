import ScopedFn.Proofs.Provenance.Annotation
import ScopedFn.Proofs.Result
import ScopedFn.Provenance

/-!
# Assigning provenance

Provenance is written one annotation after the other into objects that several resources may
hold. What a single annotation keeps, the whole assignment keeps.

* `Provenance.Assignment.placeAll_induction` : a property that each annotation keeps holds at the
  end;
* `Provenance.exists_assign_iff` : an assignment succeeds iff the metadata of all resources can be
  read;
* `Provenance.assign_resources` and `Provenance.fresh_assign` : the resources are as the edits leave
  them, and the edits concern new maps only if the resources are new.
-/

set_option autoImplicit false

namespace ScopedFn.Provenance

namespace Assignment

variable {scope stem : Path} {position : ℕ} {m : Meta} {path : Path} {key value : String}
  {a a' : Assignment} {I : Assignment → Prop}

/-- The assignment with a path that is not free any more. -/
def take (path : Path) (a : Assignment) : Assignment :=
  { a with taken := path :: a.taken, paths := a.paths ++ [path] }

/-- The assignment after the edit that sets an annotation. -/
def annotated (e : Edit) (a : Assignment) : Assignment := { a.edit e with supply := a.supply + 2 }

theorem place_eq (position : ℕ) (m : Meta) (path : Path) (a : Assignment) :
    a.place position m path = (do
      let a ← (a.take (freePath a.taken path)).annotate position pathKey
        (String.ofList (freePath a.taken path))
      if (m.annotations.get? indexKey).isNone then a.annotate position indexKey "0" else return a) :=
  rfl

/-- A property is kept by everything that an assignment is made of. -/
structure Kept (I : Assignment → Prop) : Prop where
  /-- Paths do not matter to it. -/
  take : ∀ {a} (path : Path), I a → I (a.take path)
  /-- Setting an annotation of one of the resources keeps it. -/
  annotated : ∀ {a r e key value}, r ∈ a.resources → key ∈ readerKeys →
    r.annotationEdit a.supply (a.supply + 1) key value = .ok e → I a → I (a.annotated e)

theorem Kept.annotate (hI : Kept I) (hkey : key ∈ readerKeys)
    (h : a.annotate position key value = .ok a') (ha : I a) : I a' := by
  unfold Assignment.annotate at h
  split at h
  · exact Except.ok.inj h ▸ ha
  · rename_i r hr
    cases hedit : r.annotationEdit a.supply (a.supply + 1) key value with
    | error fault => simp [hedit, bind, Except.bind] at h
    | ok e =>
      simp only [hedit, bind, Except.bind] at h
      exact Except.ok.inj h ▸ hI.annotated (List.mem_of_getElem? hr) hkey hedit ha

theorem Kept.place (hI : Kept I) (h : a.place position m path = .ok a') (ha : I a) : I a' := by
  rw [place_eq] at h
  cases hpath : (a.take (freePath a.taken path)).annotate position pathKey
      (String.ofList (freePath a.taken path)) with
  | error fault => simp [hpath, bind, Except.bind] at h
  | ok a₁ =>
    have ha₁ : I a₁ := hI.annotate (by decide) hpath (hI.take _ ha)
    simp only [hpath, bind, Except.bind] at h
    split at h
    · exact hI.annotate (by decide) h ha₁
    · exact Except.ok.inj h ▸ ha₁

/-- A property that each annotation keeps holds when all resources are placed. -/
theorem placeAll_induction (hI : Kept I) {ms : List Meta}
    (h : placeAll scope stem position ms a = .ok a') (ha : I a) : I a' := by
  induction ms generalizing position a with
  | nil => exact Except.ok.inj h ▸ ha
  | cons m ms ih =>
    unfold placeAll at h
    split at h
    · exact ih h ha
    · cases hplace : a.place position m (defaultPath scope m stem) with
      | error fault => simp [hplace, bind, Except.bind] at h
      | ok a₁ =>
        simp only [hplace, bind, Except.bind] at h
        exact ih h (hI.place hplace ha)

/-! ### Success -/

/-- Every resource can be annotated. -/
def Annotatable (a : Assignment) : Prop := ∀ r ∈ a.resources, r.Annotatable

theorem kept_annotatable : Kept Annotatable where
  take _ h := h
  annotated := by
    intro a r e key value _ hkey hedit h
    refine List.forall_mem_map.2 fun r' hr' => (h r' hr').edit ?_
    exact Resource.annotates_annotationEdit hedit hkey

theorem Annotatable.exists_annotate (h : a.Annotatable) (position : ℕ) (key value : String) :
    ∃ a', a.annotate position key value = .ok a' := by
  unfold annotate
  split
  · exact ⟨a, rfl⟩
  · rename_i r hr
    obtain ⟨e, he⟩ := (h r (List.mem_of_getElem? hr)).exists_edit a.supply (a.supply + 1) key value
    exact ⟨_, by rw [he]; rfl⟩

theorem Annotatable.exists_place (h : a.Annotatable) (position : ℕ) (m : Meta) (path : Path) :
    ∃ a', a.place position m path = .ok a' := by
  have htake : (a.take (freePath a.taken path)).Annotatable := h
  obtain ⟨a₁, h₁⟩ := htake.exists_annotate position pathKey (String.ofList (freePath a.taken path))
  -- the first annotation makes maps at most, which can be annotated again
  obtain ⟨a₂, h₂⟩ := (kept_annotatable.annotate (by decide) h₁ htake).exists_annotate position
    indexKey "0"
  simp only [place_eq, h₁, bind, Except.bind]
  split
  · exact ⟨a₂, h₂⟩
  · exact ⟨a₁, rfl⟩

theorem Annotatable.exists_placeAll {ms : List Meta} (h : a.Annotatable) :
    ∃ a', placeAll scope stem position ms a = .ok a' := by
  induction ms generalizing position a with
  | nil => exact ⟨a, rfl⟩
  | cons m ms ih =>
    unfold placeAll
    split
    · exact ih h
    · obtain ⟨a₁, h₁⟩ := h.exists_place position m (defaultPath scope m stem)
      simp only [h₁, bind, Except.bind]
      exact ih (kept_annotatable.place h₁ h)

/-! ### Edits -/

variable {lo : Supply}

/-- The resources are as the edits leave the given ones. -/
def Follows (rs : List Resource) (a : Assignment) : Prop := a.resources = rs.map (·.editAll a.edits)

theorem kept_follows (rs : List Resource) : Kept (Follows rs) where
  take _ h := h
  annotated := by
    intro a r e key value _ _ _ h
    have h' : a.resources = rs.map (·.editAll a.edits) := h
    rw [Follows, annotated, edit, h', List.map_map]
    exact List.map_congr_left fun r _ => (Resource.editAll_append a.edits [e] r).symm

/-- All maps that the resources hold, and all that are edited, are new. -/
structure Fresh (lo : Supply) (a : Assignment) : Prop where
  /-- The resources hold new maps only. -/
  resources : ∀ r ∈ a.resources, r.toValue.Fresh lo
  /-- New maps only are edited. -/
  edits : ∀ e ∈ a.edits, e.Fresh lo
  /-- Maps that are made from here on are new. -/
  supply : lo ≤ a.supply

theorem kept_fresh (lo : Supply) : Kept (Fresh lo) where
  take _ h := ⟨h.resources, h.edits, h.supply⟩
  annotated := by
    intro a r e key value hr _ hedit h
    -- the edited map is one of the resource's own, and what is put there is new
    have he : e.Fresh lo := Resource.fresh_annotationEdit hedit (h.resources r hr) h.supply
      (le_trans h.supply (Nat.le_succ _))
    refine ⟨List.forall_mem_map.2 fun r' hr' => ?_, ?_, le_trans h.supply (Nat.le_add_right _ _)⟩
    · rw [Resource.toValue_edit]
      exact (h.resources r' hr').edit he.change
    · exact List.forall_mem_append.2 ⟨h.edits, List.forall_mem_singleton.2 he⟩

/-- No identity that the resources hold lies behind the supply. -/
structure Bounded (lo : Supply) (a : Assignment) : Prop where
  /-- The supply goes on from the given identity. -/
  supply : lo ≤ a.supply
  /-- The resources hold identities before it only. -/
  resources : ∀ r ∈ a.resources, r.toValue.bound ≤ a.supply

theorem kept_bounded (lo : Supply) : Kept (Bounded lo) where
  take _ h := ⟨h.supply, h.resources⟩
  annotated := by
    intro a r e key value hr _ hedit h
    have hsupply : a.supply ≤ a.supply + 2 := Nat.le_add_right _ _
    refine ⟨le_trans h.supply hsupply, List.forall_mem_map.2 fun r' hr' => ?_⟩
    rw [Resource.toValue_edit]
    exact Value.bound_edit_le (le_trans (h.resources r' hr') hsupply)
      (Resource.bounded_annotationEdit hedit (Nat.lt_add_of_pos_right (by decide)) (Nat.lt_succ_self _))

end Assignment

/-! ### The whole assignment -/

variable {scope : Path} {functionPath : Option String} {rs : List Resource} {supply : Supply}
  {a : Assignment}

/-- The assignment before any resource is placed. -/
def Assignment.start (rs : List Resource) (metas : List Meta) (supply : Supply) : Assignment :=
  ⟨rs, [], [], metas.filterMap fun m => m.path?.map String.toList, supply⟩

theorem assign_eq_ok_iff : assign scope functionPath rs supply = .ok a ↔
    ∃ metas, rs.mapM Resource.getMeta = .ok metas ∧
      Assignment.placeAll scope (functionStem functionPath) 0 metas
        (.start rs metas supply) = .ok a := by
  rw [assign, Result.bind_ok_iff]
  exact exists_congr fun _ => and_congr_right' Result.mapError_ok_iff

/-- **An assignment succeeds** iff the metadata of all resources can be read. -/
theorem exists_assign_iff :
    (∃ a, assign scope functionPath rs supply = .ok a) ↔ ∀ r ∈ rs, ∃ m, r.getMeta = .ok m := by
  rw [← Result.mapM_ok_iff]
  refine ⟨fun ⟨a, h⟩ => ?_, fun ⟨metas, hmetas⟩ => ?_⟩
  · obtain ⟨metas, hmetas, -⟩ := assign_eq_ok_iff.1 h
    exact ⟨metas, hmetas⟩
  · have hann : (Assignment.start rs metas supply).Annotatable := fun r hr => by
      obtain ⟨m, hm⟩ := Result.mapM_ok_iff.1 ⟨metas, hmetas⟩ r hr
      exact Resource.annotatable_of_getMeta hm
    obtain ⟨a, ha⟩ := hann.exists_placeAll
    exact ⟨a, assign_eq_ok_iff.2 ⟨metas, hmetas, ha⟩⟩

/-- An assignment fails for the first resource whose metadata cannot be read. -/
theorem assign_eq_error_iff {cause : OrNoText MetaFault} :
    assign scope functionPath rs supply = .error cause ↔
      ∃ position, Resource.IsFirstUnreadable rs position cause := by
  rw [← Resource.mapM_getMeta_eq_error_iff]
  cases hmetas : rs.mapM Resource.getMeta with
  | error cause' =>
    rw [assign, hmetas]
    exact ⟨fun h => congrArg _ (Except.error.inj h), fun h => congrArg _ (Except.error.inj h)⟩
  | ok metas =>
    obtain ⟨a, ha⟩ := exists_assign_iff.2 (Result.mapM_ok_iff.1 ⟨metas, hmetas⟩)
    rw [ha]
    exact iff_of_false nofun nofun

/-- The resources are as the edits leave the given ones. -/
theorem assign_resources (h : assign scope functionPath rs supply = .ok a) :
    a.resources = rs.map (·.editAll a.edits) := by
  obtain ⟨metas, -, hplace⟩ := assign_eq_ok_iff.1 h
  exact Assignment.placeAll_induction (Assignment.kept_follows rs) hplace (List.map_id rs).symm

/-- Of new resources, only new maps are edited. -/
theorem fresh_assign {lo : Supply} (h : assign scope functionPath rs supply = .ok a)
    (hrs : ∀ r ∈ rs, r.toValue.Fresh lo) (hlo : lo ≤ supply) : a.Fresh lo := by
  obtain ⟨metas, -, hplace⟩ := assign_eq_ok_iff.1 h
  refine Assignment.placeAll_induction (Assignment.kept_fresh lo) hplace ⟨hrs, ?_, hlo⟩
  exact fun e he => absurd he List.not_mem_nil

/-- The identities that are given out come from the supply. -/
theorem bounded_assign (h : assign scope functionPath rs supply = .ok a)
    (hrs : ∀ r ∈ rs, r.toValue.bound ≤ supply) : a.Bounded supply := by
  obtain ⟨metas, -, hplace⟩ := assign_eq_ok_iff.1 h
  exact Assignment.placeAll_induction (Assignment.kept_bounded supply) hplace ⟨le_rfl, hrs⟩

end ScopedFn.Provenance
