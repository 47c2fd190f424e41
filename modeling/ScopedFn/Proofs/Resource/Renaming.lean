import ScopedFn.Proofs.Value.Renaming

/-!
# Renaming and removing

To remove an annotation from a resource takes looking up its metadata, its annotations and their
keys. None of this depends on the identities of the objects, as long as different maps keep
different ones.

* `Value.rename_editAll` : removing keys from maps and renaming commute;
* `Resource.removalEdits_rename` : so do renaming and the choice of what to remove.
-/

set_option autoImplicit false

namespace ScopedFn

/-- The edit removes a text key from a map. -/
def Edit.Removes (e : Edit) : Prop := ∃ key, e.change = .erase (.text key)

/-- The edit of the renamed map. -/
def Edit.rename (ρ : Renaming) (e : Edit) : Edit := { e with target := ρ.object e.target }

variable {ρ : Renaming}

theorem Atom.same_text_rename (ρ : Renaming) (a : Atom) (key : String) :
    (a.rename ρ).same (.text key) = a.same (.text key) := by
  rw [Bool.eq_iff_iff, same_text, same_text]
  cases a <;> simp [rename]

namespace MapEntries

/-- Looking a key up and renaming commute. -/
theorem get_renameEntries (ρ : Renaming) (es : MapEntries) (key : String) :
    get (Value.renameEntries ρ es) key = (get es key).rename ρ := by
  unfold get get?
  induction es with
  | nil => rfl
  | cons p es ih =>
    obtain ⟨k, v⟩ := p
    rw [Value.renameEntries, Entries.find?, Entries.find?, Atom.same_text_rename]
    split
    · rfl
    · exact ih

theorem erase_renameEntries (ρ : Renaming) (es : MapEntries) (key : String) :
    Entries.erase Atom.same (.text key) (Value.renameEntries ρ es) =
      Value.renameEntries ρ (Entries.erase Atom.same (.text key) es) := by
  induction es with
  | nil => rfl
  | cons p es ih =>
    obtain ⟨k, v⟩ := p
    rw [Value.renameEntries, Entries.erase, Entries.erase, Atom.same_text_rename]
    split
    · rfl
    · rw [ih, Value.renameEntries]

end MapEntries

theorem Edit.Removes.apply_renameEntries {e : Edit} (he : e.Removes) (es : MapEntries) :
    e.change.apply (Value.renameEntries ρ es) = Value.renameEntries ρ (e.change.apply es) := by
  obtain ⟨key, hchange⟩ := he
  rw [hchange]
  exact MapEntries.erase_renameEntries ρ es key

namespace Value

/-- An edit keeps what is plain so, and makes nothing plain. -/
theorem isPlain_edit (e : Edit) (v : Value) : (v.edit e).isPlain = v.isPlain := by
  induction v using Value.induction with
  | atom a | list id items | map id es | set id ms => rfl
  | tuple id items ih =>
    rw [edit, isPlain, isPlain, Bool.eq_iff_iff, allPlain_iff, allPlain_iff, editItems_eq,
      List.forall_mem_map]
    exact forall₂_congr fun v hv => by rw [ih v hv]

theorem allPlain_editItems (e : Edit) (id : ObjectId) (items : List Value) :
    allPlain (editItems e items) = allPlain items := isPlain_edit e (.tuple id items)

/-- **Removing and renaming commute.** -/
theorem rename_edit {e : Edit} (he : e.Removes) (v : Value) :
    (v.edit e).rename ρ = (v.rename ρ).edit (e.rename ρ) := by
  induction v using Value.induction with
  | atom a | set id ms => rfl
  | list id items ih =>
    rw [edit, rename, rename, edit, editItems_eq, editItems_eq, renameItems_eq, renameItems_eq,
      List.map_map, List.map_map]
    exact congrArg _ (List.map_congr_left ih)
  | tuple id items ih =>
    rw [edit, rename, rename, edit, allPlain_editItems e id, editItems_eq, editItems_eq,
      renameItems_eq, renameItems_eq, List.map_map, List.map_map]
    exact congrArg _ (List.map_congr_left ih)
  | map id es ih =>
    have hes : renameEntries ρ (editEntries e es) = editEntries (e.rename ρ) (renameEntries ρ es) := by
      rw [editEntries_eq, editEntries_eq, renameEntries_eq, renameEntries_eq, List.map_map,
        List.map_map]
      exact List.map_congr_left fun p hp => Prod.ext rfl (ih p hp)
    -- different maps stay different, so the edit concerns the same ones
    have htarget : ρ.object id = (e.rename ρ).target ↔ id = e.target := ρ.injective.eq_iff
    rw [edit, rename, rename, edit, ← hes]
    simp only [htarget]
    split
    · rw [← he.apply_renameEntries]
      rfl
    · rfl

theorem rename_editAll {es : List Edit} (hes : ∀ e ∈ es, e.Removes) (v : Value) :
    (v.editAll es).rename ρ = (v.rename ρ).editAll (es.map (Edit.rename ρ)) := by
  induction es generalizing v with
  | nil => rfl
  | cons e es ih =>
    obtain ⟨he, hrest⟩ := List.forall_mem_cons.1 hes
    rw [List.map_cons, editAll, editAll, List.foldl_cons, List.foldl_cons, ← rename_edit he]
    exact ih hrest _

/-- Removing keys brings no identity into a value. -/
theorem bound_editAll_le {es : List Edit} {hi : ℕ} (hes : ∀ e ∈ es, e.Removes) {v : Value}
    (hv : v.bound ≤ hi) : (v.editAll es).bound ≤ hi := by
  induction es generalizing v with
  | nil => exact hv
  | cons e es ih =>
    obtain ⟨⟨key, hchange⟩, hrest⟩ := List.forall_mem_cons.1 hes
    have hbounded : e.change.Bounded hi := by
      rw [hchange]
      trivial
    exact ih hrest (bound_edit_le hv hbounded)

end Value

/-! ### Resources -/

namespace Resource

/-- The resource with its identities renamed. -/
def rename (ρ : Renaming) (r : Resource) : Resource :=
  ⟨ρ.object r.id, Value.renameEntries ρ r.entries⟩

theorem toValue_rename (ρ : Renaming) (r : Resource) : (r.rename ρ).toValue = r.toValue.rename ρ := by
  rw [toValue, toValue, Value.rename, rename]

theorem removes_removalEdits (key : String) (r : Resource) : ∀ e ∈ r.removalEdits key, e.Removes := by
  unfold removalEdits
  split
  · split
    · dsimp only
      split
      · exact List.forall_mem_cons.2 ⟨⟨_, rfl⟩, List.forall_mem_singleton.2 ⟨_, rfl⟩⟩
      · exact List.forall_mem_singleton.2 ⟨_, rfl⟩
    · exact nofun
  · exact nofun

/-- What is to be removed does not depend on identities. -/
theorem removalEdits_rename (ρ : Renaming) (key : String) (r : Resource) :
    (r.rename ρ).removalEdits key = (r.removalEdits key).map (Edit.rename ρ) := by
  unfold removalEdits rename
  rw [MapEntries.get_renameEntries]
  cases r.entries.get "metadata" with
  | atom a | list id items | tuple id items | set id ms => rfl
  | map id metadata =>
    dsimp only [Value.rename]
    rw [MapEntries.get_renameEntries]
    cases MapEntries.get metadata "annotations" with
    | atom a | list id items | tuple id items | set id ms => rfl
    | map id' annotations =>
      -- annotations that become empty are removed too, and both become so or neither
      have hsame : ((Change.erase (.text key)).apply (Value.renameEntries ρ annotations)).isEmpty =
          ((Change.erase (.text key)).apply annotations).isEmpty := by
        rw [Change.apply, Change.apply, MapEntries.erase_renameEntries]
        cases Entries.erase Atom.same (.text key) annotations <;> rfl
      simp only [Value.rename, hsame, apply_ite (List.map (Edit.rename ρ))]
      rfl

theorem editAll_rename {es : List Edit} (hes : ∀ e ∈ es, e.Removes) (r : Resource) :
    (r.editAll es).rename ρ = (r.rename ρ).editAll (es.map (Edit.rename ρ)) := by
  refine toValue_injective ?_
  rw [toValue_rename, toValue_editAll, toValue_editAll, toValue_rename, Value.rename_editAll hes]

end Resource

end ScopedFn
