import ScopedFn.Proofs.Config.Merge
import ScopedFn.Proofs.Value.Decidable

/-!
# Merging in place

A merge is carried out on objects: the lower layer is copied, and the entries of the upper layer are
set in the copy, one after the other. So the only maps that change are new ones, and neither layer
does, whether the merge succeeds or ends in the middle with a fault.

* `Config.overlay` : a merge as it changes objects;
* `Config.changesNew_overlay` : it changes new maps only;
* `Config.agrees_overlay` : it gives what `merge` gives, in other objects;
* `Config.MergesAsSpecified` : what a merge gives, where it fails, and what it leaves as it is;
* `Config.mergesAsSpecified_iff` : when this is so.
-/

set_option autoImplicit false

namespace ScopedFn

namespace Config

open Entries (find? put has)

/-! ### Merging object by object -/

/-- What has been done: the identities that are taken, and the changes of maps, first to last. -/
structure Work where
  /-- The first identity that is not in use. -/
  supply : Supply
  /-- The changes made. -/
  edits : List Edit

/-- A part of a merge. After a fault, what has been done remains. -/
abbrev Working := ExceptT MergeFault (StateM Work)

/-- Copies a value. -/
def copied (v : Value) : Working Value := ExceptT.lift fun work =>
  (v.shift work.supply, { work with supply := work.supply + v.bound })

/-- Copies a map: its identity and its entries. -/
def copiedMap (id : ObjectId) (es : MapEntries) : Working (ObjectId × MapEntries) :=
  ExceptT.lift fun work => ((id + work.supply, Value.shiftEntries work.supply es),
    { work with supply := work.supply + (Value.map id es).bound })

/-- Carries out a change of a map. -/
def changed (id : ObjectId) (c : Change) (es : MapEntries) : Working MapEntries :=
  ExceptT.lift fun work => (c.apply es, { work with edits := work.edits ++ [⟨id, c⟩] })

mutual

/-- The new value of a key that both layers have. -/
def overlayValue (key : Atom) (below : Value) : Value → Working Value
  | .map id es =>
    match below with
    | .map below_id below_es => do
      let copy ← copiedMap below_id below_es
      return .map copy.1 (← overlayEntries copy.1 copy.2 es)
    | v => throw (conflict key v (.map id es))
  | .list id items => copied (.list id items)
  | v =>
    if below.typeName = v.typeName then copied v
    else throw (conflict key below v)

/-- Sets entries in a map, one after the other. -/
def overlayEntries (id : ObjectId) (current : MapEntries) : List (Atom × Value) → Working MapEntries
  | [] => return current
  | (k, v) :: es => do
    let new ←
      match find? Atom.same k current with
      | none => copied v
      | some old => overlayValue k old v
    overlayEntries id (← changed id (.put k new) current) es

end

/-- Lays a configuration over another one: sets its entries in a copy of the other. -/
def overlay (base override : Value) : Working Value :=
  match base, override with
  | .map id es, .map _ fs => do
    let copy ← copiedMap id es
    return .map copy.1 (← overlayEntries copy.1 copy.2 fs)
  | b, o => throw (.fault (.layersNotMaps b.typeName o.typeName))

/-- What a part of a merge gives, and what has been done by then. -/
def Working.exec {α : Type} (m : Working α) (work : Work) : Except (MergeFault) α × Work :=
  (ExceptT.run m).run work

section

variable {α β : Type} {m : Working α} {f : α → Working β}

theorem exec_bind (m : Working α) (f : α → Working β) (work : Work) :
    (m >>= f).exec work = match m.exec work with
      | (.ok a, work') => (f a).exec work'
      | (.error fault, work') => (.error fault, work') := by
  simp only [Working.exec, ExceptT.run_bind, StateT.run_bind]
  rcases (ExceptT.run m).run work with ⟨fault | a, work'⟩ <;> rfl

/-! ### Which maps are changed -/

/-- New maps only have been changed, and the identities still to come are new too. -/
structure Work.Fresh (lo : Supply) (work : Work) : Prop where
  /-- Identities still to come are new. -/
  supply : lo ≤ work.supply
  /-- Only new maps have been changed. -/
  edits : ∀ e ∈ work.edits, lo ≤ e.target

/-- A part of a merge changes new maps only, and what it gives has a property. -/
def ChangesNew (lo : Supply) (m : Working α) (P : α → Prop) : Prop :=
  ∀ work, work.Fresh lo → (m.exec work).2.Fresh lo ∧ ∀ a, (m.exec work).1 = .ok a → P a

variable {lo : Supply} {P : α → Prop} {Q : β → Prop}

theorem ChangesNew.bind (hm : ChangesNew lo m P) (hf : ∀ a, P a → ChangesNew lo (f a) Q) :
    ChangesNew lo (m >>= f) Q := by
  intro work hwork
  obtain ⟨hfresh, hP⟩ := hm work hwork
  rw [exec_bind]
  rcases h : m.exec work with ⟨fault | a, work'⟩
  · rw [h] at hfresh
    exact ⟨hfresh, nofun⟩
  · rw [h] at hfresh hP
    exact hf a (hP a rfl) work' hfresh

theorem changesNew_pure {a : α} (h : P a) : ChangesNew lo (pure a) P := by
  intro work hwork
  refine ⟨hwork, fun b hb => ?_⟩
  obtain rfl := Except.ok.inj hb
  exact h

theorem changesNew_throw (fault : MergeFault) : ChangesNew lo (throw fault) P :=
  fun _ hwork => ⟨hwork, nofun⟩

end

variable {lo : Supply} {id : ObjectId} {es fs current : MapEntries} {v w : Value} {k : Atom}

theorem changesNew_copied (v : Value) : ChangesNew lo (copied v) fun _ => True :=
  fun _ hwork => ⟨⟨le_trans hwork.supply (Nat.le_add_right _ _), hwork.edits⟩, fun _ _ => trivial⟩

theorem changesNew_copiedMap (id : ObjectId) (es : MapEntries) :
    ChangesNew lo (copiedMap id es) fun copy => lo ≤ copy.1 := by
  intro work hwork
  refine ⟨⟨le_trans hwork.supply (Nat.le_add_right _ _), hwork.edits⟩, fun copy hcopy => ?_⟩
  obtain rfl := Except.ok.inj hcopy
  exact le_trans hwork.supply (Nat.le_add_left _ _)

theorem changesNew_changed (hid : lo ≤ id) (c : Change) (es : MapEntries) :
    ChangesNew lo (changed id c es) fun _ => True := by
  intro work hwork
  refine ⟨⟨hwork.supply, List.forall_mem_append.2 ⟨hwork.edits, ?_⟩⟩, fun _ _ => trivial⟩
  exact List.forall_mem_singleton.2 hid

theorem changesNew_overlayEntries (hid : lo ≤ id)
    (ih : ∀ e ∈ es, ∀ k v, ChangesNew lo (overlayValue k v e.2) fun _ => True) :
    ChangesNew lo (overlayEntries id current es) fun _ => True := by
  induction es generalizing current with
  | nil => exact changesNew_pure trivial
  | cons e es hrec =>
    obtain ⟨k, w⟩ := e
    obtain ⟨hw, hes⟩ := List.forall_mem_cons.1 ih
    have hset : ∀ new, ChangesNew lo
        (changed id (.put k new) current >>= fun current => overlayEntries id current es)
        fun _ => True :=
      fun new => (changesNew_changed hid _ _).bind fun _ _ => hrec hes
    rw [overlayEntries]
    cases find? Atom.same k current with
    | none => exact (changesNew_copied w).bind fun new _ => hset new
    | some old => exact (hw k old).bind fun new _ => hset new

theorem changesNew_overlayValue (k : Atom) (v w : Value) :
    ChangesNew lo (overlayValue k v w) fun _ => True := by
  induction w using Value.induction generalizing k v with
  | map j fs ih =>
    cases v with
    | map i es =>
      exact (changesNew_copiedMap i es).bind fun copy hcopy =>
        (changesNew_overlayEntries hcopy ih).bind fun _ _ => changesNew_pure trivial
    | _ => exact changesNew_throw _
  | list j items => exact changesNew_copied _
  | _ =>
    rw [overlayValue]
    split_ifs
    · exact changesNew_copied _
    · exact changesNew_throw _
    all_goals simp

/-- **Only new maps are changed.** -/
theorem changesNew_overlay (base override : Value) :
    ChangesNew lo (overlay base override) fun _ => True := by
  unfold overlay
  split
  · exact (changesNew_copiedMap _ _).bind fun copy hcopy =>
      (changesNew_overlayEntries hcopy fun e _ k v => changesNew_overlayValue k v e.2).bind
        fun _ _ => changesNew_pure trivial
  · exact changesNew_throw _

/-! ### What is given -/

section

variable {α β γ δ : Type} {p : α → γ} {q : β → δ} {m : Working α} {x : Except (MergeFault) α}

/-- What a part of a merge gives is another thing with the same contents, or the same fault. -/
def Agrees (p : α → γ) (m : Working α) (x : Except (MergeFault) α) : Prop :=
  ∀ work, (m.exec work).1.map p = x.map p

theorem Agrees.bind {f : α → Working β} {g : α → Except (MergeFault) β} (hm : Agrees p m x)
    (hf : ∀ a b, p a = p b → Agrees q (f a) (g b)) : Agrees q (m >>= f) (x >>= g) := by
  intro work
  have h := hm work
  rw [exec_bind]
  rcases hrun : m.exec work with ⟨fault | a, work'⟩
  · rw [hrun] at h
    cases x with
    | error fault' => exact congrArg Except.error (Except.error.inj h)
    | ok b => cases h
  · rw [hrun] at h
    cases x with
    | error fault' => cases h
    | ok b => exact hf a b (Except.ok.inj h) work'

theorem agrees_pure {a b : α} (h : p a = p b) : Agrees p (pure a) (.ok b) :=
  fun _ => congrArg Except.ok h

theorem agrees_throw {fault fault' : MergeFault} (h : fault = fault') :
    Agrees p (throw fault) (.error fault') := fun _ => congrArg Except.error h

end

theorem agrees_copied (v : Value) : Agrees Value.contents (copied v) (.ok v) :=
  fun _ => congrArg Except.ok (Value.contents_shift _ v)

theorem agrees_copiedMap {es' : MapEntries} (id id' : ObjectId)
    (h : Value.contentsOfEntries es = Value.contentsOfEntries es') :
    Agrees (fun copy => Value.contentsOfEntries copy.2) (copiedMap id es) (.ok (id', es')) :=
  fun _ => congrArg Except.ok ((Value.contentsOfEntries_shiftEntries _ es).trans h)

theorem agrees_changed {es' : MapEntries} {v v' : Value} (hk : k.isProper = true)
    (hv : v.contents = v'.contents)
    (hes : Value.contentsOfEntries es = Value.contentsOfEntries es') :
    Agrees Value.contentsOfEntries (changed id (.put k v) es) (.ok (put Atom.same k v' es')) := by
  refine fun _ => congrArg Except.ok ?_
  rw [Change.apply, MapEntries.contents_put hk, MapEntries.contents_put hk, hv, hes]

/-- The first entry of the upper layer is merged, and then the others. -/
theorem mergeEntries_cons_eq (k : Atom) (w : Value) (es fs : MapEntries) :
    mergeEntries es ((k, w) :: fs) =
      (match find? Atom.same k es with
        | none => .ok w
        | some old => mergeValue k old w) >>= fun u => mergeEntries (put Atom.same k u es) fs := by
  rw [mergeEntries]
  cases find? Atom.same k es with
  | none => rfl
  | some old => cases h : mergeValue k old w <;> simp [h, bind, Except.bind]

theorem agrees_overlayEntries {current' : MapEntries} (hkeys : ∀ e ∈ es, e.1.isProper = true)
    (ih : ∀ e ∈ es, ∀ k v v', v.contents = v'.contents →
      Agrees Value.contents (overlayValue k v e.2) (mergeValue k v' e.2))
    (h : Value.contentsOfEntries current = Value.contentsOfEntries current') :
    Agrees Value.contentsOfEntries (overlayEntries id current es) (mergeEntries current' es) := by
  induction es generalizing current current' with
  | nil => exact agrees_pure h
  | cons e es hrec =>
    obtain ⟨k, w⟩ := e
    obtain ⟨hk, hkeys'⟩ := List.forall_mem_cons.1 hkeys
    obtain ⟨hw, hes⟩ := List.forall_mem_cons.1 ih
    have hset : ∀ v v', v.contents = v'.contents → Agrees Value.contentsOfEntries
        (changed id (.put k v) current >>= fun current => overlayEntries id current es)
        (mergeEntries (put Atom.same k v' current') es) := fun v v' hv =>
      (agrees_changed hk hv h).bind fun _ _ hnext => hrec hkeys' hes hnext
    have hfind : (find? Atom.same k current).map Value.contents =
        (find? Atom.same k current').map Value.contents := by
      rw [← MapEntries.find?_contents hk, h, MapEntries.find?_contents hk]
    rw [overlayEntries, mergeEntries_cons_eq]
    cases hold : find? Atom.same k current with
    | none =>
      cases hold' : find? Atom.same k current' with
      | none => exact (agrees_copied w).bind hset
      | some old' => simp [hold, hold'] at hfind
    | some old =>
      cases hold' : find? Atom.same k current' with
      | none => simp [hold, hold'] at hfind
      | some old' =>
        refine (hw k old old' ?_).bind hset
        simpa [hold, hold'] using hfind

/-- A copied map with the entries of the upper layer set in it is the merged map. -/
theorem agrees_maps {i i' : ObjectId} {es' : MapEntries}
    (hset : ∀ id current current',
      Value.contentsOfEntries current = Value.contentsOfEntries current' →
      Agrees Value.contentsOfEntries (overlayEntries id current fs) (mergeEntries current' fs))
    (h : Value.contentsOfEntries es = Value.contentsOfEntries es') :
    Agrees Value.contents
      (copiedMap i es >>= fun copy => overlayEntries copy.1 copy.2 fs >>= fun gs =>
        pure (Value.map copy.1 gs))
      ((mergeEntries es' fs).map (.map i')) := by
  have hsteps : (mergeEntries es' fs).map (Value.map i') =
      Except.ok (i', es') >>= fun copy => mergeEntries copy.2 fs >>= fun gs =>
        .ok (Value.map copy.1 gs) := by
    cases hmerge : mergeEntries es' fs <;> simp [hmerge, bind, Except.bind, Except.map]
  rw [hsteps]
  refine (agrees_copiedMap i i' h).bind fun copy copy' hcopy => ?_
  refine (hset copy.1 copy.2 copy'.2 hcopy).bind fun gs gs' hgs => agrees_pure ?_
  rw [Value.contents, Value.contents, hgs]

theorem overlayValue_of_not_map {j : ObjectId} (hv : ¬∃ i es, v = .map i es) :
    overlayValue k v (.map j fs) =
      throw (conflict k v (.map j fs)) := by
  cases v with
  | map i es => exact absurd ⟨i, es, rfl⟩ hv
  | _ => rfl

theorem mergeValue_of_not_map {j : ObjectId} (hv : ¬∃ i es, v = .map i es) :
    mergeValue k v (.map j fs) =
      .error (conflict k v (.map j fs)) := by
  cases v with
  | map i es => exact absurd ⟨i, es, rfl⟩ hv
  | _ => rfl

theorem conflict_of_contents {v' : Value} (h : v.contents = v'.contents) (k : Atom) (w : Value) :
    conflict k v w = conflict k v' w := by
  rw [conflict, conflict, Value.typeName_eq_of_contents h]

/-- Laying a value over copies of what another one holds is laying it over that one. -/
theorem agrees_overlayValue {v' : Value} (hw : w.IsDocument) (k : Atom)
    (h : v.contents = v'.contents) :
    Agrees Value.contents (overlayValue k v w) (mergeValue k v' w) := by
  induction w using Value.induction generalizing k v v' with
  | map j fs ih =>
    have htype := Value.typeName_eq_of_contents h
    by_cases hv : ∃ i es, v = .map i es
    · obtain ⟨i, es, rfl⟩ := hv
      obtain ⟨i', es', rfl⟩ := typeName_eq_dict_iff.1 htype.symm
      refine agrees_maps (fun id current current' hcurrent => ?_) (Value.map.inj h).2
      obtain ⟨hkeys, -, -⟩ := Value.isDocument_map.1 hw
      exact agrees_overlayEntries hkeys (fun e he k v v' => ih e he (hw.of_mem he) k) hcurrent
    · have hv' : ¬∃ i es, v' = .map i es := fun hmap =>
        hv (typeName_eq_dict_iff.1 (htype ▸ typeName_eq_dict_iff.2 hmap))
      rw [overlayValue_of_not_map hv, mergeValue_of_not_map hv']
      exact agrees_throw (conflict_of_contents h k _)
  | list j items => exact agrees_copied _
  | _ =>
    rw [overlayValue, mergeValue, Value.typeName_eq_of_contents h]
    split_ifs
    · exact agrees_copied _
    · exact agrees_throw (conflict_of_contents h k _)
    all_goals simp

/-- **In place, a merge gives what it gives**, in objects of its own. -/
theorem agrees_overlay {i j : ObjectId} (hes : (Value.map i es).isAcyclic = true)
    (hfs : (Value.map j fs).IsDocument) :
    Agrees Value.contents (overlay (.map i es) (.map j fs)) (merge (.map i es) (.map j fs)) := by
  obtain ⟨hkeys, -, -⟩ := Value.isDocument_map.1 hfs
  rw [merge_eq hes hfs.isAcyclic]
  refine agrees_maps (fun id current current' hcurrent => ?_) rfl
  exact agrees_overlayEntries hkeys
    (fun e he k v v' => agrees_overlayValue (hfs.of_mem he) k) hcurrent

/-- What is made of new maps leaves a value as it is. -/
theorem editAll_overlay {supply : Supply} {base override : Value} (hv : v.bound ≤ supply) :
    v.editAll ((overlay base override).exec ⟨supply, []⟩).2.edits = v := by
  have hfresh : Work.Fresh supply ⟨supply, []⟩ := ⟨le_refl _, nofun⟩
  obtain ⟨⟨-, hedits⟩, -⟩ := changesNew_overlay base override _ hfresh
  refine Value.editAll_eq_self fun e he hmem => ?_
  exact absurd (Value.lt_of_mem_objects hv hmem) (not_lt.2 (hedits e he))

/-! ### What a merge is -/

/-- How a merge is to go: where a chain of keys leads to two values that clash, it is reported that
there is such a conflict, and where none does, the outcome holds the keys and values of both layers. In
place it gives the same or the same fault, and either way both layers stay as they are. -/
structure MergesAsSpecified (i j : ObjectId) (es fs : MapEntries) (supply : Supply) : Prop where
  /-- A conflict is reported iff there is one. -/
  fails : (∃ shown below above,
      merge (.map i es) (.map j fs) = .error (.fault (.typeConflict shown below above))) ↔
    ∃ keys v w, Conflict es fs keys v w
  /-- The report tells the last key of a chain to a conflict, and the types of the two values. -/
  reported : ∀ fault, merge (.map i es) (.map j fs) = .error fault → ∃ keys key v w shown,
    Conflict es fs (keys ++ [key]) v w ∧ key.shown = .ok shown ∧
      fault = .fault (.typeConflict shown v.typeName w.typeName)
  /-- Without a conflict the layers are merged. -/
  merges : (¬∃ keys v w, Conflict es fs keys v w) →
    ∃ gs, merge (.map i es) (.map j fs) = .ok (.map i gs) ∧ Merged es fs gs
  /-- In place a merge gives the same. -/
  agrees : ((overlay (.map i es) (.map j fs)).exec ⟨supply, []⟩).1.map Value.contents =
    (merge (.map i es) (.map j fs)).map Value.contents
  /-- The lower layer stays as it is. -/
  lower : (Value.map i es).editAll ((overlay (.map i es) (.map j fs)).exec ⟨supply, []⟩).2.edits =
    .map i es
  /-- The upper layer stays as it is. -/
  upper : (Value.map j fs).editAll ((overlay (.map i es) (.map j fs)).exec ⟨supply, []⟩).2.edits =
    .map j fs

/-- A conflict at a key that is given as text is reported with that text. -/
theorem conflict_eq {shown : String} (h : k.shown = .ok shown) (v w : Value) :
    conflict k v w = .fault (.typeConflict shown v.typeName w.typeName) := by
  rw [conflict, h]

theorem textFault?_of_conflict {fault : Fault} (h : conflict k v w = .fault fault) :
    k.textFault? = none := by
  rw [conflict] at h
  cases hshown : k.shown with
  | ok text => exact (Atom.shown_eq_ok_iff.1 hshown).1
  | error cause =>
    rw [hshown] at h
    cases h

/-- Layers are merged as their entries are. -/
theorem merge_eq_error_iff {i j : ObjectId} {fault : MergeFault}
    (hes : (Value.map i es).isAcyclic = true) (hfs : (Value.map j fs).isAcyclic = true) :
    merge (.map i es) (.map j fs) = .error fault ↔ mergeEntries es fs = .error fault := by
  rw [merge_eq hes hfs]
  cases mergeEntries es fs <;> simp [Except.map]

/-- If the first conflict is at a key that is given as text, what is wrong is reported. -/
theorem exists_report {fault : MergeFault} {j : ObjectId} (hfs : (Value.map j fs).IsDocument)
    (hgiven : ∀ key v w, FirstConflict es fs key v w → key.textFault? = none)
    (h : mergeEntries es fs = .error fault) : ∃ keys key v w shown,
      Conflict es fs (keys ++ [key]) v w ∧ key.shown = .ok shown ∧
        fault = .fault (.typeConflict shown v.typeName w.typeName) := by
  obtain ⟨key, v, w, hconflict, rfl⟩ := firstConflict_of_error hfs h
  obtain ⟨keys, hchain⟩ := hconflict.exists_conflict
  have hshown := Atom.shown_eq_ok_iff.2 ⟨hgiven key v w hconflict, rfl⟩
  exact ⟨keys, key, v, w, _, hchain, hshown, conflict_eq hshown v w⟩

/-- **What a merge is.** Layers that do not contain themselves are merged as they are to be, unless the
first conflict is at a key that is given as no text. -/
theorem mergesAsSpecified_iff (i j : ObjectId) (es fs : MapEntries) (supply : Supply)
    (hes : (Value.map i es).isAcyclic = true) (hfs : (Value.map j fs).IsDocument)
    (hbelow : (Value.map i es).bound ≤ supply) (habove : (Value.map j fs).bound ≤ supply) :
    MergesAsSpecified i j es fs supply ↔
      ∀ key v w, FirstConflict es fs key v w → key.textFault? = none := by
  have herror {fault : MergeFault} : merge (.map i es) (.map j fs) = .error fault ↔
      mergeEntries es fs = .error fault := merge_eq_error_iff hes hfs.isAcyclic
  constructor
  · intro h key v w hconflict
    obtain ⟨keys, hchain⟩ := hconflict.exists_conflict
    obtain ⟨shown, below, above, hfault⟩ := h.fails.2 ⟨_, v, w, hchain⟩
    have hfirst := hconflict.mergeEntries_eq hfs
    exact textFault?_of_conflict (Except.error.inj (hfirst.symm.trans (herror.1 hfault)))
  · intro hgiven
    refine ⟨⟨?_, ?_⟩, fun fault h => exists_report hfs hgiven (herror.1 h), fun hnone => ?_,
      agrees_overlay hes hfs _, editAll_overlay hbelow, editAll_overlay habove⟩
    · rintro ⟨shown, below, above, h⟩
      obtain ⟨keys, key, v, w, -, hchain, -⟩ := exists_report hfs hgiven (herror.1 h)
      exact ⟨_, v, w, hchain⟩
    · rintro ⟨keys, v, w, hchain⟩
      obtain ⟨fault, hfault⟩ := Result.exists_error_iff.2 (hchain.not_ok hfs)
      obtain ⟨_, _, v, w, shown, -, -, rfl⟩ := exists_report hfs hgiven hfault
      exact ⟨shown, _, _, herror.2 hfault⟩
    · obtain ⟨gs, hgs⟩ := exists_ok_of_no_conflict hfs hnone
      rw [merge_eq hes hfs.isAcyclic, hgs]
      exact ⟨gs, rfl, merged_of_ok hes hfs.isAcyclic hfs.keyed hgs⟩

/-- A layer that sets a timeout. -/
def limits (id : ObjectId) (timeout : Atom) : MapEntries :=
  [(.text "limits", .map id [(.text "timeout", .atom timeout)])]

-- numbers that are one key are one key of both layers, in the spelling of the lower one
example : merge (.map 1 ((.int 1, .atom .null) :: limits 2 (.int 30)))
    (.map 3 (limits 4 (.int 60) ++ [(.bool true, .list 5 []), (.text "debug", .atom .null)])) =
      .ok (.map 1 ((.int 1, .list 5 []) :: limits 2 (.int 60) ++ [(.text "debug", .atom .null)])) := by
  decide +kernel

/-- A truth value in the place of a number is a conflict, two keys down. -/
theorem mergesAsSpecified_limits :
    Conflict (limits 2 (.int 30)) (limits 4 (.bool true)) [.text "limits", .text "timeout"]
        (.int 30) (.bool true) ∧
      merge (.map 1 (limits 2 (.int 30))) (.map 3 (limits 4 (.bool true))) =
        .error (.fault (.typeConflict "timeout" "int" "bool")) ∧
      MergesAsSpecified 1 3 (limits 2 (.int 30)) (limits 4 (.bool true)) 5 := by
  have hinner : (Value.map 4 [(.text "timeout", .atom (.bool true))]).IsDocument :=
    .map (by decide) (by decide) (List.forall_mem_singleton.2 (.atom rfl))
  have hupper : (Value.map 3 (limits 4 (.bool true))).IsDocument :=
    .map (by decide) (by decide) (List.forall_mem_singleton.2 hinner)
  have hmerge : mergeEntries (limits 2 (.int 30)) (limits 4 (.bool true)) =
      .error (.fault (.typeConflict "timeout" "int" "bool")) := by decide +kernel
  refine ⟨.under List.mem_cons_self rfl (.here List.mem_cons_self rfl ⟨nofun, .inl rfl, by decide⟩),
    by decide +kernel, ?_⟩
  refine (mergesAsSpecified_iff 1 3 _ _ 5 (by decide) hupper (by decide) (by decide)).2 ?_
  intro key v w hfirst
  exact textFault?_of_conflict (Except.error.inj ((hfirst.mergeEntries_eq hupper).symm.trans hmerge))

/-- A key with too many digits to be given as text. -/
def longKey : Atom := .int (Int.pow 16 3600)

/-- A conflict at such a key is not reported as a conflict. -/
theorem not_mergesAsSpecified_longKey :
    merge (.map 1 [(longKey, .int 1)]) (.map 2 [(longKey, .text "x")]) =
        .error (.noText .numberTooLong) ∧
      ¬MergesAsSpecified 1 2 [(longKey, .int 1)] [(longKey, .text "x")] 3 := by
  have hmerge : merge (.map 1 [(longKey, .int 1)]) (.map 2 [(longKey, .text "x")]) =
      .error (.noText .numberTooLong) := by decide +kernel
  have hfind : find? Atom.same longKey [(longKey, Value.int 1)] = some (.int 1) := by decide +kernel
  have hchain : Conflict [(longKey, .int 1)] [(longKey, .text "x")] [longKey] (.int 1) (.text "x") :=
    .here List.mem_cons_self hfind ⟨nofun, .inl rfl, by decide⟩
  refine ⟨hmerge, fun h => ?_⟩
  obtain ⟨shown, below, above, hfault⟩ := h.fails.2 ⟨_, _, _, hchain⟩
  cases hmerge.symm.trans hfault

end Config

end ScopedFn
