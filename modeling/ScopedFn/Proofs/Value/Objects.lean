import Mathlib.Data.List.Basic
import Mathlib.Order.MinMax
import ScopedFn.Resource.Document

/-!
# The maps in a value

Edits concern map objects only, so the identities of the maps in a value decide what an edit can
do to it. A copy, and whatever is made anew, has maps of new identities, which no edit of older
objects concerns.

* `Value.objects` : the identities of the maps in a value;
* `Value.edit_eq_self` : an edit of another object leaves a value as it is;
* `Value.Fresh` : all maps of a value are made from some identity on, as those of a copy are.
-/

set_option autoImplicit false

namespace ScopedFn

namespace Atom

theorem same_text {a : Atom} {s : String} : a.same (.text s) = true ↔ a = .text s := by
  cases a <;> simp [same, integer?]

end Atom

namespace MapEntries

variable {es : MapEntries} {key : String}

theorem get_put (es : MapEntries) (k key : String) (v : Value) :
    get (Entries.put Atom.same (.text k) v es) key = if k = key then v else get es key := by
  unfold get get?
  split_ifs with h
  · rw [h, Entries.find?_put_self (Atom.same_text.2 rfl), Option.getD_some]
  · rw [Entries.find?_put_ne]
    · intro a ha
      rw [Atom.same_text.1 ha]
      simpa [Atom.same] using h
    · simpa [Atom.same] using h

theorem mem_of_get {v : Value} (h : get es key = v) (hv : v ≠ .null) : ∃ k, (k, v) ∈ es := by
  unfold get get? at h
  induction es with
  | nil => exact absurd h.symm hv
  | cons p es ih =>
    obtain ⟨k, u⟩ := p
    rw [Entries.find?] at h
    split at h
    · exact ⟨k, List.mem_cons.2 (.inl (by rw [← h]; rfl))⟩
    · obtain ⟨k', hmem⟩ := ih h
      exact ⟨k', List.mem_cons_of_mem _ hmem⟩

end MapEntries

namespace Value

/-- A property of values follows from that of the values inside. -/
@[elab_as_elim]
theorem induction {P : Value → Prop} (atom : ∀ a, P (.atom a))
    (list : ∀ id items, (∀ v ∈ items, P v) → P (.list id items))
    (tuple : ∀ id items, (∀ v ∈ items, P v) → P (.tuple id items))
    (map : ∀ id es, (∀ e ∈ es, P e.2) → P (.map id es)) (set : ∀ id ms, P (.set id ms))
    (v : Value) : P v := by
  refine Value.rec (motive_1 := P) (motive_2 := fun vs => ∀ v ∈ vs, P v)
    (motive_3 := fun es => ∀ e ∈ es, P e.2) (motive_4 := fun e => P e.2) atom list tuple map set
    ?_ ?_ ?_ ?_ ?_ v
  · simp
  · intro v vs hv hvs
    simpa using ⟨hv, hvs⟩
  · simp
  · intro e es he hes
    simpa using ⟨he, fun a b hab => hes (a, b) hab⟩
  · exact fun _ _ hv => hv

mutual

/-- The identities of the maps in a value. -/
def objects : Value → List ObjectId
  | .atom _ | .set _ _ => []
  | .list _ items | .tuple _ items => objectsOfItems items
  | .map id es => id :: objectsOfEntries es

/-- The identities of the maps in some items. -/
def objectsOfItems : List Value → List ObjectId
  | [] => []
  | v :: vs => objects v ++ objectsOfItems vs

/-- The identities of the maps in some entries. -/
def objectsOfEntries : List (Atom × Value) → List ObjectId
  | [] => []
  | (_, v) :: es => objects v ++ objectsOfEntries es

end

variable {id : ObjectId} {v : Value} {vs : List Value} {es : MapEntries} {e : Edit}

theorem mem_objectsOfItems : id ∈ objectsOfItems vs ↔ ∃ v ∈ vs, id ∈ v.objects := by
  induction vs with
  | nil => simp [objectsOfItems]
  | cons v vs ih => simp [objectsOfItems, ih]

theorem mem_objectsOfEntries : id ∈ objectsOfEntries es ↔ ∃ p ∈ es, id ∈ p.2.objects := by
  induction es with
  | nil => simp [objectsOfEntries]
  | cons p es ih => simp [objectsOfEntries, ih]

/-! ### Edits -/

theorem editItems_eq (e : Edit) (vs : List Value) : editItems e vs = vs.map (edit e) := by
  induction vs with
  | nil => rfl
  | cons v vs ih => rw [editItems, ih, List.map_cons]

theorem editEntries_eq (e : Edit) (es : MapEntries) :
    editEntries e es = es.map fun p => (p.1, p.2.edit e) := by
  induction es with
  | nil => rfl
  | cons p es ih => rw [editEntries, ih, List.map_cons]

theorem editItems_eq_self (h : ∀ v ∈ vs, v.edit e = v) : editItems e vs = vs := by
  rw [editItems_eq]
  exact (List.map_congr_left h).trans (List.map_id vs)

theorem editEntries_eq_self (h : ∀ p ∈ es, p.2.edit e = p.2) : editEntries e es = es := by
  have hid : ∀ p ∈ es, (p.1, p.2.edit e) = p := fun p hp => Prod.ext rfl (h p hp)
  rw [editEntries_eq]
  exact (List.map_congr_left hid).trans (List.map_id es)

/-- An edit of an object that is not in the value leaves it as it is. -/
theorem edit_eq_self (h : e.target ∉ v.objects) : v.edit e = v := by
  induction v using Value.induction with
  | atom a => rfl
  | set id ms => rfl
  | list id items ih =>
    rw [edit, editItems_eq_self fun v hv =>
      ih v hv fun hmem => h (mem_objectsOfItems.2 ⟨v, hv, hmem⟩)]
  | tuple id items ih =>
    rw [edit, editItems_eq_self fun v hv =>
      ih v hv fun hmem => h (mem_objectsOfItems.2 ⟨v, hv, hmem⟩)]
  | map id es ih =>
    obtain ⟨hid, hes⟩ := not_or.1 fun hor => h (List.mem_cons.2 hor)
    rw [edit, if_neg fun heq => hid heq.symm, editEntries_eq_self fun p hp =>
      ih p hp fun hmem => hes (mem_objectsOfEntries.2 ⟨p, hp, hmem⟩)]

theorem editAll_eq_self {es : List Edit} (h : ∀ e ∈ es, e.target ∉ v.objects) :
    v.editAll es = v := by
  induction es with
  | nil => rfl
  | cons e es ih =>
    rw [editAll, List.foldl_cons, edit_eq_self (h e List.mem_cons_self)]
    exact ih fun e' he' => h e' (List.mem_cons_of_mem e he')

theorem editAll_append (es es' : List Edit) (v : Value) :
    v.editAll (es ++ es') = (v.editAll es).editAll es' := List.foldl_append

/-! ### New maps -/

/-- All maps of the value are made from the identity on. -/
def Fresh (lo : Supply) (v : Value) : Prop := ∀ id ∈ v.objects, lo ≤ id

variable {lo : Supply}

theorem fresh_atom (a : Atom) : (Value.atom a).Fresh lo := fun _ h => absurd h List.not_mem_nil

theorem fresh_list : (Value.list id vs).Fresh lo ↔ ∀ v ∈ vs, v.Fresh lo := by
  simp only [Fresh, objects, mem_objectsOfItems]
  exact ⟨fun h v hv i hi => h i ⟨v, hv, hi⟩, fun h i ⟨v, hv, hi⟩ => h v hv i hi⟩

theorem fresh_tuple : (Value.tuple id vs).Fresh lo ↔ ∀ v ∈ vs, v.Fresh lo := @fresh_list id vs lo

theorem fresh_map : (Value.map id es).Fresh lo ↔ lo ≤ id ∧ ∀ p ∈ es, p.2.Fresh lo := by
  simp only [Fresh, objects, List.mem_cons, mem_objectsOfEntries, forall_eq_or_imp]
  exact and_congr_right fun _ => ⟨fun h p hp i hi => h i ⟨p, hp, hi⟩,
    fun h i ⟨p, hp, hi⟩ => h p hp i hi⟩

theorem fresh_set (id : ObjectId) (ms : List Atom) : (Value.set id ms).Fresh lo :=
  fun _ h => absurd h List.not_mem_nil

theorem Fresh.mono {lo' : Supply} (h : v.Fresh lo) (hle : lo' ≤ lo) : v.Fresh lo' :=
  fun i hi => le_trans hle (h i hi)

end Value

namespace MapEntries

/-- Looking a key up and editing commute. -/
theorem get_editEntries (e : Edit) (es : MapEntries) (key : String) :
    get (Value.editEntries e es) key = (get es key).edit e := by
  unfold get get?
  induction es with
  | nil => rfl
  | cons p es ih =>
    obtain ⟨k, v⟩ := p
    rw [Value.editEntries, Entries.find?, Entries.find?]
    split
    · rfl
    · exact ih

end MapEntries

/-- The change brings in new maps only. -/
def Change.Fresh (lo : Supply) : Change → Prop
  | .put _ v => v.Fresh lo
  | .erase _ => True

/-- The edit concerns a new map and brings in new maps only. -/
structure Edit.Fresh (lo : Supply) (e : Edit) : Prop where
  /-- The edited map is new. -/
  target : lo ≤ e.target
  /-- So is what is put into it. -/
  change : e.change.Fresh lo

/-- What the change brings in uses identities before the given one only. -/
def Change.Bounded (hi : ℕ) : Change → Prop
  | .put k v => k.bound ≤ hi ∧ v.bound ≤ hi
  | .erase _ => True

namespace Value

variable {lo : Supply} {e : Edit} {v : Value}

theorem fresh_apply {c : Change} {es : MapEntries} (hc : c.Fresh lo) (h : ∀ p ∈ es, p.2.Fresh lo) :
    ∀ p ∈ c.apply es, p.2.Fresh lo := by
  cases c with
  | put k v =>
    have hput := @Entries.forall_put _ _ Atom.same k v (fun _ => True) (Value.Fresh lo) es trivial hc
      fun p hp => ⟨trivial, h p hp⟩
    exact fun p hp => (hput p hp).2
  | erase k => exact fun p hp => h p ((Entries.erase_sublist es).subset hp)

/-- Edits of new maps keep what is new so. -/
theorem Fresh.edit (h : v.Fresh lo) (hc : e.change.Fresh lo) : (v.edit e).Fresh lo := by
  induction v using Value.induction with
  | atom a => exact h
  | set id ms => exact h
  | list id items ih =>
    rw [Value.edit, editItems_eq, fresh_list, List.forall_mem_map]
    exact fun v hv => ih v hv (fresh_list.1 h v hv)
  | tuple id items ih =>
    rw [Value.edit, editItems_eq, fresh_tuple, List.forall_mem_map]
    exact fun v hv => ih v hv (fresh_tuple.1 h v hv)
  | map id es ih =>
    obtain ⟨hid, hes⟩ := fresh_map.1 h
    have hin : ∀ p ∈ editEntries e es, p.2.Fresh lo := by
      rw [editEntries_eq, List.forall_mem_map]
      exact fun p hp => ih p hp (hes p hp)
    rw [Value.edit, fresh_map]
    refine ⟨hid, ?_⟩
    split
    · exact fresh_apply hc hin
    · exact hin

/-! ### Identities in use -/

section

variable {hi : ℕ} {vs : List Value} {es : MapEntries}

theorem boundItems_le_iff : boundItems vs ≤ hi ↔ ∀ v ∈ vs, v.bound ≤ hi := by
  induction vs with
  | nil => simp [boundItems]
  | cons v vs ih => rw [boundItems, max_le_iff, ih, List.forall_mem_cons]

theorem boundEntries_le_iff :
    boundEntries es ≤ hi ↔ ∀ p ∈ es, p.1.bound ≤ hi ∧ p.2.bound ≤ hi := by
  induction es with
  | nil => simp [boundEntries]
  | cons p es ih => rw [boundEntries, max_le_iff, max_le_iff, ih, List.forall_mem_cons]

theorem boundAll_le_iff {ms : List Atom} : Atom.boundAll ms ≤ hi ↔ ∀ a ∈ ms, a.bound ≤ hi := by
  induction ms with
  | nil => simp [Atom.boundAll]
  | cons a ms ih => rw [Atom.boundAll, max_le_iff, ih, List.forall_mem_cons]

theorem bound_list_le_iff {id : ObjectId} :
    (Value.list id vs).bound ≤ hi ↔ id < hi ∧ ∀ v ∈ vs, v.bound ≤ hi := by
  rw [bound, max_le_iff, boundItems_le_iff, Nat.succ_le_iff]

theorem bound_tuple_le_iff {id : ObjectId} :
    (Value.tuple id vs).bound ≤ hi ↔ id < hi ∧ ∀ v ∈ vs, v.bound ≤ hi :=
  @bound_list_le_iff hi vs id

theorem bound_map_le_iff {id : ObjectId} :
    (Value.map id es).bound ≤ hi ↔ id < hi ∧ ∀ p ∈ es, p.1.bound ≤ hi ∧ p.2.bound ≤ hi := by
  rw [bound, max_le_iff, boundEntries_le_iff, Nat.succ_le_iff]

theorem bound_set_le_iff {id : ObjectId} {ms : List Atom} :
    (Value.set id ms).bound ≤ hi ↔ id < hi ∧ ∀ a ∈ ms, a.bound ≤ hi := by
  rw [bound, max_le_iff, boundAll_le_iff, Nat.succ_le_iff]

theorem lt_of_mem_objects {id : ObjectId} (hv : v.bound ≤ hi) (h : id ∈ v.objects) : id < hi := by
  induction v using Value.induction with
  | atom a => simp [objects] at h
  | set id ms => simp [objects] at h
  | list i items ih =>
    obtain ⟨v, hmem, hid⟩ := mem_objectsOfItems.1 h
    exact ih v hmem ((bound_list_le_iff.1 hv).2 v hmem) hid
  | tuple i items ih =>
    obtain ⟨v, hmem, hid⟩ := mem_objectsOfItems.1 h
    exact ih v hmem ((bound_tuple_le_iff.1 hv).2 v hmem) hid
  | map i es ih =>
    obtain ⟨hlt, hes⟩ := bound_map_le_iff.1 hv
    obtain rfl | hin := List.mem_cons.1 h
    · exact hlt
    · obtain ⟨p, hmem, hid⟩ := mem_objectsOfEntries.1 hin
      exact ih p hmem (hes p hmem).2 hid

theorem bounded_apply {c : Change} (hc : c.Bounded hi)
    (h : ∀ p ∈ es, p.1.bound ≤ hi ∧ p.2.bound ≤ hi) :
    ∀ p ∈ c.apply es, p.1.bound ≤ hi ∧ p.2.bound ≤ hi := by
  cases c with
  | put k v =>
    exact @Entries.forall_put _ _ Atom.same k v (·.bound ≤ hi) (·.bound ≤ hi) es hc.1 hc.2 h
  | erase k => exact fun p hp => h p ((Entries.erase_sublist es).subset hp)

/-- An edit brings no identity from outside into a value. -/
theorem bound_edit_le (h : v.bound ≤ hi) (hc : e.change.Bounded hi) : (v.edit e).bound ≤ hi := by
  induction v using Value.induction with
  | atom a => exact h
  | set id ms => exact h
  | list id items ih =>
    obtain ⟨hid, hitems⟩ := bound_list_le_iff.1 h
    rw [Value.edit, editItems_eq, bound_list_le_iff, List.forall_mem_map]
    exact ⟨hid, fun v hv => ih v hv (hitems v hv)⟩
  | tuple id items ih =>
    obtain ⟨hid, hitems⟩ := bound_tuple_le_iff.1 h
    rw [Value.edit, editItems_eq, bound_tuple_le_iff, List.forall_mem_map]
    exact ⟨hid, fun v hv => ih v hv (hitems v hv)⟩
  | map id es ih =>
    obtain ⟨hid, hes⟩ := bound_map_le_iff.1 h
    have hin : ∀ p ∈ editEntries e es, p.1.bound ≤ hi ∧ p.2.bound ≤ hi := by
      rw [editEntries_eq, List.forall_mem_map]
      exact fun p hp => ⟨(hes p hp).1, ih p hp (hes p hp).2⟩
    rw [Value.edit, bound_map_le_iff]
    refine ⟨hid, ?_⟩
    split
    · exact bounded_apply hc hin
    · exact hin

end

/-! ### Copies -/

theorem shiftItems_eq (k : Nat) (vs : List Value) : shiftItems k vs = vs.map (shift k) := by
  induction vs with
  | nil => rfl
  | cons v vs ih => rw [shiftItems, ih, List.map_cons]

theorem shiftEntries_eq (k : Nat) (es : MapEntries) :
    shiftEntries k es = es.map fun p => (p.1.shift k, p.2.shift k) := by
  induction es with
  | nil => rfl
  | cons p es ih => rw [shiftEntries, ih, List.map_cons]

theorem allPlain_iff {vs : List Value} : allPlain vs = true ↔ ∀ v ∈ vs, v.isPlain = true := by
  induction vs with
  | nil => simp [allPlain]
  | cons v vs ih => simp [allPlain, ih]

/-- A plain value holds no maps. -/
theorem objects_eq_nil (h : v.isPlain = true) : v.objects = [] := by
  induction v using Value.induction with
  | atom a => rfl
  | tuple id items ih =>
    rw [isPlain, allPlain_iff] at h
    refine List.eq_nil_iff_forall_not_mem.2 fun i hi => ?_
    obtain ⟨v, hv, hmem⟩ := mem_objectsOfItems.1 hi
    rw [ih v hv (h v hv)] at hmem
    exact List.not_mem_nil hmem
  | list id items ih => simp [isPlain] at h
  | map id es ih => simp [isPlain] at h
  | set id ms => rfl

/-- The maps of a copy are new. -/
theorem fresh_shift (k : Supply) (v : Value) : (v.shift k).Fresh k := by
  induction v using Value.induction with
  | atom a => exact fresh_atom _
  | set id ms => exact fresh_set _ _
  | list id items ih =>
    rw [shift, shiftItems_eq, fresh_list, List.forall_mem_map]
    exact ih
  | tuple id items ih =>
    rw [shift]
    split
    · -- a plain tuple stays the object it is, and holds no maps
      rename_i hplain
      have hnil : (Value.tuple id items).objects = [] := objects_eq_nil hplain
      exact fun i hi => absurd (hnil ▸ hi) List.not_mem_nil
    · rw [shiftItems_eq, fresh_tuple, List.forall_mem_map]
      exact ih
  | map id es ih =>
    rw [shift, shiftEntries_eq, fresh_map, List.forall_mem_map]
    exact ⟨Nat.le_add_left k id, ih⟩

end Value

/-! ### Resources -/

namespace Resource

variable {lo : Supply} {e : Edit} {r : Resource}

theorem toValue_edit (e : Edit) (r : Resource) : (r.edit e).toValue = r.toValue.edit e := by
  rw [toValue, toValue, Value.edit, edit]

theorem toValue_injective : Function.Injective toValue := by
  rintro ⟨id, es⟩ ⟨id', es'⟩ h
  obtain ⟨rfl, rfl⟩ := Value.map.inj h
  rfl

theorem toValue_editAll (es : List Edit) (r : Resource) :
    (r.editAll es).toValue = r.toValue.editAll es := by
  induction es generalizing r with
  | nil => rfl
  | cons e es ih => exact (ih (r.edit e)).trans (congrArg (Value.editAll es) (toValue_edit e r))

theorem editAll_append (es es' : List Edit) (r : Resource) :
    r.editAll (es ++ es') = (r.editAll es).editAll es' := List.foldl_append

/-- Edits of new maps leave older resources as they are. -/
theorem editAll_eq_self {es : List Edit} (hr : r.toValue.bound ≤ lo) (hes : ∀ e ∈ es, e.Fresh lo) :
    r.editAll es = r := by
  refine toValue_injective ((toValue_editAll es r).trans (Value.editAll_eq_self fun e he hmem => ?_))
  exact absurd (Value.lt_of_mem_objects hr hmem) (not_lt.2 (hes e he).target)

theorem fresh_copy (r : Resource) (supply : Supply) : (r.copy.run supply).1.toValue.Fresh supply :=
  Value.fresh_shift supply r.toValue

end Resource

end ScopedFn
