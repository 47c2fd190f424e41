import Mathlib.Data.List.Basic
import ScopedFn.Proofs.Value.Document
import ScopedFn.Proofs.Value.Maps

/-!
# Values that lose keys

Removing keys from map objects shows wherever these objects stand. All removals together are one
function of the value, which takes from each map the keys that this object loses.

* `MapEntries.without` : the entries of a map without some keys;
* `Value.prune` : a value whose maps lose the keys that their identities stand for;
* `Value.editAll_eq_prune` : edits that remove keys, one after the other, prune the value;
* `Value.contents_prune_eq_iff` : a pruned value says the same as before iff none of its maps has
  any of the keys that it is to lose.
-/

set_option autoImplicit false

namespace ScopedFn

namespace MapEntries

open Entries (find? erase put)

variable {es fs : MapEntries} {key : String} {keys : List String} {k : Atom} {v : Value}

/-! ### One key -/

theorem Keyed.sublist (h : Keyed es) (hsub : fs.Sublist es) : Keyed fs :=
  ⟨fun e he => h.self e (hsub.subset he), h.distinct.sublist hsub⟩

theorem get?_erase (h : Keyed es) (k key : String) :
    get? (erase Atom.same (.text k) es) key = if k = key then none else get? es key := by
  unfold get?
  induction es with
  | nil => simp [erase, find?]
  | cons e es ih =>
    obtain ⟨he, hnew, hes⟩ := keyed_cons.1 h
    by_cases hk : e.1 = .text k
    · rw [erase, if_pos (Atom.same_text.2 hk), find?, hk]
      split_ifs with hkey hsame
      · rwa [← hkey, ← hk]
      · exact (hkey (Atom.text.inj (Atom.same_text.1 hsame))).elim
      · rfl
    · rw [erase, if_neg fun hsame => hk (Atom.same_text.1 hsame), find?, find?, ih hes]
      split_ifs with hsame hkey hkey
      · exact (hk (hkey ▸ Atom.same_text.1 hsame)).elim
      all_goals rfl

theorem erase_eq_self (h : get? es key = none) : erase Atom.same (.text key) es = es := by
  induction es with
  | nil => rfl
  | cons e es ih =>
    rw [get?, find?] at h
    split at h
    · cases h
    · rename_i hne
      rw [erase, if_neg hne, ih h]

/-- Removing a key shortens the entries unless it is absent. -/
theorem get?_of_length_erase (h : (erase Atom.same (.text key) es).length = es.length) :
    get? es key = none := by
  induction es with
  | nil => rfl
  | cons e es ih =>
    rw [erase] at h
    rw [get?, find?]
    split at h
    · rw [List.length_cons] at h
      omega
    · rename_i hne
      rw [if_neg hne]
      exact ih (Nat.succ.inj h)

/-- Removing a key does not depend on values. -/
theorem erase_map (f : Value → Value) (k : Atom) (es : MapEntries) :
    erase Atom.same k (es.map fun p => (p.1, f p.2)) =
      (erase Atom.same k es).map fun p => (p.1, f p.2) := by
  induction es with
  | nil => rfl
  | cons e es ih =>
    rw [List.map_cons, erase, erase, ih]
    split <;> rfl

/-! ### Several keys -/

/-- The entries without some keys. -/
def without (keys : List String) (es : MapEntries) : MapEntries :=
  keys.foldl (fun es key => erase Atom.same (.text key) es) es

theorem without_sublist (keys : List String) (es : MapEntries) : (without keys es).Sublist es := by
  induction keys generalizing es with
  | nil => exact List.Sublist.refl es
  | cons key keys ih => exact (ih _).trans (Entries.erase_sublist es)

theorem get?_without (h : Keyed es) (keys : List String) (key : String) :
    get? (without keys es) key = if key ∈ keys then none else get? es key := by
  induction keys generalizing es with
  | nil => rfl
  | cons k keys ih =>
    rw [without, List.foldl_cons]
    rw [← without, ih (h.sublist (Entries.erase_sublist es)), get?_erase h]
    simp only [List.mem_cons, eq_comm (a := k)]
    split_ifs <;> simp_all

theorem without_eq_self (h : ∀ key ∈ keys, get? es key = none) : without keys es = es := by
  induction keys with
  | nil => rfl
  | cons key keys ih =>
    obtain ⟨hkey, hkeys⟩ := List.forall_mem_cons.1 h
    rw [without, List.foldl_cons, erase_eq_self hkey]
    exact ih hkeys

/-- Keys are removed once. -/
theorem without_without (h : Keyed es) (keys : List String) :
    without keys (without keys es) = without keys es :=
  without_eq_self fun key hkey => (get?_without h keys key).trans (if_pos hkey)

theorem get?_of_length_without (h : (without keys es).length = es.length) :
    ∀ key ∈ keys, get? es key = none := by
  induction keys generalizing es with
  | nil => exact nofun
  | cons key keys ih =>
    have hrest : (without keys (erase Atom.same (.text key) es)).length = es.length := h
    have hle := (without_sublist keys (erase Atom.same (.text key) es)).length_le
    have hsub : (erase Atom.same (.text key) es).Sublist es := Entries.erase_sublist es
    have hle' := hsub.length_le
    have hone : get? es key = none := get?_of_length_erase (by omega)
    rw [erase_eq_self hone] at hrest
    exact List.forall_mem_cons.2 ⟨hone, ih hrest⟩

theorem without_map (f : Value → Value) (keys : List String) (es : MapEntries) :
    without keys (es.map fun p => (p.1, f p.2)) = (without keys es).map fun p => (p.1, f p.2) := by
  induction keys generalizing es with
  | nil => rfl
  | cons key keys ih =>
    rw [without, List.foldl_cons, erase_map]
    exact ih _

/-- What is found does not depend on other values. -/
theorem get?_map (f : Value → Value) (es : MapEntries) (key : String) :
    get? (es.map fun p => (p.1, f p.2)) key = (get? es key).map f := by
  unfold get?
  induction es with
  | nil => rfl
  | cons e es ih =>
    rw [List.map_cons, find?, find?, ih]
    split <;> rfl

end MapEntries

namespace Value

variable {K : ObjectId → List String} {v : Value} {es : MapEntries}

/-! ### Pruning -/

mutual

/-- The value without the keys that the identities of its maps stand for. -/
def prune (K : ObjectId → List String) : Value → Value
  | .list id items => .list id (pruneItems K items)
  | .tuple id items => .tuple id (pruneItems K items)
  | .map id es => .map id (MapEntries.without (K id) (pruneEntries K es))
  | v => v

/-- The items without these keys. -/
def pruneItems (K : ObjectId → List String) : List Value → List Value
  | [] => []
  | v :: vs => prune K v :: pruneItems K vs

/-- The entries without these keys inside. -/
def pruneEntries (K : ObjectId → List String) : List (Atom × Value) → List (Atom × Value)
  | [] => []
  | (k, v) :: es => (k, prune K v) :: pruneEntries K es

end

theorem pruneItems_eq (K : ObjectId → List String) (vs : List Value) :
    pruneItems K vs = vs.map (prune K) := by
  induction vs with
  | nil => rfl
  | cons v vs ih => rw [pruneItems, ih, List.map_cons]

theorem pruneEntries_eq (K : ObjectId → List String) (es : MapEntries) :
    pruneEntries K es = es.map fun p => (p.1, p.2.prune K) := by
  induction es with
  | nil => rfl
  | cons p es ih => rw [pruneEntries, ih, List.map_cons]

theorem pruneEntries_without (keys : List String) (es : MapEntries) :
    pruneEntries K (MapEntries.without keys es) = MapEntries.without keys (pruneEntries K es) := by
  rw [pruneEntries_eq, pruneEntries_eq, MapEntries.without_map]

theorem keyed_pruneEntries (h : es.Keyed) (K : ObjectId → List String) :
    MapEntries.Keyed (pruneEntries K es) := by
  refine h.of_keys ?_
  rw [pruneEntries_eq, List.map_map]
  rfl

/-- A value none of whose maps has a key that it is to lose stays as it is. -/
theorem prune_eq_self (h : ∀ m ∈ v.maps, ∀ key ∈ K m.1, MapEntries.get? m.2 key = none) :
    v.prune K = v := by
  induction v using Value.induction with
  | atom a | set id ms => rfl
  | list id items ih =>
    have hitems : ∀ v ∈ items, v.prune K = v := fun v hv =>
      ih v hv fun m hm => h m (mem_mapsOfItems.2 ⟨v, hv, hm⟩)
    rw [prune, pruneItems_eq, List.map_congr_left hitems, List.map_id']
  | tuple id items ih =>
    have hitems : ∀ v ∈ items, v.prune K = v := fun v hv =>
      ih v hv fun m hm => h m (mem_mapsOfItems.2 ⟨v, hv, hm⟩)
    rw [prune, pruneItems_eq, List.map_congr_left hitems, List.map_id']
  | map id es ih =>
    obtain ⟨hid, hes⟩ := List.forall_mem_cons.1 h
    have hentries : ∀ p ∈ es, (p.1, p.2.prune K) = p := fun p hp =>
      Prod.ext rfl (ih p hp fun m hm => hes m (mem_mapsOfEntries.2 ⟨p, hp, hm⟩))
    rw [prune, pruneEntries_eq, List.map_congr_left hentries, List.map_id',
      MapEntries.without_eq_self hid]

theorem length_contentsOfEntries (es : MapEntries) : (contentsOfEntries es).length = es.length := by
  rw [contentsOfEntries_eq, List.length_map]

/-- **A pruned value says the same as before** iff none of its maps has a key that it is to lose. -/
theorem contents_prune_eq_iff : (v.prune K).contents = v.contents ↔
    ∀ m ∈ v.maps, ∀ key ∈ K m.1, MapEntries.get? m.2 key = none := by
  refine ⟨fun h => ?_, fun h => by rw [prune_eq_self h]⟩
  have hof : ∀ items : List Value, (∀ v ∈ items, (v.prune K).contents = v.contents →
      ∀ m ∈ v.maps, ∀ key ∈ K m.1, MapEntries.get? m.2 key = none) →
      contentsOfItems (pruneItems K items) = contentsOfItems items →
      ∀ m ∈ mapsOfItems items, ∀ key ∈ K m.1, MapEntries.get? m.2 key = none := by
    intro items ih hitems m hm
    rw [pruneItems_eq, contentsOfItems_eq, contentsOfItems_eq, List.map_map,
      List.map_inj_left] at hitems
    obtain ⟨v, hv, hmv⟩ := mem_mapsOfItems.1 hm
    exact ih v hv (hitems v hv) m hmv
  induction v using Value.induction with
  | atom a | set id ms => exact nofun
  | list id items ih => exact hof items ih (Value.list.inj h).2
  | tuple id items ih => exact hof items ih (Value.tuple.inj h).2
  | map id es ih =>
    have hes := (Value.map.inj h).2
    -- as many entries as before, so no key has been removed here
    have hlength : (MapEntries.without (K id) (pruneEntries K es)).length =
        (pruneEntries K es).length := by
      rw [← length_contentsOfEntries, hes, length_contentsOfEntries, pruneEntries_eq,
        List.length_map]
    have habsent := MapEntries.get?_of_length_without hlength
    rw [MapEntries.without_eq_self habsent, pruneEntries_eq, contentsOfEntries_eq,
      contentsOfEntries_eq, List.map_map, List.map_inj_left] at hes
    refine List.forall_mem_cons.2 ⟨fun key hkey => ?_, fun m hm => ?_⟩
    · have hget := habsent key hkey
      rwa [pruneEntries_eq, MapEntries.get?_map, Option.map_eq_none_iff] at hget
    · obtain ⟨p, hp, hmp⟩ := mem_mapsOfEntries.1 hm
      exact ih p hp (Prod.mk.inj (hes p hp)).2 m hmp

/-! ### Edits -/

/-- The keys that a map loses by an edit. -/
def lostBy (id : ObjectId) (e : Edit) : List String :=
  match e.change with
  | .erase (.text key) => if id = e.target then [key] else []
  | _ => []

/-- The keys that each map loses by edits. -/
def lost (es : List Edit) (id : ObjectId) : List String := es.flatMap (lostBy id)

theorem editEntries_pruneEntries {e : Edit} {L : ObjectId → List String}
    (h : ∀ p ∈ es, (p.2.prune K).edit e = p.2.prune L) :
    editEntries e (pruneEntries K es) = pruneEntries L es := by
  rw [editEntries_eq, pruneEntries_eq, pruneEntries_eq, List.map_map]
  exact List.map_congr_left fun p hp => Prod.ext rfl (h p hp)

/-- An edit that removes a key prunes further. -/
theorem edit_prune {e : Edit} (he : e.Removes) (K : ObjectId → List String) (v : Value) :
    (v.prune K).edit e = v.prune fun id => K id ++ lostBy id e := by
  obtain ⟨key, hkey⟩ := he
  induction v using Value.induction with
  | atom a | set id ms => rfl
  | list id items ih =>
    rw [prune, edit, prune, pruneItems_eq, pruneItems_eq, editItems_eq, List.map_map]
    exact congrArg _ (List.map_congr_left ih)
  | tuple id items ih =>
    rw [prune, edit, prune, pruneItems_eq, pruneItems_eq, editItems_eq, List.map_map]
    exact congrArg _ (List.map_congr_left ih)
  | map id es ih =>
    have hentries : editEntries e (MapEntries.without (K id) (pruneEntries K es)) =
        MapEntries.without (K id) (pruneEntries (fun id => K id ++ lostBy id e) es) := by
      rw [← editEntries_pruneEntries ih, editEntries_eq, editEntries_eq, MapEntries.without_map]
    rw [prune, edit, prune, hentries]
    congr 1
    unfold lostBy
    rw [hkey]
    dsimp only
    split_ifs with hid
    · rw [Change.apply, MapEntries.without, MapEntries.without, List.foldl_append]
      rfl
    · rw [List.append_nil]

/-- **Edits that remove keys prune the value.** -/
theorem editAll_eq_prune {es : List Edit} (hes : ∀ e ∈ es, e.Removes) (v : Value) :
    v.editAll es = v.prune (lost es) := by
  have hall : ∀ K, (v.prune K).editAll es = v.prune fun id => K id ++ lost es id := by
    induction es with
    | nil =>
      intro K
      simp only [lost, List.flatMap_nil, List.append_nil]
      rfl
    | cons e es ih =>
      intro K
      obtain ⟨he, hes⟩ := List.forall_mem_cons.1 hes
      rw [editAll, List.foldl_cons, edit_prune he]
      refine (ih hes _).trans ?_
      simp only [lost, List.flatMap_cons, List.append_assoc]
  have hnone : v.prune (fun _ => []) = v :=
    prune_eq_self fun m _ key hkey => absurd hkey List.not_mem_nil
  rw [← hnone, hall, hnone]
  rfl

end Value

end ScopedFn
