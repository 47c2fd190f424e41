import Mathlib.Data.List.Nodup
import ScopedFn.Proofs.Resource.Metadata
import ScopedFn.Proofs.Resource.Removal

/-!
# Resources that share nothing

In a resource whose maps each stand at one place, an edit is seen at one place. Setting and removing
annotations keep it so: the maps that are made have new identities.

* `Resource.Unshared` : each map stands at one place, and some identities are not in use;
* `Resource.Unshared.annotate_eq` : setting an annotation does nothing else;
* `Resource.Unshared.unannotate_eq` : removing one does nothing else;
* `Resource.Unshared.annotatedWith`, `Resource.Unshared.unannotate` : afterwards nothing is shared
  either.
-/

set_option autoImplicit false

namespace ScopedFn

open Entries (put erase)

namespace MapEntries

variable {fresh id id' : ObjectId} {key part : String} {v : Value} {parts : List String}
  {es inner : MapEntries}

/-- A map under a key, in a map in which each map stands at one place, stands neither beside the key
nor above it, nor does any map in it. -/
theorem nodup_below (hat : mapAt? es part = some (id', inner))
    (h : (Value.map id es).objects.Nodup) :
    (Value.map id' inner).objects.Nodup ∧ ∀ t ∈ (Value.map id' inner).objects,
      id ≠ t ∧ (Value.objectsBeside es part).count t = 0 := by
  refine ⟨List.nodup_iff_count_le_one.2 fun t => ?_, fun t ht => ?_⟩
  · have hcount := List.nodup_iff_count_le_one.1 h t
    rw [Value.objects, List.count_cons, @Value.count_objects _ es part,
      mapAt?_eq_some.1 hat] at hcount
    omega
  · have hmem : t ∈ (Value.map id es).objects :=
      List.mem_cons_of_mem _ (mem_objects_of_mapAt? hat ht)
    obtain ⟨hne, hbeside, -⟩ := count_below hat ht (List.count_eq_one_of_mem h hmem)
    exact ⟨hne, hbeside⟩

/-- Setting a key at the end of a path puts no map at a second place. -/
theorem nodup_putIn (hv : v.objects = []) (hfresh : ∀ i ∈ (Value.map id es).objects, i < fresh)
    (h : (Value.map id es).objects.Nodup) :
    (Value.map id (putIn fresh key v parts es)).objects.Nodup := by
  induction parts generalizing fresh id es with
  | nil =>
    refine List.nodup_iff_count_le_one.2 fun t => ?_
    have hcount := List.nodup_iff_count_le_one.1 h t
    rw [Value.objects, List.count_cons, @Value.count_objects _ es key] at hcount
    rw [putIn, Value.objects, List.count_cons, Value.count_objects_put, hv, List.count_nil]
    omega
  | cons part parts ih =>
    obtain ⟨m, hm⟩ : ∃ m, (mapAt? es part).getD (fresh, []) = m := ⟨_, rfl⟩
    -- the map under the key, which may be new, stands nowhere else
    have hinner : (Value.map m.1 m.2).objects.Nodup ∧
        (∀ i ∈ (Value.map m.1 m.2).objects, i < fresh + 1) ∧
        ∀ t ∈ (Value.map m.1 m.2).objects, id ≠ t ∧ (Value.objectsBeside es part).count t = 0 := by
      cases hat : mapAt? es part with
      | none =>
        rw [hat, Option.getD_none] at hm
        subst hm
        have hsingle : ∀ i ∈ (Value.map fresh []).objects, i = fresh :=
          fun i => List.mem_singleton.1
        exact ⟨List.nodup_singleton fresh, fun i hi => Nat.lt_succ_of_le (hsingle i hi).le,
          fun t ht => absent_of_le hfresh (hsingle t ht).ge⟩
      | some m' =>
        rw [hat, Option.getD_some] at hm
        subst hm
        obtain ⟨hnodup, habsent⟩ := nodup_below hat h
        exact ⟨hnodup, fun i hi => Nat.lt_succ_of_lt
          (hfresh i (List.mem_cons_of_mem _ (mem_objects_of_mapAt? hat hi))), habsent⟩
    obtain ⟨hnodup, hlt, habsent⟩ := hinner
    have hbelow := ih hlt hnodup
    rw [putIn, hm]
    refine List.nodup_iff_count_le_one.2 fun t => ?_
    by_cases ht : t ∈ (Value.map m.1 (putIn (fresh + 1) key v parts m.2)).objects
    · have haway : id ≠ t ∧ (Value.objectsBeside es part).count t = 0 := by
        obtain hold | hnew := mem_objects_putIn hv ht
        · exact habsent t hold
        · exact absent_of_le hfresh ((Nat.le_succ fresh).trans hnew)
      rw [count_put_of_absent haway]
      exact List.nodup_iff_count_le_one.1 hbelow t
    · have hcount := List.nodup_iff_count_le_one.1 h t
      rw [Value.objects, List.count_cons, @Value.count_objects _ es part] at hcount
      rw [Value.objects, List.count_cons, Value.count_objects_put, List.count_eq_zero.2 ht]
      omega

end MapEntries

namespace Value

variable {v : Value} {e : Edit}

/-- An edit keeps keys different if its change does. -/
theorem keyed_edit (h : ∀ m ∈ v.maps, MapEntries.Keyed m.2)
    (hchange : ∀ es : MapEntries, es.Keyed → MapEntries.Keyed (e.change.apply es))
    (hnew : ∀ m ∈ e.change.maps, MapEntries.Keyed m.2) :
    ∀ m ∈ (v.edit e).maps, MapEntries.Keyed m.2 := by
  intro m hm
  obtain ⟨es, hes, heq⟩ | hin := edited_maps hm
  · rw [heq]
    unfold entriesAfter
    have hkeyed := Resource.keyed_editEntries (h _ hes) e
    split
    · exact hchange _ hkeyed
    · exact hkeyed
  · exact hnew m hin

end Value

namespace Resource

variable {r : Resource} {supply : Supply} {m : Meta} {key value : String} {e : Edit}
  {fresh fresh' : ObjectId}

/-- Each map stands at one place, the keys of each map differ, and the identities from the given one
on are not in use. -/
structure Unshared (supply : Supply) (r : Resource) : Prop where
  nodup : r.toValue.objects.Nodup
  keyed : ∀ m ∈ r.toValue.maps, MapEntries.Keyed m.2
  bound : r.toValue.bound ≤ supply

theorem Unshared.coherent (h : r.Unshared supply) : Coherent r.toValue.maps := by
  have hnodup : (r.toValue.maps.map Prod.fst).Nodup := Value.map_fst_maps r.toValue ▸ h.nodup
  exact fun a ha b hb hab => List.inj_on_of_nodup_map hnodup ha hb hab

theorem Unshared.count_place (h : r.Unshared supply) : r.toValue.objects.count r.place = 1 :=
  List.count_eq_one_of_mem h.nodup r.place_mem_objects

/-! ### Setting an annotation -/

/-- The maps that setting an annotation brings in have different keys. -/
theorem keyed_annotationEdit (h : r.annotationEdit fresh fresh' key value = .ok e) :
    (∀ es : MapEntries, es.Keyed → MapEntries.Keyed (e.change.apply es)) ∧
      ∀ m ∈ e.change.maps, MapEntries.Keyed m.2 := by
  have hself : ∀ s, (Atom.text s).same (.text s) = true := fun s => Atom.same_text.2 rfl
  have hsingle : ∀ (s : String) (v : Value), MapEntries.Keyed [(.text s, v)] := fun s v =>
    MapEntries.keyed_cons.2 ⟨hself s, rfl, MapEntries.keyed_nil⟩
  have hput : ∀ (s : String) (v : Value) (es : MapEntries), es.Keyed →
      MapEntries.Keyed ((Change.put (.text s) v).apply es) := fun s v es hes => hes.put (hself s) v
  obtain ⟨-, rfl⟩ | ⟨id, es, -, rfl | ⟨id', es', -, rfl⟩⟩ := annotationEdit_cases h
  · exact ⟨hput _ _,
      List.forall_mem_cons.2 ⟨hsingle _ _, List.forall_mem_singleton.2 (hsingle _ _)⟩⟩
  · exact ⟨hput _ _, List.forall_mem_singleton.2 (hsingle _ _)⟩
  · exact ⟨hput _ _, nofun⟩

/-- **Setting an annotation does nothing else**, and it can be set if the metadata can be read. -/
theorem Unshared.annotate_eq (h : r.Unshared supply) (hread : r.getMeta = .ok m)
    (key value : String) :
    r.annotate supply (supply + 1) key value = .ok (r.annotatedWith supply key value) := by
  obtain ⟨e, hedit⟩ := (annotatable_of_getMeta hread).exists_edit supply (supply + 1) key value
  rw [annotate, hedit]
  exact congrArg Except.ok (edit_eq_annotatedWith hedit h.count_place)

theorem Unshared.annotatedWith (h : r.Unshared supply) (hread : r.getMeta = .ok m)
    (key value : String) : (r.annotatedWith supply key value).Unshared (supply + 2) := by
  obtain ⟨e, hedit⟩ := (annotatable_of_getMeta hread).exists_edit supply (supply + 1) key value
  have heq : (r.annotatedWith supply key value).toValue = r.toValue.edit e := by
    rw [← edit_eq_annotatedWith hedit h.count_place, toValue_edit]
  obtain ⟨hchange, hnew⟩ := keyed_annotationEdit hedit
  refine ⟨?_, ?_, ?_⟩
  · exact MapEntries.nodup_putIn rfl (fun i hi => Value.lt_of_mem_objects h.bound hi) h.nodup
  · rw [heq]
    exact Value.keyed_edit h.keyed hchange hnew
  · rw [heq]
    exact Value.bound_edit_le (h.bound.trans (Nat.le_add_right supply 2))
      (bounded_annotationEdit hedit (Nat.lt_add_of_pos_right (Nat.succ_pos 1)) (Nat.lt_succ_self _))

/-! ### Removing an annotation -/

theorem Unshared.losing_subset (h : r.Unshared supply) (keys : List String) :
    r.losing keys ⊆ r.toValue.objects := by
  intro i hi
  obtain ⟨id, es, id', ann, hholds⟩ | ⟨-, hnil, -⟩ := holds_or h.keyed h.coherent keys
  · have hid : (id, es) ∈ r.toValue.maps := List.mem_cons_of_mem _ hholds.mem_metadata
    have hid' : (id', ann) ∈ r.toValue.maps :=
      Value.maps_subset hid (List.mem_cons_of_mem _ hholds.mem_annotations)
    rw [← Value.map_fst_maps]
    obtain ⟨rfl, -⟩ | ⟨rfl, -⟩ := hholds.mem_losing.1 hi
    · exact List.mem_map_of_mem hid'
    · exact List.mem_map_of_mem hid
  · rw [hnil] at hi
    exact absurd hi List.not_mem_nil

/-- **Removing an annotation does nothing else.** -/
theorem Unshared.unannotate_eq (h : r.Unshared supply) (key : String) :
    r.unannotate key = r.stripped [key] := by
  have hcount : ∀ i ∈ r.losing [key], r.toValue.objects.count i = 1 := fun i hi =>
    List.count_eq_one_of_mem h.nodup (h.losing_subset [key] hi)
  have hedits : Envelope.removals r [key] = r.removalEdits key := List.append_nil _
  rw [← editAll_removals_eq h.keyed h.coherent (List.cons_ne_nil _ _) hcount, hedits, unannotate]

theorem Unshared.edit (h : r.Unshared supply) (he : e.Removes) : (r.edit e).Unshared supply := by
  obtain ⟨k, hk⟩ := he
  refine ⟨?_, ?_, ?_⟩
  · rw [toValue_edit]
    exact h.nodup.sublist (Value.objects_edit_sublist ⟨k, hk⟩ _)
  · rw [toValue_edit]
    refine Value.keyed_edit h.keyed (fun es hes => ?_) ?_
    · rw [hk]
      exact hes.sublist (Entries.erase_sublist es)
    · rw [hk]
      exact nofun
  · rw [toValue_edit]
    exact Value.bound_editAll_le (List.forall_mem_singleton.2 ⟨k, hk⟩) h.bound

theorem Unshared.editAll {edits : List Edit} (h : r.Unshared supply)
    (hedits : ∀ e ∈ edits, e.Removes) : (r.editAll edits).Unshared supply := by
  induction edits generalizing r with
  | nil => exact h
  | cons e edits ih =>
    obtain ⟨he, hedits⟩ := List.forall_mem_cons.1 hedits
    exact ih (h.edit he) hedits

theorem Unshared.unannotate (h : r.Unshared supply) (key : String) :
    (r.unannotate key).Unshared supply := h.editAll (removes_removalEdits key r)

end Resource

end ScopedFn
