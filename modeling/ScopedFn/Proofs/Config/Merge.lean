import Mathlib.Data.List.Induction
import ScopedFn.Config.Merge
import ScopedFn.Proofs.Result
import ScopedFn.Proofs.Value.Circular

/-!
# What merging gives

Layers that do not contain themselves are merged by going through the parts of the upper one. Its
entries come one after the other, but what merging gives for a key depends on the two values of that
key only, and where it fails there is a chain of keys, present in both layers, that leads to two values
which cannot be laid over each other.

* `Config.mergeMaps_eq_of_le` : where merging comes to an end, it does so at any greater depth;
* `Config.mergeEntries` : merging by way of the parts of the upper layer;
* `Config.merge_eq` : layers that do not contain themselves are merged so;
* `Config.Lays` : one value laid over another gives a third;
* `Config.find?_mergeEntries`, `Config.map_fst_mergeEntries` : the values and the keys of a merged map;
* `Config.exists_mergeEntries_iff` : merging succeeds iff it does so for each key;
* `Config.Conflict.not_ok`, `Config.exists_ok_of_no_conflict` : merging fails iff there is a chain of keys
  to a conflict;
* `Config.firstConflict_of_error`, `Config.FirstConflict.mergeEntries_eq` : its fault is that of the first one;
* `Config.merged_of_ok` : what a merged map holds.
-/

set_option autoImplicit false

namespace ScopedFn

namespace Config

open Entries (find? put has)

variable {v w u : Value} {es fs gs : MapEntries} {k : Atom} {fault : MergeFault}

/-! ### Depth -/

section Depth

variable {upper : Value} {f : Atom × Value}
  {merged merged' : ObjectId → MapEntries → ObjectId → MapEntries → Except MergeFault MapEntries}

/-- Where laying one value over another ends, it ends so wherever merging maps does. -/
theorem lay_congr
    (hmerged : ∀ i es j fs, merged i es j fs ≠ .error .endless → merged' i es j fs = merged i es j fs)
    (h : lay merged k v w ≠ .error .endless) : lay merged' k v w = lay merged k v w := by
  unfold lay at h ⊢
  split
  · next i es j fs =>
    have hmaps : merged i es j fs ≠ .error .endless := fun hend => h (by simp [hend, Except.map])
    rw [hmerged i es j fs hmaps]
  · rfl
  · rfl

theorem layEntry_congr {i : ObjectId}
    (hmerged : ∀ i es j fs, merged i es j fs ≠ .error .endless → merged' i es j fs = merged i es j fs)
    (h : layEntry merged i upper es f ≠ .error .endless) :
    layEntry merged' i upper es f = layEntry merged i upper es f := by
  unfold layEntry at h ⊢
  dsimp only at h ⊢
  split
  · rfl
  · next old hold =>
    simp only [hold] at h
    rw [lay_congr hmerged fun hend => h (by rw [hend]; rfl)]

/-- **Depth does not matter** where merging comes to an end: at any greater depth it ends in the same
way. -/
theorem mergeMaps_eq_of_le {depth depth' : ℕ} {i j : ObjectId} (hle : depth ≤ depth')
    (h : mergeMaps depth i es j fs ≠ .error .endless) :
    mergeMaps depth' i es j fs = mergeMaps depth i es j fs := by
  induction depth generalizing depth' i es j fs with
  | zero => exact absurd rfl h
  | succ depth ih =>
    obtain ⟨depth', rfl⟩ := Nat.exists_eq_add_one_of_ne_zero (Nat.ne_zero_of_lt hle)
    have hmerged : ∀ i es j fs, mergeMaps depth i es j fs ≠ .error .endless →
        mergeMaps depth' i es j fs = mergeMaps depth i es j fs :=
      fun _ _ _ _ => ih (Nat.le_of_succ_le_succ hle)
    rw [mergeMaps] at h ⊢
    rw [mergeMaps]
    generalize Value.map j fs = upper at h ⊢
    induction fs generalizing es with
    | nil => rfl
    | cons f fs ihfs =>
      rw [List.foldlM_cons] at h ⊢
      rw [List.foldlM_cons, layEntry_congr hmerged fun hend => h (by rw [hend]; rfl)]
      cases hstep : layEntry (mergeMaps depth) i upper es f with
      | error fault => rfl
      | ok gs =>
        rw [hstep] at h
        exact ihfs h

end Depth

/-! ### Going through the upper layer -/

mutual

/-- The value of a key that both layers have. -/
def mergeValue (key : Atom) (below : Value) : Value → Except MergeFault Value
  | .map id es =>
    match below with
    | .map below_id below_es => (mergeEntries below_es es).map (.map below_id)
    | v => .error (conflict key v (.map id es))
  | .list id items => .ok (.list id items)
  | v => if below.typeName = v.typeName then .ok v else .error (conflict key below v)

/-- Lays entries over those of a map, one after the other. -/
def mergeEntries (below : MapEntries) : List (Atom × Value) → Except MergeFault MapEntries
  | [] => .ok below
  | (k, v) :: es =>
    match find? Atom.same k below with
    | none => mergeEntries (put Atom.same k v below) es
    | some old =>
      match mergeValue k old v with
      | .error fault => .error fault
      | .ok merged => mergeEntries (put Atom.same k merged below) es

end

theorem typeName_eq_dict_iff : v.typeName = "dict" ↔ ∃ id es, v = .map id es := by
  cases v with
  | atom a => cases a <;> simp [Value.typeName, Value.atomTypeName]
  | _ => simp [Value.typeName]

/-- One value is laid over another in the same way, if maps are merged in the same way. -/
theorem lay_eq {merged : ObjectId → MapEntries → ObjectId → MapEntries → Except MergeFault MapEntries}
    (h : ∀ i es j fs, v = .map i es → w = .map j fs → merged i es j fs = mergeEntries es fs) :
    lay merged k v w = mergeValue k v w := by
  cases w with
  | map j fs =>
    by_cases hv : ∃ i es, v = .map i es
    · obtain ⟨i, es, rfl⟩ := hv
      rw [lay, h i es j fs rfl rfl, mergeValue]
    · have htype : v.typeName ≠ "dict" := mt typeName_eq_dict_iff.1 hv
      cases v <;> first | exact absurd ⟨_, _, rfl⟩ hv | simp_all [lay, mergeValue, Value.typeName]
  | list j items => cases v <;> simp [lay, mergeValue]
  | _ => cases v <;> simp [lay, mergeValue]

/-- Merging keeps free of references to what is around. -/
theorem areAcyclic_mergeEntries_of
    (h : ∀ f ∈ fs, ∀ k v u, v.isAcyclic = true → mergeValue k v f.2 = .ok u → u.isAcyclic = true)
    (hes : Value.areAcyclic es = true) (hfs : Value.areAcyclic fs = true)
    (hgs : mergeEntries es fs = .ok gs) : Value.areAcyclic gs = true := by
  induction fs generalizing es with
  | nil =>
    obtain rfl := Except.ok.inj hgs
    exact hes
  | cons f fs ih =>
    obtain ⟨k, w⟩ := f
    obtain ⟨hw, hrest⟩ := List.forall_mem_cons.1 h
    obtain ⟨hacyclic, hacyclics⟩ := Bool.and_eq_true_iff.1 hfs
    rw [mergeEntries] at hgs
    split at hgs
    · exact ih hrest (Value.areAcyclic_put hes hacyclic k) hacyclics hgs
    · next old hold =>
      split at hgs
      · cases hgs
      · next u hu =>
        obtain ⟨key, hmem, -⟩ := MapEntries.exists_mem_of_find? hold
        have hu' := hw k old u (Value.isAcyclic_of_mem hes hmem) hu
        exact ih hrest (Value.areAcyclic_put hes hu' k) hacyclics hgs

theorem isAcyclic_mergeValue (hv : v.isAcyclic = true) (hw : w.isAcyclic = true)
    (h : mergeValue k v w = .ok u) : u.isAcyclic = true := by
  induction w using Value.induction generalizing k v u with
  | map j fs ih =>
    cases v with
    | map i es =>
      obtain ⟨gs, hgs, rfl⟩ := Result.ok_of_map h
      exact areAcyclic_mergeEntries_of
        (fun f hf k v u hv' hu => ih f hf hv' (Value.areAcyclic_iff.1 hw f hf) hu) hv hw hgs
    | _ => cases h
  | list j items =>
    obtain rfl := Except.ok.inj h
    exact hw
  | _ =>
    rw [mergeValue] at h
    · split_ifs at h
      obtain rfl := Except.ok.inj h
      exact hw
    all_goals simp

theorem areAcyclic_mergeEntries (hes : Value.areAcyclic es = true) (hfs : Value.areAcyclic fs = true)
    (h : mergeEntries es fs = .ok gs) : Value.areAcyclic gs = true :=
  areAcyclic_mergeEntries_of (fun f hf _ _ _ hv hu =>
    isAcyclic_mergeValue hv (Value.areAcyclic_iff.1 hfs f hf) hu) hes hfs h

theorem size_lt_of_mem {f : Atom × Value} (hf : f ∈ fs) : f.2.size ≤ Value.sizeOfEntries fs := by
  induction fs with
  | nil => cases hf
  | cons g fs ih =>
    rw [Value.sizeOfEntries]
    rcases List.mem_cons.1 hf with rfl | hf
    · exact Nat.le_add_right _ _
    · exact le_trans (ih hf) (Nat.le_add_left _ _)

/-- Where nothing refers to what is around it, parts are merged as they are. Each step down leads to
a smaller part of the upper layer. -/
theorem mergeMaps_eq {depth : ℕ} {i j : ObjectId} (hes : Value.areAcyclic es = true)
    (hfs : Value.areAcyclic fs = true) (hdepth : Value.sizeOfEntries fs < depth) :
    mergeMaps depth i es j fs = mergeEntries es fs := by
  induction depth generalizing i es j fs with
  | zero => cases hdepth
  | succ depth ih =>
    rw [mergeMaps]
    have hparts : ∀ f ∈ fs, f.2.isAcyclic = true ∧ f.2.size ≤ depth := fun f hf =>
      ⟨Value.areAcyclic_iff.1 hfs f hf, le_trans (size_lt_of_mem hf) (Nat.le_of_lt_succ hdepth)⟩
    generalize Value.map j fs = upper
    clear hfs hdepth
    induction fs generalizing es with
    | nil => rfl
    | cons f fs ihfs =>
      obtain ⟨k, w⟩ := f
      obtain ⟨⟨hw, hsize⟩, hrest⟩ := List.forall_mem_cons.1 hparts
      rw [List.foldlM_cons, mergeEntries, layEntry, Value.inside_of_isAcyclic hw,
        Value.beside_of_isAcyclic hw]
      cases hold : find? Atom.same k es with
      | none => exact ihfs (Value.areAcyclic_put hes hw k) hrest
      | some old =>
        obtain ⟨key, hmem, -⟩ := MapEntries.exists_mem_of_find? hold
        have hacyclic := Value.isAcyclic_of_mem hes hmem
        have hlay : lay (mergeMaps depth) k old w = mergeValue k old w := by
          refine lay_eq fun i es' j fs' hold hw' => ?_
          subst hold hw'
          exact ih hacyclic hw hsize
        dsimp only
        rw [Value.inside_of_isAcyclic hacyclic, Value.beside_of_isAcyclic hacyclic, hlay]
        cases hu : mergeValue k old w with
        | error fault => rfl
        | ok u => exact ihfs (Value.areAcyclic_put hes (isAcyclic_mergeValue hacyclic hw hu) k) hrest

/-- **Layers that do not contain themselves** are merged by going through the upper one. -/
theorem merge_eq {i j : ObjectId} (hes : Value.areAcyclic es = true)
    (hfs : Value.areAcyclic fs = true) :
    merge (.map i es) (.map j fs) = (mergeEntries es fs).map (.map i) := by
  have hdepth : Value.sizeOfEntries fs < depthBound (.map i es) (.map j fs) := by
    have hparts : 0 < (Value.map i es).size + (Value.map j fs).size := Nat.succ_pos _
    calc Value.sizeOfEntries fs ≤ (Value.map j fs).size := Nat.le_succ _
      _ ≤ _ * (Value.map j fs).size := Nat.le_mul_of_pos_left _ hparts
      _ ≤ _ * (Value.map j fs).size * _ := Nat.le_mul_of_pos_right _ hparts
      _ < depthBound (.map i es) (.map j fs) := Nat.lt_succ_self _
  rw [merge, mergeMaps_eq hes hfs hdepth]

/-! ### One key -/

/-- The upper value cannot be laid over the lower one: it is no list, not both are maps, and they are
of different types. -/
def Clashes (v w : Value) : Prop :=
  (∀ id items, w ≠ .list id items) ∧ (v.entries? = none ∨ w.entries? = none) ∧ v.typeName ≠ w.typeName

/-- One value laid over another gives a third. -/
inductive Lays : Value → Value → Value → Prop where
  /-- Maps are merged. -/
  | maps {i j : ObjectId} {es fs gs : MapEntries} (h : mergeEntries es fs = .ok gs) :
    Lays (.map i es) (.map j fs) (.map i gs)
  /-- A list replaces anything. -/
  | list (v : Value) (id : ObjectId) (items : List Value) : Lays v (.list id items) (.list id items)
  /-- Any other value replaces one of its own type. -/
  | replaced {v w : Value} (hmap : w.entries? = none) (htype : v.typeName = w.typeName) : Lays v w w

/-- What becomes of two values: maps are merged, a value may replace the other one, or they clash. -/
theorem mergeValue_cases (k : Atom) (v w : Value) :
    (∃ i es j fs, v = .map i es ∧ w = .map j fs ∧
        mergeValue k v w = (mergeEntries es fs).map (.map i)) ∨
      ((v.entries? = none ∨ w.entries? = none) ∧ mergeValue k v w = .ok w ∧ Lays v w w) ∨
      mergeValue k v w = .error (conflict k v w) ∧ Clashes v w := by
  cases w with
  | map j fs =>
    by_cases hv : ∃ i es, v = .map i es
    · obtain ⟨i, es, rfl⟩ := hv
      exact .inl ⟨i, es, j, fs, rfl, rfl, rfl⟩
    · have hnone : v.entries? = none := by
        cases v <;> simp_all [Value.entries?]
      refine .inr (.inr ⟨?_, nofun, .inl hnone, fun htype => hv (typeName_eq_dict_iff.1 htype)⟩)
      cases v <;> first | rfl | cases hnone
  | list j items => exact .inr (.inl ⟨.inr rfl, rfl, .list v j items⟩)
  | atom _ | tuple _ _ | set _ _ =>
    rw [mergeValue]
    split_ifs with htype
    · exact .inr (.inl ⟨.inr rfl, rfl, .replaced rfl htype⟩)
    · exact .inr (.inr ⟨rfl, nofun, .inr rfl, htype⟩)
    all_goals simp

theorem Lays.not_clashes (h : Lays v w u) : ¬Clashes v w := by
  rintro ⟨hlist, hmaps, htype⟩
  cases h with
  | maps h => exact htype rfl
  | list v id items => exact hlist id items rfl
  | replaced hmap h => exact htype h

/-- The key shows in faults only. -/
theorem mergeValue_ok_iff : mergeValue k v w = .ok u ↔ Lays v w u := by
  rcases mergeValue_cases k v w with ⟨i, es, j, fs, rfl, rfl, h⟩ | ⟨hmaps, h, hlays⟩ | ⟨h, hclash⟩
  · rw [h]
    constructor
    · intro hok
      obtain ⟨gs, hgs, rfl⟩ := Result.ok_of_map hok
      exact .maps hgs
    · rintro (hgs | hgs | ⟨hmap, -⟩)
      · rw [hgs]
        rfl
      · cases hmap
  · rw [h, Except.ok.injEq]
    refine ⟨fun heq => heq ▸ hlays, fun hu => ?_⟩
    cases hu with
    | maps h => rcases hmaps with hmap | hmap <;> cases hmap
    | list v id items => rfl
    | replaced hmap htype => rfl
  · rw [h]
    exact iff_of_false nofun fun hlays => hlays.not_clashes hclash

/-! ### All keys -/

/-- What two layers hold under a key, and what a third one holds: the value of the only layer that has
one, or the upper value laid over the lower one. -/
def Joins (v? w? u? : Option Value) : Prop :=
  match v?, w? with
  | v?, none => u? = v?
  | none, some w => u? = some w
  | some v, some w => ∃ u, u? = some u ∧ Lays v w u

/-- The first entry of the upper layer is merged, and then the others. -/
theorem mergeEntries_cons_ok_iff :
    mergeEntries es ((k, w) :: fs) = .ok gs ↔
      ∃ u, Joins (find? Atom.same k es) (some w) (some u) ∧
        mergeEntries (put Atom.same k u es) fs = .ok gs := by
  rw [mergeEntries]
  cases hfind : find? Atom.same k es with
  | none => simp [Joins]
  | some v =>
    have hstep : ∀ u, Joins (some v) (some w) (some u) ↔ mergeValue k v w = .ok u := by
      simp [Joins, mergeValue_ok_iff]
    simp only [hstep]
    cases mergeValue k v w <;> simp

/-- A key that is set is none of those that follow. -/
theorem find?_put_of_mem {f : Atom × Value} (hfs : MapEntries.Keyed ((k, w) :: fs)) (hf : f ∈ fs)
    (u : Value) (es : MapEntries) :
    find? Atom.same f.1 (put Atom.same k u es) = find? Atom.same f.1 es := by
  obtain ⟨hk, hnew, -⟩ := MapEntries.keyed_cons.1 hfs
  have hne := MapEntries.find?_eq_none_iff.1 hnew f hf
  rw [MapEntries.find?_put hk, if_neg (by simpa [Atom.same_comm] using hne)]

/-- **The keys of a merged map**: those of the lower layer, and behind them the new ones. -/
theorem map_fst_mergeEntries (hfs : fs.Keyed) (h : mergeEntries es fs = .ok gs) :
    gs.map (·.1) = es.map (·.1) ++ (fs.filter fun f => !has Atom.same f.1 es).map (·.1) := by
  induction fs generalizing es with
  | nil =>
    obtain rfl := Except.ok.inj h
    simp
  | cons f fs ih =>
    obtain ⟨k, w⟩ := f
    obtain ⟨-, -, hfs'⟩ := MapEntries.keyed_cons.1 hfs
    obtain ⟨u, -, h⟩ := mergeEntries_cons_ok_iff.1 h
    have hothers : ∀ f ∈ fs, (!has Atom.same f.1 (put Atom.same k u es)) = !has Atom.same f.1 es :=
      fun f hf => by rw [has, has, find?_put_of_mem hfs hf]
    rw [ih hfs' h, Entries.map_fst_put, List.filter_congr hothers]
    cases hhas : has Atom.same k es <;> simp [hhas]

/-- **The values of a merged map**: what is found under a key is what comes of the two values that the
layers hold under it. -/
theorem find?_mergeEntries (hfs : fs.Keyed) (h : mergeEntries es fs = .ok gs) (l : Atom) :
    Joins (find? Atom.same l es) (find? Atom.same l fs) (find? Atom.same l gs) := by
  induction fs generalizing es with
  | nil =>
    obtain rfl := Except.ok.inj h
    exact rfl
  | cons f fs ih =>
    obtain ⟨k, w⟩ := f
    obtain ⟨hk, hnew, hfs'⟩ := MapEntries.keyed_cons.1 hfs
    obtain ⟨u, hu, h⟩ := mergeEntries_cons_ok_iff.1 h
    have hrest := ih hfs' h
    rw [MapEntries.find?_put hk] at hrest
    rw [find?]
    split_ifs at hrest ⊢ with hkl
    · -- the key is not set again
      rw [← MapEntries.find?_congr hkl, hnew] at hrest
      rw [← MapEntries.find?_congr hkl es, hrest]
      exact hu
    · exact hrest

theorem exists_joins_iff {v? : Option Value} :
    (∃ u, Joins v? (some w) (some u)) ↔ ∀ v, v? = some v → ∃ u, Lays v w u := by
  cases v? with
  | none => simp [Joins]
  | some v => simp [Joins]

/-- **Merging succeeds** iff for each key of both layers one value can be laid over the other. -/
theorem exists_mergeEntries_iff (hfs : fs.Keyed) :
    (∃ gs, mergeEntries es fs = .ok gs) ↔
      ∀ f ∈ fs, ∀ v, find? Atom.same f.1 es = some v → ∃ u, Lays v f.2 u := by
  induction fs generalizing es with
  | nil => exact iff_of_true ⟨es, rfl⟩ nofun
  | cons f fs ih =>
    obtain ⟨k, w⟩ := f
    obtain ⟨-, -, hfs'⟩ := MapEntries.keyed_cons.1 hfs
    have hrest : ∀ u, (∃ gs, mergeEntries (put Atom.same k u es) fs = .ok gs) ↔
        ∀ f ∈ fs, ∀ v, find? Atom.same f.1 es = some v → ∃ u, Lays v f.2 u := by
      intro u
      rw [ih hfs']
      exact forall₂_congr fun f hf => by rw [find?_put_of_mem hfs hf]
    rw [List.forall_mem_cons, ← exists_joins_iff]
    simp only [mergeEntries_cons_ok_iff]
    constructor
    · rintro ⟨gs, u, hu, hgs⟩
      exact ⟨⟨u, hu⟩, (hrest u).1 ⟨gs, hgs⟩⟩
    · rintro ⟨⟨u, hu⟩, hothers⟩
      obtain ⟨gs, hgs⟩ := (hrest u).2 hothers
      exact ⟨gs, u, hu, hgs⟩

/-- Entries are laid over a map one part after the other. -/
theorem mergeEntries_append (es before after : MapEntries) :
    mergeEntries es (before ++ after) =
      mergeEntries es before >>= fun gs => mergeEntries gs after := by
  induction before generalizing es with
  | nil => rfl
  | cons f before ih =>
    obtain ⟨k, w⟩ := f
    rw [List.cons_append, mergeEntries, mergeEntries]
    cases find? Atom.same k es with
    | none => exact ih _
    | some v =>
      dsimp only
      cases mergeValue k v w with
      | error fault => rfl
      | ok u => exact ih _

theorem keyed_of_append {before after : MapEntries} (h : MapEntries.Keyed (before ++ after)) :
    MapEntries.Keyed before :=
  ⟨fun e he => h.self e (List.mem_append_left _ he), (List.pairwise_append.1 h.distinct).1⟩

/-- What is laid over a map does not touch the keys that follow. -/
theorem find?_of_append {f : Atom × Value} {before after : MapEntries}
    (hfs : MapEntries.Keyed (before ++ f :: after)) (h : mergeEntries es before = .ok gs) :
    find? Atom.same f.1 gs = find? Atom.same f.1 es := by
  have hnone : find? Atom.same f.1 before = none := by
    refine MapEntries.find?_eq_none_iff.2 fun e he => ?_
    exact (List.pairwise_append.1 hfs.distinct).2.2 e he f List.mem_cons_self
  have hjoins := find?_mergeEntries (keyed_of_append hfs) h f.1
  rw [hnone] at hjoins
  exact hjoins

/-- The first entry is at fault. -/
theorem mergeEntries_cons_error (hv : find? Atom.same k es = some v)
    (h : mergeValue k v w = .error fault) (fs : MapEntries) :
    mergeEntries es ((k, w) :: fs) = .error fault := by
  rw [mergeEntries, hv]
  dsimp only
  rw [h]

theorem mergeValue_error_of_singleton (h : mergeEntries es [(k, w)] = .error fault) :
    ∃ v, find? Atom.same k es = some v ∧ mergeValue k v w = .error fault := by
  rw [mergeEntries] at h
  split at h
  · cases h
  · next v hv =>
    split at h
    · next fault' hfault =>
      obtain rfl := Except.error.inj h
      exact ⟨v, hv, hfault⟩
    · cases h

/-- Where merging fails, it does so at a key of both layers, and all that comes before is merged. -/
theorem exists_mergeValue_error (hfs : fs.Keyed) (h : mergeEntries es fs = .error fault) :
    ∃ before k w after v, fs = before ++ (k, w) :: after ∧
      (∃ gs, mergeEntries es before = .ok gs) ∧ find? Atom.same k es = some v ∧
        mergeValue k v w = .error fault := by
  induction fs using List.reverseRecOn with
  | nil => cases h
  | append_singleton fs f ih =>
    obtain ⟨k, w⟩ := f
    rw [mergeEntries_append] at h
    cases hmerge : mergeEntries es fs with
    | error fault' =>
      rw [hmerge] at h
      obtain rfl := Except.error.inj h
      obtain ⟨before, l, x, after, v, rfl, hbefore, hv, hfault⟩ := ih (keyed_of_append hfs) hmerge
      exact ⟨before, l, x, after ++ [(k, w)], v, by simp, hbefore, hv, hfault⟩
    | ok gs =>
      rw [hmerge] at h
      obtain ⟨v, hv, hfault⟩ := mergeValue_error_of_singleton h
      rw [find?_of_append hfs hmerge] at hv
      exact ⟨fs, k, w, [], v, rfl, ⟨gs, hmerge⟩, hv, hfault⟩

/-! ### Conflicts -/

/-- A chain of keys leads through maps of both layers to two values that clash. -/
inductive Conflict : MapEntries → MapEntries → List Atom → Value → Value → Prop where
  /-- Both layers have the key, and its values clash. -/
  | here {es fs : MapEntries} {k : Atom} {v w : Value} (hw : (k, w) ∈ fs)
    (hv : find? Atom.same k es = some v) (h : Clashes v w) : Conflict es fs [k] v w
  /-- Both layers have a map under the key, and the rest of the chain leads on from there. -/
  | under {es fs es' fs' : MapEntries} {i j : ObjectId} {k : Atom} {keys : List Atom} {v w : Value}
    (hw : (k, .map j fs') ∈ fs) (hv : find? Atom.same k es = some (.map i es'))
    (h : Conflict es' fs' keys v w) : Conflict es fs (k :: keys) v w

/-- The conflict that merging comes upon first. At no key on the way to it does an entry of the upper
layer that comes before lead to a conflict. -/
inductive FirstConflict : MapEntries → MapEntries → Atom → Value → Value → Prop where
  /-- Both layers have the key, and its values clash. -/
  | here {es before after : MapEntries} {k : Atom} {v w : Value}
    (hbefore : ¬∃ keys v w, Conflict es before keys v w) (hv : find? Atom.same k es = some v)
    (h : Clashes v w) : FirstConflict es (before ++ (k, w) :: after) k v w
  /-- Both layers have a map under a key, and the conflict is in these. -/
  | under {es before after es' fs' : MapEntries} {i j : ObjectId} {k key : Atom} {v w : Value}
    (hbefore : ¬∃ keys v w, Conflict es before keys v w)
    (hv : find? Atom.same k es = some (.map i es')) (h : FirstConflict es' fs' key v w) :
    FirstConflict es (before ++ (k, .map j fs') :: after) key v w

/-- A chain of keys leads to the first conflict. -/
theorem FirstConflict.exists_conflict {key : Atom} (h : FirstConflict es fs key v w) :
    ∃ keys, Conflict es fs (keys ++ [key]) v w := by
  induction h with
  | @here es before after k v w _ hv h =>
    exact ⟨[], .here (List.mem_append_right before List.mem_cons_self) hv h⟩
  | @under es before after es' fs' i j k _ _ _ _ hv _ ih =>
    obtain ⟨keys, hconflict⟩ := ih
    exact ⟨k :: keys, .under (List.mem_append_right before List.mem_cons_self) hv hconflict⟩

/-- Where a chain of keys leads to a conflict, merging fails. -/
theorem Conflict.not_ok {keys : List Atom} {j : ObjectId} (h : Conflict es fs keys v w)
    (hfs : (Value.map j fs).IsDocument) : ¬∃ gs, mergeEntries es fs = .ok gs := by
  induction h generalizing j with
  | here hw hv hclash =>
    intro hok
    obtain ⟨u, hu⟩ := (exists_mergeEntries_iff hfs.keyed).1 hok _ hw _ hv
    exact hu.not_clashes hclash
  | under hw hv _ ih =>
    intro hok
    obtain ⟨u, hu⟩ := (exists_mergeEntries_iff hfs.keyed).1 hok _ hw _ hv
    cases hu with
    | maps h => exact ih (hfs.of_mem hw) ⟨_, h⟩
    | replaced hmap htype => cases hmap

/-- Where merging fails, there is a first conflict, and the fault is that of its key and values. -/
theorem firstConflict_of_error {j : ObjectId} (hfs : (Value.map j fs).IsDocument)
    (h : mergeEntries es fs = .error fault) :
    ∃ key v w, FirstConflict es fs key v w ∧ fault = conflict key v w := by
  generalize hupper : Value.map j fs = upper at hfs
  induction upper using Value.induction generalizing es j fs with
  | map j' fs' ih =>
    obtain ⟨rfl, rfl⟩ := Value.map.inj hupper
    obtain ⟨before, k, w, after, v, rfl, hbefore, hv, hfault⟩ := exists_mergeValue_error hfs.keyed h
    have hw : (k, w) ∈ before ++ (k, w) :: after := by simp
    have hfree : ¬∃ keys v w, Conflict es before keys v w := fun ⟨keys, v, w, hconflict⟩ =>
      hconflict.not_ok (hfs.of_append j) hbefore
    rcases mergeValue_cases k v w with
      ⟨i, es', j', fs', rfl, rfl, hmaps⟩ | ⟨-, hok, -⟩ | ⟨herr, hclash⟩
    · -- both are maps, and the conflict is in these
      have hbelow : mergeEntries es' fs' = .error fault := by
        rw [hmaps] at hfault
        cases hmerge : mergeEntries es' fs' with
        | ok gs =>
          rw [hmerge] at hfault
          cases hfault
        | error fault' =>
          rw [hmerge] at hfault
          exact congrArg Except.error (Except.error.inj hfault)
      obtain ⟨key, v, w, hconflict, hmessage⟩ := ih _ hw hbelow rfl (hfs.of_mem hw)
      exact ⟨key, v, w, .under hfree hv hconflict, hmessage⟩
    · rw [hok] at hfault
      cases hfault
    · rw [herr] at hfault
      exact ⟨k, v, w, .here hfree hv hclash, (Except.error.inj hfault).symm⟩
  | _ => cases hupper

/-- Where chains of keys lead to no conflict, merging succeeds. -/
theorem exists_ok_of_no_conflict {j : ObjectId} (hfs : (Value.map j fs).IsDocument)
    (h : ¬∃ keys v w, Conflict es fs keys v w) : ∃ gs, mergeEntries es fs = .ok gs := by
  cases hmerge : mergeEntries es fs with
  | ok gs => exact ⟨gs, rfl⟩
  | error fault =>
    obtain ⟨key, v, w, hfirst, -⟩ := firstConflict_of_error hfs hmerge
    obtain ⟨keys, hconflict⟩ := hfirst.exists_conflict
    exact absurd ⟨_, v, w, hconflict⟩ h

/-- **Merging fails at the first conflict.** -/
theorem FirstConflict.mergeEntries_eq {key : Atom} {j : ObjectId} (h : FirstConflict es fs key v w)
    (hfs : (Value.map j fs).IsDocument) : mergeEntries es fs = .error (conflict key v w) := by
  induction h generalizing j with
  | @here es before after k v w hbefore hv hclash =>
    obtain ⟨gs, hgs⟩ := exists_ok_of_no_conflict (hfs.of_append j) hbefore
    have hv' := (find?_of_append hfs.keyed hgs).trans hv
    rw [mergeEntries_append, hgs]
    refine mergeEntries_cons_error hv' ?_ after
    rcases mergeValue_cases k v w with ⟨i, es', j', fs', rfl, rfl, -⟩ | ⟨-, -, hlays⟩ | ⟨herr, -⟩
    · exact absurd rfl hclash.2.2
    · exact absurd hclash hlays.not_clashes
    · exact herr
  | @under es before after es' fs' i j' k key v w hbefore hv hbelow ih =>
    obtain ⟨gs, hgs⟩ := exists_ok_of_no_conflict (hfs.of_append j) hbefore
    have hv' := (find?_of_append hfs.keyed hgs).trans hv
    rw [mergeEntries_append, hgs]
    refine mergeEntries_cons_error hv' ?_ after
    rw [mergeValue, ih (hfs.of_mem (List.mem_append_right before List.mem_cons_self))]
    rfl

/-! ### The merged map -/

/-- What the merged map holds: the keys of the lower layer in their order and spelling, behind them the
new ones of the upper layer in theirs, and under each key what the layers say. -/
structure Merged (es fs gs : MapEntries) : Prop where
  /-- The keys. -/
  keys : gs.map (·.1) = es.map (·.1) ++ (fs.filter fun f => !has Atom.same f.1 es).map (·.1)
  /-- A key of the lower layer only keeps its value. -/
  lower : ∀ k v, find? Atom.same k es = some v → find? Atom.same k fs = none →
    find? Atom.same k gs = some v
  /-- A key of the upper layer only brings its value. -/
  upper : ∀ k w, find? Atom.same k es = none → find? Atom.same k fs = some w →
    find? Atom.same k gs = some w
  /-- The maps of a key of both layers are merged. -/
  maps : ∀ k i j es' fs', find? Atom.same k es = some (.map i es') →
    find? Atom.same k fs = some (.map j fs') →
    ∃ u, merge (.map i es') (.map j fs') = .ok u ∧ find? Atom.same k gs = some u
  /-- Where not both are maps, the upper value counts. -/
  others : ∀ k v w, find? Atom.same k es = some v → find? Atom.same k fs = some w →
    v.entries? = none ∨ w.entries? = none → find? Atom.same k gs = some w

theorem merged_of_ok (hacyclic : Value.areAcyclic es = true) (hacyclic' : Value.areAcyclic fs = true)
    (hfs : fs.Keyed) (h : mergeEntries es fs = .ok gs) : Merged es fs gs where
  keys := map_fst_mergeEntries hfs h
  lower k v hv hw := by
    have hjoins := find?_mergeEntries hfs h k
    rw [hv, hw] at hjoins
    exact hjoins
  upper k w hv hw := by
    have hjoins := find?_mergeEntries hfs h k
    rw [hv, hw] at hjoins
    exact hjoins
  maps k i j es' fs' hv hw := by
    have hjoins := find?_mergeEntries hfs h k
    rw [hv, hw] at hjoins
    obtain ⟨u, hu, hlays⟩ := hjoins
    cases hlays with
    | maps hmerge =>
      obtain ⟨_, hmem, -⟩ := MapEntries.exists_mem_of_find? hv
      obtain ⟨_, hmem', -⟩ := MapEntries.exists_mem_of_find? hw
      refine ⟨_, ?_, hu⟩
      rw [merge_eq (Value.isAcyclic_of_mem hacyclic hmem) (Value.isAcyclic_of_mem hacyclic' hmem'),
        hmerge]
      rfl
    | replaced hmap htype => cases hmap
  others k v w hv hw hmaps := by
    have hjoins := find?_mergeEntries hfs h k
    rw [hv, hw] at hjoins
    obtain ⟨u, hu, hlays⟩ := hjoins
    cases hlays with
    | maps hmerge => rcases hmaps with hmap | hmap <;> cases hmap
    | list v id items => exact hu
    | replaced hmap htype => exact hu

end Config

end ScopedFn
