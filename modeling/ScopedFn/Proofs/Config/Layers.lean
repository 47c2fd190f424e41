import ScopedFn.Proofs.Config.Merge
import ScopedFn.Proofs.Value.Decidable

/-!
# Layers over layers

A configuration is made of several layers. Where they can be merged from below, one after the other,
the upper ones can be merged first, and the outcome is the same; and a layer that has been merged
changes nothing when it is merged once more. Both hold of the values under each key, and so of maps,
which are known by their keys and by what is found under them.

* `Config.mergeEntries_ok_iff` : a merged map is known by its keys and by the values under them;
* `Config.Lays.assoc` : the upper layers can be merged first;
* `Config.Lays.again` : a layer changes nothing the second time;
* `Config.merge_layers` : both for configurations;
* `Config.mergeMaps_turns` : maps that hold themselves are not merged.
-/

set_option autoImplicit false

namespace ScopedFn

namespace Config

open Entries (find? put has)

variable {v w u : Value} {es fs gs : MapEntries} {k : Atom} {v? w? u? : Option Value}

/-! ### One outcome -/

theorem Lays.unique {u' : Value} (h : Lays v w u) (h' : Lays v w u') : u = u' := by
  have hu : mergeValue .null v w = .ok u := mergeValue_ok_iff.2 h
  have hu' : mergeValue .null v w = .ok u' := mergeValue_ok_iff.2 h'
  exact Except.ok.inj (hu.symm.trans hu')

theorem Joins.unique {u?' : Option Value} (h : Joins v? w? u?) (h' : Joins v? w? u?') : u? = u?' := by
  cases w? with
  | none =>
    cases v? <;> exact h.trans h'.symm
  | some w =>
    cases v? with
    | none => exact h.trans h'.symm
    | some v =>
      obtain ⟨u, rfl, hu⟩ := h
      obtain ⟨u', rfl, hu'⟩ := h'
      exact congrArg some (hu.unique hu')

theorem Joins.isSome_eq (h : Joins v? w? u?) : u?.isSome = (v?.isSome || w?.isSome) := by
  cases w? with
  | none =>
    cases v? <;> simp_all [Joins]
  | some w =>
    cases v? with
    | none => simp_all [Joins]
    | some v =>
      obtain ⟨u, rfl, -⟩ := h
      rfl

/-! ### Merged maps -/

/-- The keys of a merged map, by keys only. -/
theorem keys_mergeEntries (hfs : fs.Keyed) (h : mergeEntries es fs = .ok gs) :
    gs.map (·.1) = es.map (·.1) ++ (fs.map (·.1)).filter fun k => !has Atom.same k es := by
  rw [map_fst_mergeEntries hfs h, List.filter_map]
  rfl

theorem keyed_mergeEntries (hes : es.Keyed) (hfs : fs.Keyed) (h : mergeEntries es fs = .ok gs) :
    gs.Keyed := by
  induction fs generalizing es with
  | nil =>
    obtain rfl := Except.ok.inj h
    exact hes
  | cons f fs ih =>
    obtain ⟨hk, -, hfs'⟩ := MapEntries.keyed_cons.1 hfs
    obtain ⟨u, -, h⟩ := mergeEntries_cons_ok_iff.1 h
    exact ih (hes.put hk u) hfs' h

/-- Merging succeeds iff something comes of what the layers hold under each key. -/
theorem exists_mergeEntries_iff_joins (hfs : fs.Keyed) :
    (∃ gs, mergeEntries es fs = .ok gs) ↔
      ∀ k, ∃ u?, Joins (find? Atom.same k es) (find? Atom.same k fs) u? := by
  constructor
  · rintro ⟨gs, h⟩ k
    exact ⟨_, find?_mergeEntries hfs h k⟩
  · intro h
    refine (exists_mergeEntries_iff hfs).2 fun f hf v hv => ?_
    obtain ⟨u?, hu⟩ := h f.1
    rw [hv, hfs.find?_of_mem hf] at hu
    obtain ⟨u, -, hlays⟩ := hu
    exact ⟨u, hlays⟩

/-- **A merged map is known by its keys and by the values under them.** -/
theorem mergeEntries_ok_iff (hes : es.Keyed) (hfs : fs.Keyed) :
    mergeEntries es fs = .ok gs ↔
      gs.map (·.1) = es.map (·.1) ++ (fs.map (·.1)).filter (fun k => !has Atom.same k es) ∧
        ∀ k, Joins (find? Atom.same k es) (find? Atom.same k fs) (find? Atom.same k gs) := by
  constructor
  · intro h
    exact ⟨keys_mergeEntries hfs h, find?_mergeEntries hfs h⟩
  · rintro ⟨hkeys, hjoins⟩
    obtain ⟨gs', hgs'⟩ := (exists_mergeEntries_iff_joins hfs).2 fun k => ⟨_, hjoins k⟩
    rw [hgs', Except.ok.injEq]
    refine (keyed_mergeEntries hes hfs hgs').ext ?_ fun e _ => ?_
    · rw [keys_mergeEntries hfs hgs', hkeys]
    · exact (find?_mergeEntries hfs hgs' e.1).unique (hjoins e.1)

/-! ### A layer once more -/

/-- The keys of a layer are not new if all of them are there. -/
theorem keys_of_all_present (h : ∀ k, (find? Atom.same k fs).isSome → (find? Atom.same k es).isSome)
    (hfs : fs.Keyed) :
    es.map (·.1) = es.map (·.1) ++ (fs.map (·.1)).filter fun k => !has Atom.same k es := by
  have hnone : ((fs.map (·.1)).filter fun k => !has Atom.same k es) = [] := by
    refine List.filter_eq_nil_iff.2 fun k hk => ?_
    obtain ⟨f, hf, rfl⟩ := List.mem_map.1 hk
    have hfound : has Atom.same f.1 es = true := h f.1 (by rw [hfs.find?_of_mem hf]; rfl)
    simp [hfound]
  rw [hnone, List.append_nil]

/-- A value laid over itself is that value. -/
theorem lays_self (h : v.IsDocument) : Lays v v v := by
  induction v using Value.induction with
  | map i es ih =>
    refine .maps ((mergeEntries_ok_iff h.keyed h.keyed).2 ⟨?_, fun k => ?_⟩)
    · exact keys_of_all_present (fun _ hk => hk) h.keyed
    · cases hfind : find? Atom.same k es with
      | none => rfl
      | some v =>
        obtain ⟨key, hmem, -⟩ := MapEntries.exists_mem_of_find? hfind
        exact ⟨v, rfl, ih (key, v) hmem (h.of_mem hmem)⟩
  | list i items => exact .list _ i items
  | _ => exact .replaced rfl rfl

/-- **A layer changes nothing the second time.** -/
theorem Lays.again (hv : v.IsDocument) (hw : w.IsDocument) (h : Lays v w u) : Lays u w u := by
  induction w using Value.induction generalizing v u with
  | map j fs ih =>
    cases h with
    | @maps i _ es _ gs h =>
      have hgs := keyed_mergeEntries hv.keyed hw.keyed h
      refine .maps ((mergeEntries_ok_iff hgs hw.keyed).2 ⟨?_, fun k => ?_⟩)
      · refine keys_of_all_present (fun k hk => ?_) hw.keyed
        rw [(find?_mergeEntries hw.keyed h k).isSome_eq, hk, Bool.or_true]
      · have hjoins := find?_mergeEntries hw.keyed h k
        cases hupper : find? Atom.same k fs with
        | none => rfl
        | some w =>
          obtain ⟨key, hmem, -⟩ := MapEntries.exists_mem_of_find? hupper
          rw [hupper] at hjoins
          cases hlower : find? Atom.same k es with
          | none =>
            rw [hlower] at hjoins
            rw [hjoins]
            exact ⟨w, rfl, lays_self (hw.of_mem hmem)⟩
          | some v =>
            rw [hlower] at hjoins
            obtain ⟨u, hu, hlays⟩ := hjoins
            obtain ⟨key', hmem', -⟩ := MapEntries.exists_mem_of_find? hlower
            rw [hu]
            exact ⟨u, rfl, ih (key, w) hmem (hv.of_mem hmem') (hw.of_mem hmem) hlays⟩
    | replaced hmap htype => cases hmap
  | list j items =>
    cases h with
    | list v id items => exact .list _ j items
    | replaced hmap htype => exact .list _ j items
  | _ =>
    cases h with
    | replaced hmap htype => exact .replaced hmap rfl

/-! ### The upper layers first -/

/-- What three layers hold under a key may be joined from above. -/
theorem Joins.assoc {x? y? z? xy? r? : Option Value} (h : Joins x? y? xy?) (h' : Joins xy? z? r?)
    (hassoc : ∀ x y z xy r, x? = some x → y? = some y → z? = some z →
      Lays x y xy → Lays xy z r → ∃ yz, Lays y z yz ∧ Lays x yz r) :
    ∃ yz?, Joins y? z? yz? ∧ Joins x? yz? r? := by
  cases z? with
  | none =>
    obtain rfl : r? = xy? := h'
    exact ⟨y?, rfl, h⟩
  | some z =>
    cases y? with
    | none =>
      obtain rfl : xy? = x? := h
      exact ⟨some z, rfl, h'⟩
    | some y =>
      cases x? with
      | none =>
        obtain rfl : xy? = some y := h
        obtain ⟨r, rfl, hr⟩ := h'
        exact ⟨some r, ⟨r, rfl, hr⟩, rfl⟩
      | some x =>
        obtain ⟨xy, rfl, hxy⟩ := h
        obtain ⟨r, rfl, hr⟩ := h'
        obtain ⟨yz, hyz, hr'⟩ := hassoc x y z xy r rfl rfl rfl hxy hr
        exact ⟨some yz, ⟨yz, rfl, hyz⟩, r, rfl, hr'⟩

/-- Three layers give one sequence of keys, from below and from above. -/
theorem keys_assoc {xs ys zs xys yzs : MapEntries} (hys : ys.Keyed) (hzs : zs.Keyed)
    (hxys : mergeEntries xs ys = .ok xys) (hyzs : mergeEntries ys zs = .ok yzs) :
    xys.map (·.1) ++ (zs.map (·.1)).filter (fun k => !has Atom.same k xys) =
      xs.map (·.1) ++ (yzs.map (·.1)).filter fun k => !has Atom.same k xs := by
  have hhas : ∀ k, has Atom.same k xys = (has Atom.same k xs || has Atom.same k ys) := fun k =>
    (find?_mergeEntries hys hxys k).isSome_eq
  simp [keys_mergeEntries hys hxys, keys_mergeEntries hzs hyzs, hhas, List.filter_append,
    List.filter_filter]

theorem typeName_eq_list_iff : v.typeName = "list" ↔ ∃ id items, v = .list id items := by
  cases v with
  | atom a => cases a <;> simp [Value.typeName, Value.atomTypeName]
  | _ => simp [Value.typeName]

/-- What replaces one value laid over another, replaces both. -/
theorem Lays.replaced_upper {z : Value} (h : Lays v w u) (hmap : z.entries? = none)
    (htype : u.typeName = z.typeName) : Lays w z z ∧ Lays v z z := by
  cases h with
  | maps h =>
    obtain ⟨id, es, rfl⟩ := typeName_eq_dict_iff.1 htype.symm
    cases hmap
  | list v id items =>
    obtain ⟨id, items, rfl⟩ := typeName_eq_list_iff.1 htype.symm
    exact ⟨.list _ id items, .list v id items⟩
  | replaced _ htype' => exact ⟨.replaced hmap htype, .replaced hmap (htype'.trans htype)⟩

/-- **The upper layers can be merged first.** -/
theorem Lays.assoc {x y z xy r : Value} (hx : x.IsDocument) (hy : y.IsDocument) (hz : z.IsDocument)
    (h : Lays x y xy) (h' : Lays xy z r) : ∃ yz, Lays y z yz ∧ Lays x yz r := by
  induction z using Value.induction generalizing x y xy r with
  | map k zs ih =>
    cases h' with
    | replaced hmap htype => cases hmap
    | @maps i _ xys _ rs hr =>
      cases h with
      | replaced hmap htype => cases hmap
      | @maps _ j xs ys _ hxy =>
        have hjoins : ∀ l, ∃ yz?, Joins (find? Atom.same l ys) (find? Atom.same l zs) yz? ∧
            Joins (find? Atom.same l xs) yz? (find? Atom.same l rs) := by
          intro l
          refine (find?_mergeEntries hy.keyed hxy l).assoc (find?_mergeEntries hz.keyed hr l) ?_
          intro x y z xy r hx? hy? hz? hlower hupper
          obtain ⟨_, hxmem, -⟩ := MapEntries.exists_mem_of_find? hx?
          obtain ⟨_, hymem, -⟩ := MapEntries.exists_mem_of_find? hy?
          obtain ⟨_, hzmem, -⟩ := MapEntries.exists_mem_of_find? hz?
          exact ih _ hzmem (hx.of_mem hxmem) (hy.of_mem hymem) (hz.of_mem hzmem) hlower hupper
        obtain ⟨yzs, hyz⟩ := (exists_mergeEntries_iff_joins hz.keyed).2 fun l =>
          (hjoins l).imp fun _ => And.left
        refine ⟨.map j yzs, .maps hyz, .maps ?_⟩
        refine (mergeEntries_ok_iff hx.keyed (keyed_mergeEntries hy.keyed hz.keyed hyz)).2
          ⟨?_, fun l => ?_⟩
        · rw [keys_mergeEntries hz.keyed hr, keys_assoc hy.keyed hz.keyed hxy hyz]
        · obtain ⟨yz?, hupper, hall⟩ := hjoins l
          rw [(find?_mergeEntries hz.keyed hyz l).unique hupper]
          exact hall
  | list k items =>
    cases h' with
    | list v id items => exact ⟨_, .list y k items, .list x k items⟩
    | replaced hmap htype => exact ⟨_, .list y k items, .list x k items⟩
  | _ =>
    cases h' with
    | replaced hmap htype => exact ⟨_, h.replaced_upper hmap htype⟩

/-! ### Configurations -/

theorem Lays.entries?_ne_none (h : Lays v w u) (hw : w.entries? ≠ none) : u.entries? ≠ none := by
  cases h with
  | maps h => exact nofun
  | list v id items => exact absurd rfl hw
  | replaced hmap htype => exact hw

/-- A configuration is laid over another one like a value over another. -/
theorem merge_ok_iff {a b m : Value} (ha : a.isAcyclic = true) (hb : b.isAcyclic = true) :
    merge a b = .ok m ↔ b.entries? ≠ none ∧ Lays a b m := by
  constructor
  · intro h
    have hmaps : (∃ i es, a = .map i es) ∧ ∃ j fs, b = .map j fs := by
      unfold merge at h
      split at h
      · exact ⟨⟨_, _, rfl⟩, _, _, rfl⟩
      · cases h
    obtain ⟨⟨i, es, rfl⟩, j, fs, rfl⟩ := hmaps
    rw [merge_eq ha hb] at h
    obtain ⟨gs, hgs, rfl⟩ := Result.ok_of_map h
    exact ⟨nofun, .maps hgs⟩
  · rintro ⟨hmap, hlays⟩
    cases hlays with
    | maps h =>
      rw [merge_eq ha hb, h]
      rfl
    | list v id items => exact absurd rfl hmap
    | replaced hnone htype => exact absurd hnone hmap

theorem Lays.isAcyclic (h : Lays v w u) (hv : v.isAcyclic = true) (hw : w.isAcyclic = true) :
    u.isAcyclic = true := by
  cases h with
  | maps h => exact areAcyclic_mergeEntries hv hw h
  | list v id items => exact hw
  | replaced hmap htype => exact hw

/-- **Layers over layers.** Where three configurations can be merged from below, the upper two can be
merged first, which gives the same configuration with its keys in the same order. And a configuration
that has been laid over another one changes nothing when it is laid over the outcome. -/
theorem merge_layers (a b c : Value) (ha : a.IsDocument) (hb : b.IsDocument) (hc : c.IsDocument) :
    (∀ ab r, merge a b = .ok ab → merge ab c = .ok r →
      ∃ bc, merge b c = .ok bc ∧ merge a bc = .ok r) ∧
    ∀ m, merge a b = .ok m → merge m b = .ok m := by
  have ha' := ha.isAcyclic
  have hb' := hb.isAcyclic
  have hc' := hc.isAcyclic
  constructor
  · intro ab r hlower hupper
    obtain ⟨hbmap, hab⟩ := (merge_ok_iff ha' hb').1 hlower
    obtain ⟨hcmap, hr⟩ := (merge_ok_iff (hab.isAcyclic ha' hb') hc').1 hupper
    obtain ⟨bc, hbc, hr'⟩ := hab.assoc ha hb hc hr
    exact ⟨bc, (merge_ok_iff hb' hc').2 ⟨hcmap, hbc⟩,
      (merge_ok_iff ha' (hbc.isAcyclic hb' hc')).2 ⟨hbc.entries?_ne_none hcmap, hr'⟩⟩
  · intro m hmerge
    obtain ⟨hbmap, hm⟩ := (merge_ok_iff ha' hb').1 hmerge
    exact (merge_ok_iff (hm.isAcyclic ha' hb') hb').2 ⟨hbmap, hm.again ha hb⟩

-- merged from above, a list hides that two layers below it clash
example : (merge (.map 1 [(.text "path", .atom (.int 1))])
    (.map 2 [(.text "path", .atom (.text "x"))])).toOption = none ∧
    (merge (.map 2 [(.text "path", .atom (.text "x"))]) (.map 3 [(.text "path", .list 4 [])]) >>=
      merge (.map 1 [(.text "path", .atom (.int 1))])) =
        .ok (.map 1 [(.text "path", .list 4 [])]) := by decide +kernel

/-- A layer that sets a level of detail. -/
def logging (id : ObjectId) (level : String) : Value :=
  .map id [(.text "logging", .map (id + 1) [(.text "level", .atom (.text level))])]

theorem isDocument_logging (id : ObjectId) (level : String) : (logging id level).IsDocument :=
  have hinner : (Value.map (id + 1) [(.text "level", .atom (.text level))]).IsDocument :=
    .map (by simp [Atom.isProper]) (by simp) (List.forall_mem_singleton.2 (.atom rfl))
  .map (by simp [Atom.isProper]) (by simp) (List.forall_mem_singleton.2 hinner)

/-- Three layers that set one level: the last counts, however they are merged. -/
theorem merge_layers_logging :
    (∃ bc, merge (logging 3 "warning") (logging 5 "debug") = .ok bc ∧
      merge (logging 1 "info") bc = .ok (logging 1 "debug")) ∧
    merge (logging 1 "warning") (logging 3 "warning") = .ok (logging 1 "warning") := by
  obtain ⟨hcompose, hagain⟩ :=
    merge_layers (logging 1 "info") (logging 3 "warning") (logging 5 "debug")
      (isDocument_logging _ _) (isDocument_logging _ _) (isDocument_logging _ _)
  have hlower : merge (logging 1 "info") (logging 3 "warning") = .ok (logging 1 "warning") := by
    decide +kernel
  exact ⟨hcompose _ _ hlower (by decide +kernel), hagain _ hlower⟩

/-! ### Maps that hold themselves -/

/-- The only entry of a map that holds itself. -/
def turns (id : ObjectId) : MapEntries := [(.text "self", .atom (.enclosing id false))]

/-- What a map that holds itself holds is the map. -/
theorem inside_turns {id : ObjectId} (hid : id ≠ noObject) :
    (Value.atom (.enclosing id false)).inside (.map id (turns id)) = .map id (turns id) := by
  have hne : (id != noObject) = true := bne_iff_ne.2 hid
  simp [Value.inside, Value.isAcyclic, Atom.isReference, Value.alone, Value.resolve, Value.isAround,
    Value.size, Value.sizeOfEntries, Value.putIn, Value.part?, turns, Value.resolveEntries, hne]

theorem beside_turns {id : ObjectId} (hid : id ≠ noObject) (whole : Value) :
    (Value.map id (turns id)).beside whole = .map (id + whole.bound) (turns (id + whole.bound)) := by
  simp [Value.beside, Value.isAcyclic, Value.areAcyclic, Atom.isReference, turns, Value.renew,
    Value.renewEntries, Value.renewed, hid]

/-- **Merging two maps that hold themselves** comes to no end: each step leads to copies of the two. -/
theorem mergeMaps_turns (depth : ℕ) {i j : ObjectId} (hi : i ≠ noObject) (hj : j ≠ noObject) :
    mergeMaps depth i (turns i) j (turns j) = .error .endless := by
  induction depth generalizing i j with
  | zero => rfl
  | succ depth ih =>
    have hcopy : ∀ {id : ObjectId}, id ≠ noObject → id + (Value.map i (turns i)).bound ≠ noObject :=
      fun hid => Nat.ne_of_gt (Nat.add_pos_left (Nat.pos_of_ne_zero hid) _)
    have hfound : find? Atom.same (.text "self") (turns i) = some (.atom (.enclosing i false)) := by
      simp [turns, find?, Atom.same]
    rw [mergeMaps, turns.eq_def j, List.foldlM_cons, ← turns.eq_def j, layEntry, hfound]
    dsimp only
    rw [inside_turns hi, inside_turns hj, beside_turns hi, beside_turns hj, lay,
      ih (hcopy hi) (hcopy hj)]
    rfl

/-- A layer with a map that holds itself. -/
def turning (outer inner : ObjectId) : Value :=
  .map outer [(.text "k", .map inner (turns inner))]

/-- Merging such a layer once more comes to no end. -/
theorem merge_turning_again :
    merge (.map 3 []) (turning 1 2) = .ok (turning 3 6) ∧
      merge (turning 3 6) (turning 1 2) = .error .endless := by
  decide +kernel

end Config

end ScopedFn
