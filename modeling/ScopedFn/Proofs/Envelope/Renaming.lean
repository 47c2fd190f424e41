import Mathlib.Data.List.Forall2
import ScopedFn.Envelope
import ScopedFn.Proofs.Resource.Renaming
import ScopedFn.Proofs.Yaml.Renaming

/-!
# Envelopes of renamed resources

The resources that go into an envelope are copied one by one, so it is of no importance which
objects they are made of: what two of them share, each of the copies has for its own. Tuples of
plain atoms are the exception. A copy keeps them, and an envelope shows when two of its resources,
or one of them and the configuration, have one in common.

* `Alike` : collections that differ in the identities of objects only;
* `Envelope.sent` : what a copied resource loses before it is sent;
* `Envelope.exists_labellings` : copies of renamed values, put one behind the other, differ by
  identities only;
* `Envelope.encode_pack` : collections that are alike are sent as the same text.
-/

set_option autoImplicit false

namespace ScopedFn

/-- The second resource is the first one made of other objects, plain tuples by the labelling. -/
def Resource.Renamed (t : Labelling) (r r' : Resource) : Prop :=
  ∃ ρ : Renaming, ρ.tuple = t ∧ r' = r.rename ρ

/-- The collections say the same in the same order, each resource with the same sharing in itself,
and all together with the same sharing of plain tuples. -/
def Alike (rs rs' : List Resource) : Prop :=
  ∃ t : Labelling, List.Forall₂ (Resource.Renamed t) rs rs'

namespace Labelling

/-- Every name twice as large. -/
def double : Labelling := ⟨(2 * ·), fun _ _ h => Nat.eq_of_mul_eq_mul_left Nat.two_pos h, rfl⟩

/-- New names for the identities of a copy, odd ones, and even names for all others. -/
def oddWithin (f g : ℕ → ℕ) (k n id : ℕ) : ℕ :=
  if k ≤ id ∧ id < k + n then 2 * f (id - k) + 1 else 2 * g id

variable {f g : ℕ → ℕ} {k n id : ℕ}

theorem oddWithin_of_mem (h : k ≤ id ∧ id < k + n) : oddWithin f g k n id = 2 * f (id - k) + 1 :=
  if_pos h

theorem oddWithin_of_not_mem (h : ¬(k ≤ id ∧ id < k + n)) : oddWithin f g k n id = 2 * g id :=
  if_neg h

theorem oddWithin_add (hid : id < n) : oddWithin f g k n (id + k) = 2 * f id + 1 := by
  rw [oddWithin_of_mem (by omega), Nat.add_sub_cancel]

theorem oddWithin_injective (hf : Function.Injective f) (hg : Function.Injective g) :
    Function.Injective (oddWithin f g k n) := by
  intro a b hab
  -- names on different sides differ in parity
  by_cases ha : k ≤ a ∧ a < k + n <;> by_cases hb : k ≤ b ∧ b < k + n
  · rw [oddWithin_of_mem ha, oddWithin_of_mem hb] at hab
    have hsub : a - k = b - k := hf (by omega)
    omega
  · rw [oddWithin_of_mem ha, oddWithin_of_not_mem hb] at hab
    omega
  · rw [oddWithin_of_not_mem ha, oddWithin_of_mem hb] at hab
    omega
  · rw [oddWithin_of_not_mem ha, oddWithin_of_not_mem hb] at hab
    exact hg (by omega)

/-- The labelling that gives new names to a copy, apart from those of everything else. -/
def insert (g : Labelling) (ρ : Renaming) (k n : ℕ) (hk : 0 < k) : Labelling where
  label := oddWithin ρ.object g k n
  injective := oddWithin_injective ρ.injective g.injective
  noObject := by
    have hout : ¬(k ≤ 0 ∧ 0 < k + n) := by omega
    exact (oddWithin_of_not_mem hout).trans (congrArg (2 * ·) g.noObject)

end Labelling

/-! ### Copies behind one another -/

namespace Renaming

/-- All identities stay as they are. -/
def same : Renaming := ⟨id, Function.injective_id, .same, id⟩

/-- The names that the identities of a copy get in the end. -/
def named (ρ : Renaming) (c : Labelling) : Renaming where
  object id := 2 * ρ.object id + 1
  injective _ _ h := ρ.injective (Nat.eq_of_mul_eq_mul_left Nat.two_pos (Nat.add_right_cancel h))
  tuple := ρ.tuple.trans (c.trans .double)
  nan _ := noObject

end Renaming

/-- A value that is to be copied, and how many identities are set apart for its copy. -/
structure Part where
  /-- The value. -/
  value : Value
  /-- The number of identities. -/
  width : ℕ

namespace Part

/-- The identities that are set apart suffice, and all of the value are before the given one. -/
structure Fits (hi : ℕ) (p : Part) : Prop where
  /-- The identities suffice. -/
  width : p.value.bound ≤ p.width
  /-- Copies are made behind them. -/
  bound : p.value.bound ≤ hi

/-- The second value is the first one made of other objects, plain tuples by the labelling. -/
def Renamed (t : Labelling) (p p' : Part) : Prop :=
  ∃ ρ : Renaming, ρ.tuple = t ∧ p'.value = p.value.rename ρ

/-- The copies of the values, each behind the one before. -/
def place : ℕ → List Part → List Value
  | _, [] => []
  | k, p :: ps => p.value.rename (.moved k) :: place (k + p.width) ps

variable {hi k l n : ℕ} {p : Part} {ps : List Part} {v : Value} {g c : Labelling} {ρ : Renaming}

theorem length_place (k : ℕ) (ps : List Part) : (place k ps).length = ps.length := by
  induction ps generalizing k with
  | nil => rfl
  | cons p ps ih => rw [place, List.length_cons, List.length_cons, ih]

theorem exists_of_mem_place (h : v ∈ place l ps) :
    ∃ p ∈ ps, ∃ k, l ≤ k ∧ v = p.value.rename (.moved k) := by
  induction ps generalizing l with
  | nil => exact absurd h List.not_mem_nil
  | cons p ps ih =>
    obtain rfl | hrest := List.mem_cons.1 h
    · exact ⟨p, List.mem_cons_self, l, le_rfl, rfl⟩
    · obtain ⟨q, hq, k, hk, rfl⟩ := ih hrest
      exact ⟨q, List.mem_cons_of_mem _ hq, k, by omega, rfl⟩

/-- The names of a copy come from the value that is copied. -/
theorem Fits.rename_insert (h : p.Fits hi) (hhi : hi ≤ k) (hk : 0 < k)
    (hg : ∀ id < hi, g id = c (ρ.tuple id)) :
    (p.value.rename (.moved k)).rename (.uniform (g.insert ρ k p.width hk)) =
      p.value.rename (ρ.named c) := by
  rw [Value.rename_rename]
  refine Value.rename_congr ⟨fun id hid => ?_, fun id hid => ?_, fun id hid => rfl⟩ le_rfl
  · exact Labelling.oddWithin_add (lt_of_lt_of_le hid h.width)
  · -- plain tuples are older than all copies
    have hlt : id < hi := lt_of_lt_of_le hid h.bound
    have hout : ¬(k ≤ id ∧ id < k + p.width) := fun hin => by omega
    exact (Labelling.oddWithin_of_not_mem hout).trans (congrArg (2 * ·) (hg id hlt))

/-- New names for one copy leave those behind it apart from one another as they were. -/
theorem map_rename_insert (hps : ∀ p ∈ ps, p.Fits hi) (hhi : hi ≤ k) (hk : 0 < k) :
    (place (k + n) ps).map (Value.rename (.uniform (g.insert ρ k n hk))) =
      ((place (k + n) ps).map (Value.rename (.uniform g))).map (Value.rename (.uniform .double)) := by
  rw [List.map_map]
  refine List.map_congr_left fun v hv => ?_
  obtain ⟨p, hp, l, hl, rfl⟩ := exists_of_mem_place hv
  rw [Function.comp_apply, Value.rename_rename, Value.rename_rename, Value.rename_rename]
  refine Value.rename_congr ⟨fun id hid => ?_, fun id hid => ?_, fun id hid => rfl⟩ le_rfl
  · have hout : ¬(k ≤ id + l ∧ id + l < k + n) := fun hin => by omega
    exact Labelling.oddWithin_of_not_mem hout
  · have hlt : id < hi := lt_of_lt_of_le hid (hps p hp).bound
    have hout : ¬(k ≤ id ∧ id < k + n) := fun hin => by omega
    exact Labelling.oddWithin_of_not_mem hout

/-- **Copies of renamed values differ by identities only.** -/
theorem exists_labellings {t : Labelling} {hi' k' : ℕ} {ps' : List Part}
    (h : List.Forall₂ (Renamed t) ps ps') (hps : ∀ p ∈ ps, p.Fits hi) (hps' : ∀ p ∈ ps', p.Fits hi')
    (hhi : hi ≤ k) (hhi' : hi' ≤ k') (hk : 0 < k) (hk' : 0 < k') :
    ∃ g g' c : Labelling, (∀ id < hi, g id = c (t id)) ∧ (∀ id < hi', g' id = c id) ∧
      (place k ps).map (Value.rename (.uniform g)) =
        (place k' ps').map (Value.rename (.uniform g')) := by
  -- each step names one copy by odd numbers and doubles all names that are given already, so
  -- the names of older objects are kept in step by `c`
  induction h generalizing k k' with
  | nil => exact ⟨t, .same, .same, fun id _ => rfl, fun id _ => rfl, rfl⟩
  | @cons p p' ps ps' hp hrest ih =>
    obtain ⟨ρ, rfl, hvalue⟩ := hp
    obtain ⟨hfits, hps⟩ := List.forall_mem_cons.1 hps
    obtain ⟨hfits', hps'⟩ := List.forall_mem_cons.1 hps'
    obtain ⟨g, g', c, hg, hg', heq⟩ := ih hps hps' (show hi ≤ k + p.width by omega)
      (show hi' ≤ k' + p'.width by omega) (by omega) (by omega)
    refine ⟨g.insert ρ k p.width hk, g'.insert .same k' p'.width hk', c.trans .double, ?_, ?_, ?_⟩
    · intro id hid
      have hout : ¬(k ≤ id ∧ id < k + p.width) := fun hin => by omega
      exact (Labelling.oddWithin_of_not_mem hout).trans (congrArg (2 * ·) (hg id hid))
    · intro id hid
      have hout : ¬(k' ≤ id ∧ id < k' + p'.width) := fun hin => by omega
      exact (Labelling.oddWithin_of_not_mem hout).trans (congrArg (2 * ·) (hg' id hid))
    · have hhead : p.value.rename (ρ.named c) = p'.value.rename (Renaming.same.named c) := by
        rw [hvalue, Value.rename_rename]
        rfl
      rw [place, place, List.map_cons, List.map_cons, hfits.rename_insert hhi hk hg,
        hfits'.rename_insert hhi' hk' hg', map_rename_insert hps hhi hk, map_rename_insert hps' hhi' hk',
        heq, hhead]

end Part

/-! ### Removals -/

namespace Resource

theorem unannotate_rename (ρ : Renaming) (key : String) (r : Resource) :
    (r.rename ρ).unannotate key = (r.unannotate key).rename ρ := by
  rw [unannotate, unannotate, removalEdits_rename, ← editAll_rename (removes_removalEdits key r)]

theorem copy_eq (r : Resource) (supply : Supply) :
    r.copy.run supply = (r.rename (.moved supply), supply + r.toValue.bound) := by
  have hcopy : r.toValue.shift supply = (r.rename (.moved supply)).toValue := by
    rw [toValue_rename, Value.shift_eq_rename]
  refine Prod.ext ?_ rfl
  exact (congrArg (fun v => (ofValue? v).getD r) hcopy).trans rfl

end Resource

namespace Envelope

variable {keep : Bool} {ρ : Renaming}

theorem removals_rename (ρ : Renaming) (r : Resource) (keys : List String) :
    removals (r.rename ρ) keys = (removals r keys).map (Edit.rename ρ) := by
  induction keys generalizing r with
  | nil => rfl
  | cons key keys ih =>
    rw [removals, removals, Resource.removalEdits_rename, Resource.unannotate_rename, ih, List.map_append]

theorem removes_removals (r : Resource) (keys : List String) : ∀ e ∈ removals r keys, e.Removes := by
  induction keys generalizing r with
  | nil => exact nofun
  | cons key keys ih => exact List.forall_mem_append.2 ⟨r.removes_removalEdits key, ih _⟩

/-- What is left of a resource when it is sent. -/
def sent (keep : Bool) (r : Resource) : Resource :=
  if keep then r else r.editAll (removals r readerKeys)

theorem sent_rename (keep : Bool) (ρ : Renaming) (r : Resource) :
    sent keep (r.rename ρ) = (sent keep r).rename ρ := by
  cases keep with
  | true => rfl
  | false =>
    exact (congrArg (r.rename ρ).editAll (removals_rename ρ r readerKeys)).trans
      (Resource.editAll_rename (removes_removals r readerKeys) r).symm

theorem bound_sent_le (keep : Bool) (r : Resource) : (sent keep r).toValue.bound ≤ r.toValue.bound := by
  cases keep with
  | true => exact le_rfl
  | false =>
    have hvalue : (sent false r).toValue = r.toValue.editAll (removals r readerKeys) :=
      Resource.toValue_editAll _ r
    rw [hvalue]
    exact Value.bound_editAll_le (removes_removals r readerKeys) le_rfl

/-- A resource as a value to be copied into an envelope. -/
def part (keep : Bool) (r : Resource) : Part := ⟨(sent keep r).toValue, r.toValue.bound⟩

theorem fits_part {hi : ℕ} {r : Resource} (keep : Bool) (hr : r.toValue.bound ≤ hi) :
    (part keep r).Fits hi := ⟨bound_sent_le keep r, (bound_sent_le keep r).trans hr⟩

theorem renamed_part {t : Labelling} {r r' : Resource} (keep : Bool) (h : r.Renamed t r') :
    (part keep r).Renamed t (part keep r') := by
  obtain ⟨ρ, ht, rfl⟩ := h
  refine ⟨ρ, ht, ?_⟩
  rw [part, part, sent_rename, Resource.toValue_rename]

/-- The identities that are set apart for copies of all the resources. -/
def width : List Resource → ℕ
  | [] => 0
  | r :: rs => r.toValue.bound + width rs

theorem run_item (keep : Bool) (r : Resource) (k : Supply) :
    ((item keep r).run k).1.value = (part keep r).value.rename (.moved k) ∧
      ((item keep r).run k).2 = k + r.toValue.bound := by
  have hrun : (item keep r).run k = (⟨r.rename (.moved k),
      if keep then [] else removals (r.rename (.moved k)) readerKeys⟩, k + r.toValue.bound) := by
    rw [item, StateT.run_bind, Resource.copy_eq]
    rfl
  refine ⟨?_, by rw [hrun]⟩
  have hsent : ((item keep r).run k).1.value = (sent keep (r.rename (.moved k))).toValue := by
    rw [hrun]
    cases keep <;> rfl
  rw [hsent, sent_rename, Resource.toValue_rename, part]

theorem run_items (keep : Bool) (rs : List Resource) (k : Supply) :
    ((rs.mapM (item keep)).run k).1.map Item.value = Part.place k (rs.map (part keep)) ∧
      ((rs.mapM (item keep)).run k).2 = k + width rs := by
  induction rs generalizing k with
  | nil => exact ⟨rfl, rfl⟩
  | cons r rs ih =>
    obtain ⟨hvalue, hsupply⟩ := run_item keep r k
    obtain ⟨hvalues, hsupplies⟩ := ih ((item keep r).run k).2
    rw [List.mapM_cons]
    refine ⟨(congrArg₂ List.cons hvalue hvalues).trans ?_, hsupplies.trans ?_⟩
    · rw [hsupply]
      rfl
    · rw [hsupply, width, Nat.add_assoc]

/-! ### Packages -/

theorem le_foldl_max (n : ℕ) (rs : List Resource) :
    n ≤ rs.foldl (fun n r => max n r.toValue.bound) n ∧
      ∀ r ∈ rs, r.toValue.bound ≤ rs.foldl (fun n r => max n r.toValue.bound) n := by
  induction rs generalizing n with
  | nil => exact ⟨le_rfl, nofun⟩
  | cons r rs ih =>
    obtain ⟨hn, hrs⟩ := ih (max n r.toValue.bound)
    obtain ⟨hle, hr⟩ := max_le_iff.1 hn
    exact ⟨hle, List.forall_mem_cons.2 ⟨hr, hrs⟩⟩

/-- What is copied into a package: the resources, and behind them the configuration. -/
def parts (config : Option Resource) (rs : List Resource) (keep : Bool) : List Part :=
  rs.map (part keep) ++ config.toList.map (part true)

theorem fits_parts (config : Option Resource) (rs : List Resource) (keep : Bool) :
    ∀ p ∈ parts config rs keep, p.Fits (bound config rs) := by
  obtain ⟨-, hle⟩ := le_foldl_max 1 (config.toList ++ rs)
  obtain ⟨hconfig, hrs⟩ := List.forall_mem_append.1 hle
  refine List.forall_mem_append.2 ⟨List.forall_mem_map.2 fun r hr => fits_part keep (hrs r hr), ?_⟩
  exact List.forall_mem_map.2 fun r hr => fits_part true (hconfig r hr)

theorem renamed_parts {t : Labelling} {config : Option Resource} {rs rs' : List Resource} (keep : Bool)
    (h : List.Forall₂ (Resource.Renamed t) (config.toList ++ rs) (config.toList ++ rs')) :
    List.Forall₂ (Part.Renamed t) (parts config rs keep) (parts config rs' keep) := by
  have hboth : List.Forall₂ (Resource.Renamed t) config.toList config.toList ∧
      List.Forall₂ (Resource.Renamed t) rs rs' := by
    cases config with
    | none => exact ⟨.nil, h⟩
    | some config =>
      obtain ⟨hconfig, hrs⟩ := List.forall₂_cons.1 h
      exact ⟨.cons hconfig .nil, hrs⟩
  -- annotations are removed from the resources, but never from the configuration
  have hmap : ∀ {keep : Bool} {rs rs' : List Resource}, List.Forall₂ (Resource.Renamed t) rs rs' →
      List.Forall₂ (Part.Renamed t) (rs.map (part keep)) (rs'.map (part keep)) := by
    intro keep rs rs' hrs
    rw [List.forall₂_map_left_iff, List.forall₂_map_right_iff]
    exact hrs.imp fun r r' hr => renamed_part keep hr
  exact List.rel_append (hmap hboth.2) (hmap hboth.1)

theorem place_append (k : ℕ) (rs : List Resource) (ps : List Part) (keep : Bool) :
    Part.place k (rs.map (part keep) ++ ps) =
      Part.place k (rs.map (part keep)) ++ Part.place (k + width rs) ps := by
  induction rs generalizing k with
  | nil => rfl
  | cons r rs ih =>
    have hwidth : k + width (r :: rs) = k + r.toValue.bound + width rs := by
      rw [width, Nat.add_assoc]
    rw [hwidth]
    exact congrArg (List.cons _) (ih (k + r.toValue.bound))

theorem pos_bound (config : Option Resource) (rs : List Resource) : 0 < bound config rs :=
  (le_foldl_max 1 (config.toList ++ rs)).1

theorem pack_items (config : Option Resource) (rs : List Resource) (keep : Bool) (supply : Supply) :
    (pack config rs keep supply).items.map Item.value =
      Part.place (max supply (bound config rs)) (rs.map (part keep)) :=
  (run_items keep rs _).1

theorem length_pack (config : Option Resource) (rs : List Resource) (keep : Bool) (supply : Supply) :
    (pack config rs keep supply).items.length = rs.length := by
  rw [← List.length_map Item.value, pack_items, Part.length_place, List.length_map]

/-- What a package holds are copies behind one another. -/
theorem pack_place (config : Option Resource) (rs : List Resource) (keep : Bool) (supply : Supply) :
    (pack config rs keep supply).items.map Item.value ++
        ((pack config rs keep supply).config.map Resource.toValue).toList =
      Part.place (max supply (bound config rs)) (parts config rs keep) := by
  rw [pack_items, parts, place_append]
  congr 1
  cases config with
  | none => rfl
  | some config =>
    have hconfig : (pack (some config) rs keep supply).config = some (config.copy.run
        ((rs.mapM (item keep)).run (max supply (bound (some config) rs))).2).1 := rfl
    rw [hconfig, (run_items keep rs _).2, Resource.copy_eq, Option.map_some, Resource.toValue_rename]
    rfl

/-- The envelope of some items and at most one configuration. -/
def enveloped (items configs : List Value) : Value :=
  .record ([("apiVersion", .text version), ("kind", .text kind), ("items", .list noObject items)] ++
    configs.map fun c => ("functionConfig", c))

theorem document_eq (p : Package) :
    p.document = enveloped (p.items.map Item.value) (p.config.map Resource.toValue).toList := by
  rw [Package.document]
  cases p.config <;> rfl

theorem rename_enveloped (g : Labelling) (items configs : List Value) :
    (enveloped items configs).rename (.uniform g) =
      enveloped (items.map (Value.rename (.uniform g))) (configs.map (Value.rename (.uniform g))) := by
  have hno : (Renaming.uniform g).object noObject = noObject := g.noObject
  simp [enveloped, Value.record, Value.rename, Value.renameEntries_eq, Atom.rename,
    Value.renameItems_eq, hno]

/-- **Collections that are alike are sent as the same text.** -/
theorem encode_pack {config : Option Resource} {rs rs' : List Resource}
    (h : Alike (config.toList ++ rs) (config.toList ++ rs')) (keep : Bool) (supply supply' : Supply) :
    (pack config rs keep supply).encode = (pack config rs' keep supply').encode := by
  obtain ⟨t, h⟩ := h
  have hlength : rs.length = rs'.length := by
    have hall := h.length_eq
    rw [List.length_append, List.length_append] at hall
    exact Nat.add_left_cancel hall
  obtain ⟨g, g', c, -, -, heq⟩ := Part.exists_labellings (renamed_parts keep h)
    (fits_parts config rs keep) (fits_parts config rs' keep) (le_max_right supply _)
    (le_max_right supply' _) (lt_max_of_lt_right (pos_bound config rs))
    (lt_max_of_lt_right (pos_bound config rs'))
  -- as many items on both sides, so the configurations match as well
  rw [← pack_place, ← pack_place, List.map_append, List.map_append] at heq
  obtain ⟨hitems, hconfig⟩ := List.append_inj heq (by
    rw [List.length_map, List.length_map, List.length_map, List.length_map, length_pack, length_pack,
      hlength])
  have hdocument : (pack config rs keep supply).document.rename (.uniform g) =
      (pack config rs' keep supply').document.rename (.uniform g') := by
    rw [document_eq, document_eq, rename_enveloped, rename_enveloped, hitems, hconfig]
  rw [Package.encode, Package.encode, length_pack, length_pack, hlength,
    ← Yaml.write_rename g, ← Yaml.write_rename g' (pack config rs' keep supply').document, hdocument]

end Envelope

end ScopedFn
