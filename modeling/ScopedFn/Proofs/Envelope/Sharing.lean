import Mathlib.Data.List.Flatten
import Mathlib.Data.List.Nodup
import ScopedFn.Proofs.Envelope.RoundTrip
import ScopedFn.Proofs.Provenance.Default

/-!
# Sharing in what is read back

Resources are copied one by one into an envelope, so two items never hold the same map, and an item
holds a map twice only if its resource does. A text can add sharing to that, or none. If it adds
none, the resources that are read back hold every map once.

* `Value.Restates` : a value that says what another one says and shares no more;
* `Envelope.nodup_pack` : the items of a package hold every map once;
* `Envelope.Package.ReadsBack` : the text of a package restates it;
* `Envelope.Package.ReadsBack.exists_decode` : what is read from such a text.
-/

set_option autoImplicit false

namespace ScopedFn

namespace Value

/-- Renaming renames the maps. -/
theorem objects_rename (ρ : Renaming) (v : Value) : (v.rename ρ).objects = v.objects.map ρ.object := by
  induction v using Value.induction with
  | atom a | set id ms => rfl
  | list id items ih | tuple id items ih =>
    rw [rename, objects, objects, objectsOfItems_eq, objectsOfItems_eq, renameItems_eq,
      List.flatMap_map, List.map_flatMap]
    exact List.flatMap_congr ih
  | map id es ih =>
    rw [rename, objects, objects, objectsOfEntries_eq, objectsOfEntries_eq, renameEntries_eq,
      List.flatMap_map, List.map_cons, List.map_flatMap]
    exact congrArg _ (List.flatMap_congr ih)

theorem objects_contents (v : Value) : v.contents.objects = v.objects.map fun _ => noObject := by
  induction v using Value.induction with
  | atom a | set id ms => rfl
  | list id items ih | tuple id items ih =>
    rw [contents, objects, objects, objectsOfItems_eq, objectsOfItems_eq, contentsOfItems_eq,
      List.flatMap_map, List.map_flatMap]
    exact List.flatMap_congr ih
  | map id es ih =>
    rw [contents, objects, objects, objectsOfEntries_eq, objectsOfEntries_eq, contentsOfEntries_eq,
      List.flatMap_map, List.map_cons, List.map_flatMap]
    exact congrArg _ (List.flatMap_congr ih)

/-- Values of the same contents have maps at the same places. -/
theorem length_objects {v v' : Value} (h : v.contents = v'.contents) :
    v.objects.length = v'.objects.length := by
  have hlength := congrArg (fun v => v.objects.length) h
  simpa only [objects_contents, List.length_map] using hlength

/-- The first value says what the second one says, and where it has one map at two places, the
second one has one map there too. -/
structure Restates (v v' : Value) : Prop where
  /-- They have the same contents. -/
  contents : v.contents = v'.contents
  /-- Each map of the first one stands for one map of the second one. -/
  sharing : ∃ σ : ObjectId → ObjectId, v.objects.map σ = v'.objects

end Value

namespace Value

/-- What the map of the first value stands for in the second one, by its first place. -/
def standsFor (v v' : Value) (id : ObjectId) : ObjectId :=
  ((v.objects.zip v'.objects).lookup id).getD noObject

theorem restates_iff {v v' : Value} : v.Restates v' ↔
    v.contents = v'.contents ∧ v.objects.map (v.standsFor v') = v'.objects := by
  refine ⟨fun ⟨hcontents, σ, hσ⟩ => ⟨hcontents, ?_⟩, fun ⟨hcontents, h⟩ => ⟨hcontents, _, h⟩⟩
  rw [← hσ]
  refine List.map_congr_left fun id hid => ?_
  have hzip : v.objects.zip v'.objects = v.objects.map fun id => (id, σ id) := by
    rw [← hσ, ← List.map_prod_left_eq_zip]
  rw [standsFor, hzip, List.lookup_graph σ hid, Option.getD_some]

instance (v v' : Value) : Decidable (v.Restates v') := decidable_of_iff _ restates_iff.symm

end Value

namespace MapEntries

/-- What holds of entries in this way holds of the values of a key. -/
theorem map_objects_get {σ : ObjectId → ObjectId} {es es' : MapEntries}
    (hcontents : Value.contentsOfEntries es = Value.contentsOfEntries es')
    (hobjects : (Value.objectsOfEntries es).map σ = Value.objectsOfEntries es') (key : String) :
    (get es key).objects.map σ = (get es' key).objects := by
  induction es generalizing es' with
  | nil =>
    cases es' with
    | nil => rfl
    | cons p es' => cases hcontents
  | cons p es ih =>
    cases es' with
    | nil => cases hcontents
    | cons p' es' =>
      obtain ⟨k, v⟩ := p
      obtain ⟨k', v'⟩ := p'
      obtain ⟨hp, hrest⟩ := List.cons.inj hcontents
      obtain ⟨hk, hv⟩ := Prod.mk.inj hp
      rw [Value.objectsOfEntries, Value.objectsOfEntries, List.map_append] at hobjects
      obtain ⟨hhead, htail⟩ := List.append_inj hobjects
        (by rw [List.length_map, Value.length_objects hv])
      have hsame : k.same (.text key) = k'.same (.text key) := by
        rw [← same_text_contents, hk, same_text_contents]
      have hget := ih hrest htail
      unfold get get? at hget ⊢
      rw [Entries.find?, Entries.find?, hsame]
      split
      · exact hhead
      · exact hget

end MapEntries

theorem Value.Restates.get {id id' : ObjectId} {es es' : MapEntries}
    (h : (Value.map id es).Restates (.map id' es')) (key : String) :
    (MapEntries.get es key).Restates (MapEntries.get es' key) := by
  obtain ⟨hcontents, σ, hobjects⟩ := h
  have hentries := (Value.map.inj hcontents).2
  refine ⟨?_, σ, MapEntries.map_objects_get hentries (List.cons.inj hobjects).2 key⟩
  rw [← MapEntries.get_contents, hentries, MapEntries.get_contents]

/-! ### What is sent -/

namespace Part

variable {k : ℕ} {ps : List Part}

theorem le_of_mem_place {id : ObjectId} (h : id ∈ Value.objectsOfItems (place k ps)) : k ≤ id := by
  obtain ⟨v, hv, hid⟩ := Value.mem_objectsOfItems.1 h
  obtain ⟨p, -, l, hl, rfl⟩ := exists_of_mem_place hv
  rw [Value.objects_rename] at hid
  obtain ⟨id, -, rfl⟩ := List.mem_map.1 hid
  exact le_trans hl (Nat.le_add_left l id)

/-- Copies behind one another hold every map once if what is copied does, each by itself. -/
theorem nodup_place (hwidth : ∀ p ∈ ps, p.value.bound ≤ p.width)
    (h : ∀ p ∈ ps, p.value.objects.Nodup) : (Value.objectsOfItems (place k ps)).Nodup := by
  induction ps generalizing k with
  | nil => exact List.nodup_nil
  | cons p ps ih =>
    obtain ⟨hp, hps⟩ := List.forall_mem_cons.1 h
    obtain ⟨hpwidth, hpswidth⟩ := List.forall_mem_cons.1 hwidth
    rw [place, Value.objectsOfItems, Value.objects_rename]
    refine List.nodup_append.2 ⟨hp.map (Renaming.moved k).injective, ih hpswidth hps, ?_⟩
    rintro _ hcopy _ hrest rfl
    -- the identities of this copy come before those of the next one
    obtain ⟨id, hid, rfl⟩ := List.mem_map.1 hcopy
    have hlt : id < p.width := Value.lt_of_mem_objects hpwidth hid
    have hle : k + p.width ≤ k + id := Nat.add_comm id k ▸ le_of_mem_place hrest
    exact absurd hlt (not_lt.2 (Nat.le_of_add_le_add_left hle))

end Part

namespace Envelope

open Resource Provenance

variable {config : Option Resource} {rs : List Resource} {supply supply' : Supply}

/-- The items of a package hold every map once if the resources do, each by itself. -/
theorem nodup_pack (config : Option Resource) (supply : Supply)
    (h : ∀ r ∈ rs, r.toValue.objects.Nodup) :
    (Value.objectsOfItems ((pack config rs true supply).items.map Item.value)).Nodup := by
  rw [pack_items]
  exact Part.nodup_place (List.forall_mem_map.2 fun r _ => le_rfl) (List.forall_mem_map.2 h)

/-- The text of the package restates it, read with identities from the given one on. -/
def Package.ReadsBack (p : Package) (supply : Supply) : Prop :=
  ∃ text v supply', p.encode = .ok text ∧ (Yaml.readAll text).run supply = .ok ([v], supply') ∧
    v.Restates p.document

/-- Reading the text of the package tells whether it restates it. -/
def Package.readsBack (p : Package) (supply : Supply) : Bool :=
  match p.encode with
  | .error _ => false
  | .ok text =>
    match (Yaml.readAll text).run supply with
    | .ok ([v], _) => decide (v.Restates p.document)
    | _ => false

theorem Package.readsBack_iff {p : Package} : p.readsBack supply = true ↔ p.ReadsBack supply := by
  unfold readsBack
  constructor
  · intro h
    split at h
    · cases h
    · rename_i text hencode
      split at h
      · rename_i v supply' hread
        exact ⟨text, v, supply', hencode, hread, of_decide_eq_true h⟩
      · cases h
  · rintro ⟨text, v, supply', hencode, hread, hrestates⟩
    simp only [hencode, hread, decide_eq_true hrestates]

instance (p : Package) (supply : Supply) : Decidable (p.ReadsBack supply) :=
  decidable_of_iff _ p.readsBack_iff

/-! ### What is read -/

/-- What restates a package is marked as an envelope. -/
theorem marked_of_restates {p : Package} {id : ObjectId} {es : MapEntries}
    (h : (Value.map id es).Restates (.map noObject p.entries)) : Marked (.map id es) := by
  have hkind : MapEntries.get es "kind" = .text kind := Value.contents_eq_text.1 (h.get "kind").contents
  have hversion : MapEntries.get es "apiVersion" = .text version :=
    Value.contents_eq_text.1 (h.get "apiVersion").contents
  exact .mk hkind ⟨version, List.mem_cons_self, hversion⟩

/-- The resources that items are hold no map more often than the items. -/
theorem sublist_of_saysItems {v : Value} (h : SaysItems v rs) : (objectsOf rs).Sublist v.objects := by
  cases h with
  | absent => exact List.nil_sublist _
  | @list id vs _ hfilter =>
    have hobjects : objectsOf rs = (vs.filter (!·.isNull)).flatMap Value.objects := by
      rw [hfilter, List.flatMap_map]
      rfl
    rw [hobjects, Value.objects, Value.objectsOfItems_eq]
    exact List.filter_sublist.flatMap _

/-- The resources that are read from what restates a package hold every map once if its items do. -/
theorem nodup_of_restates {p : Package} {id : ObjectId} {es : MapEntries} {decoded : Decoded}
    (h : (Value.map id es).Restates (.map noObject p.entries))
    (hitems : (Value.objectsOfItems (p.items.map Item.value)).Nodup)
    (hdecoded : ofDocuments [.map id es] = .ok decoded) : (objectsOf decoded.resources).Nodup := by
  obtain ⟨σ, hσ⟩ := (h.get "items").sharing
  have hread : (MapEntries.get es "items").objects.Nodup := List.Nodup.of_map σ (hσ ▸ hitems)
  obtain ⟨hmeaning, -⟩ | hlaxly := ofDocuments_ok_iff.1 hdecoded
  · generalize hdocs : [Value.map id es] = docs at hmeaning
    cases hmeaning with
    | envelope _ hitemsRead =>
      obtain rfl := (Value.map.inj (List.singleton_inj.1 hdocs)).2
      exact hread.sublist (sublist_of_saysItems hitemsRead)
    | stream hplain =>
      obtain ⟨r, hr, heq⟩ := List.mem_map.1 (hdocs ▸ List.mem_singleton_self (Value.map id es))
      exact absurd (marked_of_restates h) (heq ▸ hplain r hr)
  · cases hlaxly
    exact List.nodup_nil

/-- **What is read from a text that restates a package**: the resources in their order, with all
their metadata, holding every map once if each of them did, and no results. -/
theorem Package.ReadsBack.exists_decode (h : (pack config rs true supply).ReadsBack supply') :
    ∃ text decoded supply'', (pack config rs true supply).encode = .ok text ∧
      (decode text).run supply' = .ok (decoded, supply'') ∧
      decoded.resources.map Resource.contents = rs.map Resource.contents ∧ decoded.results = none ∧
      ((∀ r ∈ rs, r.toValue.objects.Nodup) → (objectsOf decoded.resources).Nodup) := by
  obtain ⟨text, v, supply'', hencode, hread, hrestates⟩ := h
  obtain ⟨decoded, hrun, hcontents, -, hresults, -⟩ := decode_encode hencode hread hrestates.contents
  obtain ⟨_, htext, hdecode⟩ := Result.ok_of_bind hrun
  obtain rfl := Except.ok.inj (hencode.symm.trans htext)
  refine ⟨text, decoded, supply'', hencode, hdecode, hcontents, hresults, fun hrs => ?_⟩
  rw [Package.document_eq_map] at hrestates
  obtain ⟨r, rfl, -⟩ := exists_resource (r := ⟨noObject, _⟩) hrestates.contents
  obtain ⟨-, hdocuments⟩ := (decode_ok_iff hread).1 hdecode
  exact nodup_of_restates hrestates (nodup_pack config supply hrs) hdocuments

end Envelope

end ScopedFn
