import ScopedFn.Proofs.Envelope.Format
import ScopedFn.Proofs.Envelope.Renaming
import ScopedFn.Proofs.Value.Contents

/-!
# Reading back what was written

A collection that is written into an envelope with all its annotations is read back from it, as far
as the text of the envelope can be trusted to say what the envelope says. Nothing is added or lost,
whatever the resources look like: resources that are envelopes themselves stay items, and an empty
configuration stays a configuration.

* `Envelope.contents_pack` : a package has the contents of the collection;
* `Envelope.decode_encode` : the output that repeats the input is the collection.
-/

set_option autoImplicit false

namespace ScopedFn

namespace Part

theorem contents_place (k : ℕ) (ps : List Part) :
    (place k ps).map Value.contents = ps.map fun p => p.value.contents := by
  induction ps generalizing k with
  | nil => rfl
  | cons p ps ih =>
    have hvalue : (p.value.rename (.moved k)).contents = p.value.contents :=
      Value.contents_rename (fun _ => rfl) p.value
    rw [place, List.map_cons, List.map_cons, hvalue, ih]

end Part

namespace Envelope

variable {config : Option Resource} {rs : List Resource} {supply supply' supply'' : Supply}

/-- **A package with all annotations has the contents of the collection.** -/
theorem contents_pack (config : Option Resource) (rs : List Resource) (supply : Supply) :
    (pack config rs true supply).items.map (fun i => i.value.contents) =
        rs.map (fun r => r.toValue.contents) ∧
      (pack config rs true supply).config.map Resource.contents = config.map Resource.contents := by
  have hplace := congrArg (List.map Value.contents) (pack_place config rs true supply)
  rw [Part.contents_place, List.map_append, parts, List.map_append] at hplace
  obtain ⟨hitems, hconfig⟩ := List.append_inj hplace (by simp [length_pack])
  rw [List.map_map, List.map_map] at hitems
  refine ⟨hitems, ?_⟩
  generalize (pack config rs true supply).config = config' at hconfig
  cases config' with
  | none =>
    cases config with
    | none => rfl
    | some config => cases hconfig
  | some config' =>
    cases config with
    | none => cases hconfig
    | some config =>
      have hcontents : config'.toValue.contents = config.toValue.contents := List.singleton_inj.1 hconfig
      exact congrArg some (Resource.contents_eq_iff.2 hcontents)

/-! ### Values of the contents of resources -/

theorem exists_resource {v : Value} {r : Resource} (h : v.contents = r.toValue.contents) :
    ∃ r' : Resource, v = r'.toValue ∧ r'.contents = r.contents := by
  cases v with
  | map id es => exact ⟨⟨id, es⟩, rfl, Resource.contents_eq_iff.2 h⟩
  | atom a | list id items | tuple id items | set id ms => cases h

theorem exists_resources {vs : List Value} (h : vs.map Value.contents = rs.map fun r => r.toValue.contents) :
    ∃ rs' : List Resource, vs = rs'.map Resource.toValue ∧
      rs'.map Resource.contents = rs.map Resource.contents := by
  induction rs generalizing vs with
  | nil => exact ⟨[], List.map_eq_nil_iff.1 h, rfl⟩
  | cons r rs ih =>
    obtain ⟨v, vs, rfl, hv, hvs⟩ := List.map_eq_cons_iff.1 h
    obtain ⟨r', rfl, hr⟩ := exists_resource hv
    obtain ⟨rs', rfl, hrs⟩ := ih hvs
    exact ⟨r' :: rs', rfl, congrArg₂ List.cons hr hrs⟩

theorem exists_part {v : Value} {r? : Option Resource}
    (h : v.contents = ((r?.map Resource.toValue).getD .null).contents) :
    ∃ r?', SaysPart v r?' ∧ r?'.map Resource.contents = r?.map Resource.contents := by
  cases r? with
  | none => exact ⟨none, Value.contents_eq_null.1 h ▸ .absent, rfl⟩
  | some r =>
    obtain ⟨r', rfl, hr⟩ := exists_resource h
    exact ⟨some r', .map r', congrArg some hr⟩

/-! ### The round trip -/

/-- The entries of an envelope. -/
def Package.entries (p : Package) : MapEntries :=
  [(.text "apiVersion", .text version), (.text "kind", .text kind),
    (.text "items", .list noObject (p.items.map Item.value))] ++
      p.config.toList.map fun c => (.text "functionConfig", c.toValue)

theorem Package.document_eq_map (p : Package) : p.document = .map noObject p.entries := by
  unfold document entries
  cases p.config <;> rfl

theorem Package.get_config (p : Package) :
    p.entries.get "functionConfig" = (p.config.map Resource.toValue).getD .null := by
  unfold entries
  cases p.config <;> rfl

theorem Package.get_results (p : Package) : p.entries.get "results" = .null := by
  unfold entries
  cases p.config <;> rfl

/-- Items of the contents of resources are these resources. -/
theorem exists_saysItems {v : Value} {items : List Value} {id : ObjectId}
    (h : v.contents = (Value.list id items).contents)
    (hitems : items.map Value.contents = rs.map fun r => r.toValue.contents) :
    ∃ rs', SaysItems v rs' ∧ rs'.map Resource.contents = rs.map Resource.contents := by
  cases v with
  | atom a | tuple id items | map id es | set id ms => cases h
  | list id' vs =>
    obtain ⟨-, hvs⟩ := Value.list.inj h
    rw [Value.contentsOfItems_eq, Value.contentsOfItems_eq, hitems] at hvs
    obtain ⟨rs', rfl, hrs⟩ := exists_resources hvs
    -- a resource is not null
    have hfilter : (rs'.map Resource.toValue).filter (!·.isNull) = rs'.map Resource.toValue :=
      List.filter_eq_self.2 (List.forall_mem_map.2 fun r _ => rfl)
    exact ⟨rs', .list hfilter, hrs⟩

/-- **What was written is read back.** If the text of an envelope says what the envelope says, the
resources in it are those of the collection in their order, with all their metadata, there are no
results, and the configuration is the one given. -/
theorem decode_encode {text : String} {v : Value}
    (hencode : (pack config rs true supply).encode = .ok text)
    (hread : (Yaml.readAll text).run supply' = .ok ([v], supply''))
    (hsame : v.contents = (pack config rs true supply).document.contents) :
    ∃ decoded, ((pack config rs true supply).encode >>= fun text => (decode text).run supply') =
        .ok (decoded, supply'') ∧
      decoded.resources.map Resource.contents = rs.map Resource.contents ∧
      decoded.resources.map Resource.getMeta = rs.map Resource.getMeta ∧
      decoded.results = none ∧ decoded.config.map Resource.contents = config.map Resource.contents := by
  obtain ⟨hitems, hconfig⟩ := contents_pack config rs supply
  generalize pack config rs true supply = p at hencode hsame hitems hconfig
  rw [Package.document_eq_map] at hsame
  obtain ⟨⟨id, es⟩, rfl, hes⟩ := exists_resource (r := ⟨noObject, p.entries⟩) hsame
  have hget : ∀ key, (MapEntries.get es key).contents = (p.entries.get key).contents := by
    intro key
    have hentries : Value.contentsOfEntries es = Value.contentsOfEntries p.entries :=
      congrArg Resource.entries hes
    rw [← MapEntries.get_contents, ← MapEntries.get_contents, hentries]
  -- each part of what was read is like that of what was written
  have hmarked : Marked (.map id es) := by
    have hkind : MapEntries.get es "kind" = .text kind := Value.contents_eq_text.1 (hget "kind")
    have hversion : MapEntries.get es "apiVersion" = .text version :=
      Value.contents_eq_text.1 (hget "apiVersion")
    exact .mk hkind ⟨version, List.mem_cons_self, hversion⟩
  obtain ⟨rs', hresources, hrs⟩ := exists_saysItems (hget "items") (List.map_map.trans hitems)
  have hresults : MapEntries.get es "results" = .null :=
    Value.contents_eq_null.1 ((hget "results").trans (congrArg Value.contents p.get_results))
  obtain ⟨config', hconfig', hsameConfig⟩ := exists_part (p.get_config ▸ hget "functionConfig")
  have hmeans : Says [.map id es] ⟨rs', none, config'⟩ :=
    .envelope hmarked hresources (hresults ▸ .part .absent) hconfig'
  have hdecode : (decode text).run supply' = .ok (⟨rs', none, config'⟩, supply'') :=
    (decode_ok_iff hread).2 ⟨rfl, ofDocuments_ok_iff.2 (.inl ⟨hmeans, not_stuck_of_marked hmarked⟩)⟩
  refine ⟨_, Result.bind_ok_iff.2 ⟨text, hencode, hdecode⟩, hrs, ?_, rfl, hsameConfig.trans hconfig⟩
  -- equal contents have equal metadata
  have hmeta := congrArg (List.map Resource.getMeta) hrs
  rw [List.map_map, List.map_map] at hmeta
  simpa [Function.comp_def, Resource.getMeta_contents] using hmeta

/-- A resource that looks like an envelope. -/
def lookalike : Resource := ⟨1, [(.text "kind", .text kind), (.text "items", .null)]⟩

/-- A collection that has the resource twice, and an empty configuration, as an envelope. -/
def lookalikes : String :=
  "apiVersion: config.kubernetes.io/v1alpha1\nkind: ResourceList\nitems:\n" ++
    "- kind: ResourceList\n  items: null\n- kind: ResourceList\n  items: null\n" ++
    "functionConfig: \x7b\x7d\n"

theorem decode_encode_lookalikes :
    ∃ decoded, ((pack (some ⟨2, []⟩) [lookalike, lookalike] true 1).encode >>= fun text =>
        (decode text).run 1) = .ok (decoded, 22) ∧
      decoded.resources.map Resource.contents = [lookalike, lookalike].map Resource.contents ∧
      decoded.config.map Resource.contents = some ⟨noObject, []⟩ := by
  have hencode : (pack (some ⟨2, []⟩) [lookalike, lookalike] true 1).encode = .ok lookalikes := by
    decide +kernel
  have hread : (Yaml.readAll lookalikes).run 1 = .ok ([.map 1 [
      (.text "apiVersion", .text version), (.text "kind", .text kind),
      (.text "items", .list 7 [.map 8 [(.text "kind", .text kind), (.text "items", .null)],
        .map 13 [(.text "kind", .text kind), (.text "items", .null)]]),
      (.text "functionConfig", .map 21 [])]], 22) := by decide +kernel
  obtain ⟨decoded, hdecode, hresources, -, -, hconfig⟩ := decode_encode hencode hread rfl
  exact ⟨decoded, hdecode, hresources, hconfig⟩

end Envelope

end ScopedFn
