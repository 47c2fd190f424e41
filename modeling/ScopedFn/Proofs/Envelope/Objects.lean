import ScopedFn.Invocation
import ScopedFn.Proofs.Yaml.Reading

/-!
# The objects of envelopes

What travels in an envelope shares no map with what stays behind. On the way in, the resources are
copied, and only the copies lose annotations. On the way back, everything is read anew.

* `Envelope.fresh_pack` : the edits made to what is sent concern copies only;
* `Envelope.within_decode` : the resources that a function wrote are made of new objects;
* `Envelope.coherent_decode` : a map that it wrote has the same entries wherever it stands;
* `Envelope.coherent_written` : in the results as well.
-/

set_option autoImplicit false

namespace ScopedFn

namespace Resource

variable {lo : ℕ} {r : Resource}

/-- Removing an annotation of a new resource is an edit of new maps. -/
theorem fresh_removalEdits (h : r.toValue.Fresh lo) (key : String) :
    ∀ e ∈ r.removalEdits key, e.Fresh lo := by
  obtain ⟨-, hes⟩ := Value.fresh_map.1 h
  unfold removalEdits
  split
  · rename_i id metadata hmeta
    obtain ⟨k, hmem⟩ := MapEntries.mem_of_get hmeta (by simp)
    obtain ⟨hid, hmetadata⟩ := Value.fresh_map.1 (hes _ hmem)
    split
    · rename_i id' annotations hann
      obtain ⟨k', hmem'⟩ := MapEntries.mem_of_get hann (by simp)
      have hremoval : (⟨id', .erase (.text key)⟩ : Edit).Fresh lo :=
        ⟨(Value.fresh_map.1 (hmetadata _ hmem')).1, trivial⟩
      dsimp only
      split
      · exact List.forall_mem_cons.2 ⟨hremoval, List.forall_mem_singleton.2 ⟨hid, trivial⟩⟩
      · exact List.forall_mem_singleton.2 hremoval
    · exact fun e he => absurd he List.not_mem_nil
  · exact fun e he => absurd he List.not_mem_nil

theorem fresh_editAll {es : List Edit} (h : r.toValue.Fresh lo) (hes : ∀ e ∈ es, e.Fresh lo) :
    (r.editAll es).toValue.Fresh lo := by
  induction es generalizing r with
  | nil => exact h
  | cons e es ih =>
    obtain ⟨he, hrest⟩ := List.forall_mem_cons.1 hes
    refine ih ?_ hrest
    rw [toValue_edit]
    exact h.edit he.change

end Resource

namespace Envelope

variable {lo hi : ℕ}

theorem fresh_removals {r : Resource} (h : r.toValue.Fresh lo) (keys : List String) :
    ∀ e ∈ removals r keys, e.Fresh lo := by
  induction keys generalizing r with
  | nil => exact fun e he => absurd he List.not_mem_nil
  | cons key keys ih =>
    have hkey := Resource.fresh_removalEdits h key
    exact List.forall_mem_append.2 ⟨hkey, ih (Resource.fresh_editAll h hkey)⟩

theorem fresh_item {keep : Bool} {r : Resource} {supply : Supply} (hlo : lo ≤ supply) :
    lo ≤ ((item keep r).run supply).2 ∧ ∀ e ∈ ((item keep r).run supply).1.edits, e.Fresh lo := by
  have hcopy : (r.copy.run supply).1.toValue.Fresh lo := (Resource.fresh_copy r supply).mono hlo
  refine ⟨le_trans hlo (Nat.le_add_right supply r.toValue.bound), ?_⟩
  cases keep with
  | true => exact fun e he => absurd he List.not_mem_nil
  | false => exact fresh_removals hcopy readerKeys

theorem fresh_items {keep : Bool} {rs : List Resource} {supply : Supply} (hlo : lo ≤ supply) :
    ∀ i ∈ ((rs.mapM (item keep)).run supply).1, ∀ e ∈ i.edits, e.Fresh lo := by
  induction rs generalizing supply with
  | nil => exact fun i hi => absurd hi List.not_mem_nil
  | cons r rs ih =>
    obtain ⟨hle, hitem⟩ := @fresh_item lo keep r supply hlo
    rw [List.mapM_cons]
    exact List.forall_mem_cons.2 ⟨hitem, ih hle⟩

/-- The edits made to what is sent concern copies only. -/
theorem fresh_pack (config : Option Resource) (rs : List Resource) (keep : Bool) (supply : Supply) :
    ∀ e ∈ (pack config rs keep supply).edits, e.Fresh (max supply (bound config rs)) := by
  intro e he
  obtain ⟨i, hi, hmem⟩ := List.mem_flatMap.1 he
  exact fresh_items le_rfl i hi e hmem

theorem toValue_of_asResource {part : String} {v : Value} {r : Resource}
    (h : asResource part v = .ok r) : r.toValue = v := by
  unfold asResource Resource.ofValue? at h
  cases v <;> cases h
  rfl

theorem toValue_mem_of_asResources {part : String} {skipNull : Bool} {n : ℕ} {vs : List Value}
    {rs : List Resource} (h : asResources part skipNull n vs = .ok rs) :
    ∀ r ∈ rs, r.toValue ∈ vs := by
  induction vs generalizing n rs with
  | nil =>
    obtain rfl := Except.ok.inj h
    exact fun r hr => absurd hr List.not_mem_nil
  | cons v vs ih =>
    rw [asResources] at h
    split at h
    · exact fun r hr => List.mem_cons_of_mem v (ih h r hr)
    · obtain ⟨r, hr, h⟩ := Result.ok_of_bind h
      obtain ⟨rs', hrs, h⟩ := Result.ok_of_bind h
      obtain rfl := Except.ok.inj h
      refine List.forall_mem_cons.2 ⟨?_, fun q hq => List.mem_cons_of_mem v (ih hrs q hq)⟩
      exact List.mem_cons.2 (.inl (toValue_of_asResource hr))

/-- A map among values stands in one of them. -/
theorem mem_maps_of_toValue_mem {vs : List Value} {r : Resource} (h : r.toValue ∈ vs) :
    (r.id, r.entries) ∈ Value.mapsOfItems vs :=
  Value.mem_mapsOfItems.2 ⟨_, h, List.mem_cons_self⟩

theorem mapsOfItems_itemsOf {v : Value} {items : List Value} (h : itemsOf v = .ok items) :
    Value.mapsOfItems items ⊆ v.maps := by
  unfold itemsOf at h
  split at h
  · split at h
    · exact Except.ok.inj h ▸ fun _ hm => hm
    · cases h
  · obtain rfl := Except.ok.inj h
    exact List.nil_subset _

theorem mem_maps_of_contents {es : MapEntries} {decoded : Decoded} (h : contents es = .ok decoded) :
    ∀ r ∈ decoded.resources, (r.id, r.entries) ∈ Value.mapsOfEntries es := by
  obtain ⟨items, hitems, h⟩ := Result.ok_of_bind h
  obtain ⟨resources, hresources, h⟩ := Result.ok_of_bind h
  obtain ⟨results, -, h⟩ := Result.ok_of_bind h
  have hrs : ∀ r ∈ resources, (r.id, r.entries) ∈ Value.mapsOfEntries es := fun r hr =>
    Value.maps_get_subset es "items" (mapsOfItems_itemsOf hitems
      (mem_maps_of_toValue_mem (toValue_mem_of_asResources hresources r hr)))
  split at h
  · obtain ⟨config, -, h⟩ := Result.ok_of_bind h
    exact Except.ok.inj h ▸ hrs
  · obtain ⟨config, -, h⟩ := Result.ok_of_bind h
    exact Except.ok.inj h ▸ hrs

/-- The resources that documents say are maps that stand in the documents. -/
theorem mem_maps_of_ofDocuments {docs : List Value} {decoded : Decoded}
    (h : ofDocuments docs = .ok decoded) :
    ∀ r ∈ decoded.resources, (r.id, r.entries) ∈ Value.mapsOfItems docs := by
  unfold ofDocuments at h
  split at h
  · rename_i id es
    obtain ⟨found, -, h⟩ := Result.ok_of_bind h
    split at h
    · intro r hr
      exact Value.mem_mapsOfItems.2
        ⟨.map id es, List.mem_cons_self, List.mem_cons_of_mem _ (mem_maps_of_contents h r hr)⟩
    · obtain rfl := Except.ok.inj h
      exact List.forall_mem_singleton.2 (mem_maps_of_toValue_mem List.mem_cons_self)
  · have hrest : ∀ {d : Decoded}, (do
        return ⟨← asResources "document" false 0 docs, none, none⟩ : Except Failure Decoded) = .ok d →
        ∀ r ∈ d.resources, (r.id, r.entries) ∈ Value.mapsOfItems docs := fun hd => by
      obtain ⟨rs, hrs, hd⟩ := Result.ok_of_bind hd
      obtain rfl := Except.ok.inj hd
      exact fun r hr => mem_maps_of_toValue_mem (toValue_mem_of_asResources hrs r hr)
    split at h
    · obtain ⟨_, _, h⟩ := Result.ok_of_bind h
      exact hrest h
    · exact hrest h

/-- What a function wrote is told by documents, which are made of new objects and registered maps. -/
theorem exists_documents {text : String} {decoded : Decoded} {supply supply' : Supply}
    (h : (decode text).run supply = .ok (decoded, supply')) :
    ∃ (w : Yaml.Register supply) (docs : List Value), w.supply = supply' ∧
      (∀ v ∈ docs, Yaml.Recorded w v) ∧ ofDocuments docs = .ok decoded := by
  unfold decode at h
  simp only [StateT.run] at h
  split at h
  · cases h
  · rename_i docs supply₁ hread
    obtain ⟨decoded', hdecoded, h⟩ := Result.ok_of_bind h
    obtain ⟨rfl, rfl⟩ := Prod.mk.inj (Except.ok.inj h)
    obtain ⟨w, hsupply, hdocs⟩ := Yaml.recorded_readAll hread
    exact ⟨w, _, hsupply, fun v hv => hdocs v (List.mem_of_mem_filter hv), hdecoded⟩

theorem recorded_ofDocuments {w : Yaml.Register lo} {docs : List Value} {decoded : Decoded}
    (hdocs : ∀ v ∈ docs, Yaml.Recorded w v) (h : ofDocuments docs = .ok decoded) :
    ∀ r ∈ decoded.resources, Yaml.Recorded w r.toValue := by
  intro r hr
  obtain ⟨v, hv, hmem⟩ := Value.mem_mapsOfItems.1 (mem_maps_of_ofDocuments h r hr)
  exact (hdocs v hv).of_mem_maps hmem

/-- The resources that a function wrote are made of new objects and registered maps. -/
theorem recorded_decode {text : String} {decoded : Decoded} {supply supply' : Supply}
    (h : (decode text).run supply = .ok (decoded, supply')) :
    ∃ w : Yaml.Register supply, w.supply = supply' ∧
      ∀ r ∈ decoded.resources, Yaml.Recorded w r.toValue := by
  obtain ⟨w, docs, hsupply, hdocs, hdecoded⟩ := exists_documents h
  exact ⟨w, hsupply, recorded_ofDocuments hdocs hdecoded⟩

/-- The resources that a function wrote are made of new objects. -/
theorem within_decode {text : String} {decoded : Decoded} {supply supply' : Supply}
    (h : (decode text).run supply = .ok (decoded, supply')) :
    supply ≤ supply' ∧ ∀ r ∈ decoded.resources, r.toValue.Within supply supply' := by
  obtain ⟨w, rfl, hrs⟩ := recorded_decode h
  exact ⟨w.start, fun r hr => (hrs r hr).within⟩

/-- A map that a function wrote has the same entries wherever it stands. -/
theorem coherent_decode {text : String} {decoded : Decoded} {supply supply' : Supply}
    (h : (decode text).run supply = .ok (decoded, supply')) :
    Coherent (decoded.resources.flatMap fun r => r.toValue.maps) := by
  obtain ⟨w, rfl, hrs⟩ := recorded_decode h
  refine Yaml.coherent_of_recorded (w := w) fun m hm => ?_
  obtain ⟨r, hr, hin⟩ := List.mem_flatMap.1 hm
  exact (hrs r hr).maps m hin

/-! ### Results -/

/-- The resource that a list of results becomes. -/
def listed (v : Value) : Resource :=
  ⟨noObject, [(.text "apiVersion", .text version), (.text "kind", .text resultsKind),
    (.text "items", v)]⟩

theorem asResults_cases {v : Value} {results : Resource} (h : asResults v = .ok (some results)) :
    results.toValue = v ∨ results = listed v := by
  unfold asResults at h
  split at h
  · cases h
  · exact .inr (Option.some.inj (Except.ok.inj h)).symm
  · obtain ⟨r, hr, heq⟩ := Result.ok_of_map h
    exact .inl (Option.some.inj heq ▸ toValue_of_asResource hr)

theorem recorded_get {w : Yaml.Register lo} {id : ObjectId} {es : MapEntries}
    (h : Yaml.Recorded w (.map id es)) (key : String) : Yaml.Recorded w (MapEntries.get es key) := by
  by_cases hnull : MapEntries.get es key = .null
  · rw [hnull]
    exact Yaml.recorded_atom (Nat.zero_le _)
  · obtain ⟨k, hmem⟩ := MapEntries.mem_of_get rfl hnull
    exact ⟨h.within.of_map _ hmem, fun m hm =>
      h.maps m (List.mem_cons_of_mem _ (Value.maps_get_subset es key hm))⟩

theorem results_of_contents {es : MapEntries} {decoded : Decoded} (h : contents es = .ok decoded) :
    asResults (MapEntries.get es "results") = .ok decoded.results := by
  obtain ⟨items, -, h⟩ := Result.ok_of_bind h
  obtain ⟨resources, -, h⟩ := Result.ok_of_bind h
  obtain ⟨results, hresults, h⟩ := Result.ok_of_bind h
  split at h
  · obtain ⟨config, -, h⟩ := Result.ok_of_bind h
    exact Except.ok.inj h ▸ hresults
  · obtain ⟨config, -, h⟩ := Result.ok_of_bind h
    exact Except.ok.inj h ▸ hresults

/-- Results stand in an envelope, which is the only document. -/
theorem results_of_ofDocuments {docs : List Value} {decoded : Decoded} {results : Resource}
    (h : ofDocuments docs = .ok decoded) (hresults : decoded.results = some results) :
    ∃ id es, .map id es ∈ docs ∧ asResults (MapEntries.get es "results") = .ok (some results) := by
  unfold ofDocuments at h
  split at h
  · rename_i id es
    obtain ⟨found, -, h⟩ := Result.ok_of_bind h
    split at h
    · exact ⟨id, es, List.mem_cons_self, hresults ▸ results_of_contents h⟩
    · obtain rfl := Except.ok.inj h
      cases hresults
  · have hrest : ∀ {d : Decoded}, (do
        return ⟨← asResources "document" false 0 docs, none, none⟩ : Except Failure Decoded) = .ok d →
        d.results = none := fun hd => by
      obtain ⟨rs, -, hd⟩ := Result.ok_of_bind hd
      exact Except.ok.inj hd ▸ rfl
    split at h
    · obtain ⟨_, _, h⟩ := Result.ok_of_bind h
      exact absurd ((hrest h).symm.trans hresults) (by simp)
    · exact absurd ((hrest h).symm.trans hresults) (by simp)

/-- All that a function wrote, the results first. -/
def Decoded.written (d : Decoded) : List Resource := d.results.toList ++ d.resources

/-- What the results hold: what a document holds, and if they are a list, a map that is no object of
the document. -/
theorem recorded_results {w : Yaml.Register lo} {docs : List Value} {decoded : Decoded}
    {results : Resource} (hdocs : ∀ v ∈ docs, Yaml.Recorded w v)
    (h : ofDocuments docs = .ok decoded) (hresults : decoded.results = some results) :
    ∃ v, Yaml.Recorded w v ∧ (results.toValue = v ∨ results = listed v) := by
  obtain ⟨id, es, hmem, hes⟩ := results_of_ofDocuments h hresults
  exact ⟨_, recorded_get (hdocs _ hmem) "results", asResults_cases hes⟩

theorem maps_listed (v : Value) :
    (listed v).toValue.maps = (noObject, (listed v).entries) :: v.maps := by
  simp [listed, Resource.toValue, Value.maps, Value.mapsOfEntries]

theorem bound_listed {v : Value} {hi : ℕ} (hpos : noObject < hi) (hv : v.bound ≤ hi) :
    (listed v).toValue.bound ≤ hi := by
  refine Value.bound_map_le_iff.2 ⟨hpos, ?_⟩
  simp only [listed, List.forall_mem_cons, List.not_mem_nil, false_implies, implies_true, and_true]
  exact ⟨⟨Nat.zero_le _, Nat.zero_le _⟩, ⟨Nat.zero_le _, Nat.zero_le _⟩, Nat.zero_le _, hv⟩

/-- Registered maps and one that is older have one content each. -/
theorem coherent_of_registered {w : Yaml.Register lo} {ms : List (ObjectId × MapEntries)}
    {root : ObjectId × MapEntries} (hroot : root.1 < lo)
    (h : ∀ m ∈ ms, (∃ v, Yaml.Recorded w v ∧ m ∈ v.maps) ∨ m = root) : Coherent ms := by
  have hold : ∀ {m}, m ∈ ms → m ≠ root → ∃ n ∈ w.nodes, n.read.value = .map m.1 m.2 :=
    fun hm hne => by
      obtain ⟨v, hv, hin⟩ := (h _ hm).resolve_right hne
      exact hv.maps _ hin
  have hnew : ∀ {m}, m ∈ ms → m ≠ root → m.1 ≠ root.1 := fun hm hne => by
    obtain ⟨v, hv, hin⟩ := (h _ hm).resolve_right hne
    have hmem := Value.map_fst_maps v ▸ List.mem_map_of_mem hin
    exact (lt_of_lt_of_le hroot (hv.within.fresh _ hmem)).ne'
  intro m hm m' hm' hid
  by_cases hm₀ : m = root <;> by_cases hm₀' : m' = root
  · rw [hm₀, hm₀']
  · exact absurd (hm₀ ▸ hid).symm (hnew hm' hm₀')
  · exact absurd (hm₀' ▸ hid) (hnew hm hm₀)
  · have hpair : Coherent [m, m'] := Yaml.coherent_of_recorded (List.forall_mem_cons.2
      ⟨hold hm hm₀, List.forall_mem_singleton.2 (hold hm' hm₀')⟩)
    exact hpair m (by simp) m' (by simp) hid

/-- A map in what a function wrote has the same entries wherever it stands, in the results as well. -/
theorem coherent_written {text : String} {decoded : Decoded} {supply supply' : Supply}
    (h : (decode text).run supply = .ok (decoded, supply')) (hpos : noObject < supply) :
    Coherent (decoded.written.flatMap fun r => r.toValue.maps) ∧
      ∀ r ∈ decoded.written, r.toValue.bound ≤ supply' := by
  obtain ⟨w, docs, rfl, hdocs, hdecoded⟩ := exists_documents h
  have hresources := recorded_ofDocuments hdocs hdecoded
  rw [Decoded.written]
  cases hresults : decoded.results with
  | none => exact ⟨coherent_decode h, fun r hr => (hresources r hr).within.bound⟩
  | some results =>
    obtain ⟨v, hv, hcases⟩ := recorded_results hdocs hdecoded hresults
    rw [Option.toList_some, List.singleton_append]
    constructor
    · have hroot : ((noObject, (listed v).entries) : ObjectId × MapEntries).1 < supply := hpos
      refine coherent_of_registered (w := w) hroot fun m hm => ?_
      obtain ⟨r, hr, hin⟩ := List.mem_flatMap.1 hm
      obtain rfl | hr := List.mem_cons.1 hr
      · obtain heq | rfl := hcases
        · exact .inl ⟨v, hv, heq ▸ hin⟩
        · rw [maps_listed] at hin
          exact (List.mem_cons.1 hin).symm.imp_left fun hin => ⟨v, hv, hin⟩
      · exact .inl ⟨_, hresources r hr, hin⟩
    · refine List.forall_mem_cons.2 ⟨?_, fun r hr => (hresources r hr).within.bound⟩
      obtain heq | rfl := hcases
      · exact heq ▸ hv.within.bound
      · exact bound_listed (lt_of_lt_of_le hpos w.start) hv.within.bound

end Envelope

end ScopedFn
