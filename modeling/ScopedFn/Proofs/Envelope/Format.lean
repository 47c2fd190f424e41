import ScopedFn.Proofs.Envelope.Objects
import ScopedFn.Proofs.Value.Decidable

/-!
# What the output of a function may be

The output of a function is nothing, one envelope, or a stream of resources, and whatever else it
is, the operator is told what is wrong with it. Two slips keep the reading of outputs from this.
Items that are empty, such as an empty map, count as no items, though they are no list. And a
version that is a list or a map cannot be looked up among the versions, which is reported as no
fault of the output.

* `Envelope.Says` : what the documents of an output say, as the format has it;
* `Envelope.ofDocuments_ok_iff` : what is accepted is in the format, or an envelope with empty
  items that are no list;
* `Envelope.described_ofDocuments_iff` : what is not accepted is described, unless a version that
  is a collection has to be looked up;
* `Envelope.keepsFormat_iff` : the outputs that are read as the format says.
-/

set_option autoImplicit false

namespace ScopedFn

namespace Envelope

/-! ### The format -/

/-- The value is one of the versions. -/
def IsVersion (v : Value) : Prop := ∃ s ∈ versions, v = .text s

/-- The value is marked as an envelope, by its kind and its version. -/
inductive Marked : Value → Prop
  | mk {id : ObjectId} {es : MapEntries} : es.get "kind" = .text kind →
    IsVersion (es.get "apiVersion") → Marked (.map id es)

/-- The items of an envelope are these resources, nulls left out. -/
inductive SaysItems : Value → List Resource → Prop
  | absent : SaysItems .null []
  | list {id : ObjectId} {vs : List Value} {rs : List Resource} :
    vs.filter (!·.isNull) = rs.map Resource.toValue → SaysItems (.list id vs) rs

/-- A part of an envelope that holds at most one resource holds this one. -/
inductive SaysPart : Value → Option Resource → Prop
  | absent : SaysPart .null none
  | map (r : Resource) : SaysPart r.toValue (some r)

/-- A list of results as one resource. -/
def resultList (id : ObjectId) (vs : List Value) : Resource :=
  ⟨noObject, [(.text "apiVersion", .text version), (.text "kind", .text resultsKind),
    (.text "items", .list id vs)]⟩

/-- The results of an envelope are these. -/
inductive SaysResults : Value → Option Resource → Prop
  | part {v : Value} {r : Option Resource} : SaysPart v r → SaysResults v r
  | list (id : ObjectId) (vs : List Value) : SaysResults (.list id vs) (some (resultList id vs))

/-- What the documents of an output say. A stream of resources may be empty. -/
inductive Says : List Value → Decoded → Prop
  | envelope {id : ObjectId} {es : MapEntries} {d : Decoded} : Marked (.map id es) →
    SaysItems (es.get "items") d.resources → SaysResults (es.get "results") d.results →
    SaysPart (es.get "functionConfig") d.config → Says [.map id es] d
  | stream {rs : List Resource} : (∀ r ∈ rs, ¬Marked r.toValue) →
    Says (rs.map Resource.toValue) ⟨rs, none, none⟩

/-! ### Departures from the format -/

/-- The items are empty, but neither absent nor a list. -/
def LaxItems (v : Value) : Prop := v.isFilled = false ∧ v ≠ .null ∧ ∀ id vs, v ≠ .list id vs

/-- The output is an envelope with empty items that are no list, and is taken to say this. -/
inductive SaysLaxly : List Value → Decoded → Prop
  | mk {id : ObjectId} {es : MapEntries} {results config : Option Resource} : Marked (.map id es) →
    LaxItems (es.get "items") → SaysResults (es.get "results") results →
    SaysPart (es.get "functionConfig") config → SaysLaxly [.map id es] ⟨[], results, config⟩

/-- The value is a list or a map, which cannot be looked up. -/
inductive IsCollection : Value → Prop
  | list (id : ObjectId) (vs : List Value) : IsCollection (.list id vs)
  | map (id : ObjectId) (es : MapEntries) : IsCollection (.map id es)

/-- The value has the kind of an envelope, and a collection as its version. -/
inductive Unlookable : Value → Prop
  | mk {id : ObjectId} {es : MapEntries} : es.get "kind" = .text kind →
    IsCollection (es.get "apiVersion") → Unlookable (.map id es)

/-- A version that is a collection is come upon before any envelope. -/
inductive Stuck : List Value → Prop
  | here {v : Value} {docs : List Value} : Unlookable v → Stuck (v :: docs)
  | later {v : Value} {docs : List Value} : ¬Marked v → Stuck docs → Stuck (v :: docs)

/-! ### What is accepted -/

variable {v : Value} {vs docs items : List Value} {rs : List Resource} {r : Resource} {d : Decoded}
  {part : String} {skip : Bool} {n count : ℕ}

theorem asResource_ok_iff : asResource part v = .ok r ↔ v = r.toValue := by
  constructor
  · intro h
    exact (toValue_of_asResource h).symm
  · rintro rfl
    rfl

theorem asResources_ok_iff :
    asResources part skip n vs = .ok rs ↔ vs.filter (fun v => !(skip && v.isNull)) = rs.map Resource.toValue := by
  induction vs generalizing n rs with
  | nil => simp [asResources, eq_comm]
  | cons v vs ih =>
    rw [asResources, List.filter_cons]
    by_cases hskip : skip && v.isNull
    · simp [hskip, ih]
    · simp only [hskip, Bool.false_eq_true, ↓reduceIte, Bool.not_false, Result.bind_ok_iff, asResource_ok_iff, ih]
      constructor
      · rintro ⟨r, rfl, rs', hrs, heq⟩
        obtain rfl := Except.ok.inj heq
        rw [List.map_cons, hrs]
      · intro h
        obtain ⟨r, rs', rfl, hr, hrs⟩ := List.map_eq_cons_iff.1 h.symm
        exact ⟨r, hr.symm, rs', hrs.symm, rfl⟩

theorem asPart_ok_iff {r? : Option Resource} (hv : v ≠ .null) :
    (asResource part v).map some = .ok r? ↔ SaysPart v r? := by
  constructor
  · intro h
    obtain ⟨r, hr, rfl⟩ := Result.ok_of_map h
    exact asResource_ok_iff.1 hr ▸ .map r
  · rintro (- | r)
    · exact absurd rfl hv
    · rfl

theorem asResults_ok_iff {r? : Option Resource} : asResults v = .ok r? ↔ SaysResults v r? := by
  unfold asResults
  split
  · -- no results
    constructor
    · intro h
      exact Except.ok.inj h ▸ .part .absent
    · rintro (⟨⟨⟩⟩ | _)
      rfl
  · -- a list of results
    constructor
    · intro h
      exact Except.ok.inj h ▸ .list _ _
    · rintro (⟨⟨⟩⟩ | _)
      rfl
  · rename_i hnull hlist
    rw [asPart_ok_iff hnull]
    constructor
    · exact .part
    · rintro (h | ⟨id, vs⟩)
      · exact h
      · exact absurd rfl (hlist id vs)

theorem itemsOf_ok_iff :
    itemsOf v = .ok items ↔ (∃ id, v = .list id items) ∨ (v = .null ∨ LaxItems v) ∧ items = [] := by
  unfold itemsOf
  by_cases hlist : ∃ id vs, v = .list id vs
  · obtain ⟨id, vs, rfl⟩ := hlist
    cases vs <;> simp [Value.isFilled, LaxItems, eq_comm]
  · have hne : ∀ id vs, v ≠ .list id vs := fun id vs h => hlist ⟨id, vs, h⟩
    by_cases hfilled : v.isFilled
    · -- what is filled is not null
      have hnull : v ≠ .null := fun h => by simp [h, Value.isFilled, Atom.isFilled] at hfilled
      rw [if_pos hfilled]
      split
      · exact absurd rfl (hne _ _)
      · simp [LaxItems, hfilled, hnull, hne]
    · have hor : v = .null ∨ LaxItems v := by
        by_cases hnull : v = .null
        · exact .inl hnull
        · exact .inr ⟨by simpa using hfilled, hnull, hne⟩
      simp [hfilled, hor, hne, eq_comm]

theorem SaysItems.exists_items (h : SaysItems v rs) :
    ∃ items, itemsOf v = .ok items ∧ asResources "items" true 0 items = .ok rs := by
  cases h with
  | absent => exact ⟨[], rfl, rfl⟩
  | @list id vs rs hrs =>
    refine ⟨vs, itemsOf_ok_iff.2 (.inl ⟨id, rfl⟩), asResources_ok_iff.2 ?_⟩
    simpa using hrs

theorem contents_ok_iff {es : MapEntries} :
    contents es = .ok d ↔ ∃ items, itemsOf (es.get "items") = .ok items ∧
      asResources "items" true 0 items = .ok d.resources ∧
      asResults (es.get "results") = .ok d.results ∧ SaysPart (es.get "functionConfig") d.config := by
  constructor
  · intro h
    obtain ⟨items, hitems, h⟩ := Result.ok_of_bind h
    obtain ⟨resources, hresources, h⟩ := Result.ok_of_bind h
    obtain ⟨results, hresults, h⟩ := Result.ok_of_bind h
    split at h
    · rename_i habsent
      obtain rfl := Except.ok.inj h
      exact ⟨items, hitems, hresources, hresults, habsent ▸ .absent⟩
    · rename_i hpresent
      obtain ⟨config, hconfig, h⟩ := Result.ok_of_bind h
      obtain rfl := Except.ok.inj h
      exact ⟨items, hitems, hresources, hresults, (asPart_ok_iff hpresent).1 hconfig⟩
  · obtain ⟨resources, results, config⟩ := d
    rintro ⟨items, hitems, hresources, hresults, hconfig⟩
    refine Result.bind_ok_iff.2 ⟨items, hitems, Result.bind_ok_iff.2 ⟨resources, hresources,
      Result.bind_ok_iff.2 ⟨results, hresults, ?_⟩⟩⟩
    generalize es.get "functionConfig" = c at hconfig
    cases hconfig <;> rfl

/-! ### What is refused -/

/-- If it fails, it is for a described fault in what was read. -/
def Described {α : Type} (x : Except Failure α) : Prop :=
  ∀ failure, x = .error failure → ∃ fault, failure = .fault (.decode fault)

section

variable {α β : Type} {x : Except Failure α} {f : α → Except Failure β}

theorem described_ok (a : α) : Described (.ok a) := nofun

theorem described_decode (fault : DecodeFault) :
    Described (.error (.fault (.decode fault)) : Except Failure α) :=
  fun _ h => ⟨fault, (Except.error.inj h).symm⟩

theorem Described.bind (hx : Described x) (hf : ∀ a, x = .ok a → Described (f a)) :
    Described (x >>= f) := by
  cases x with
  | ok a => exact hf a rfl
  | error failure =>
    intro failure' h
    exact hx failure' (congrArg Except.error (Except.error.inj h))

end

theorem described_asResource (part : String) (v : Value) : Described (asResource part v) := by
  unfold asResource
  split
  · exact described_ok _
  · exact described_decode _

theorem described_asResources (part : String) (skip : Bool) (n : ℕ) (vs : List Value) :
    Described (asResources part skip n vs) := by
  induction vs generalizing n with
  | nil => exact described_ok _
  | cons v vs ih =>
    unfold asResources
    split
    · exact ih _
    · exact (described_asResource _ _).bind fun r _ => (ih _).bind fun rs _ => described_ok _

theorem described_itemsOf (v : Value) : Described (itemsOf v) := by
  unfold itemsOf
  split
  · split
    · exact described_ok _
    · exact described_decode _
  · exact described_ok _

theorem described_asPart (part : String) (v : Value) : Described (some <$> asResource part v) := by
  have hpart : some <$> asResource part v = asResource part v >>= fun r => .ok (some r) := by
    cases asResource part v <;> rfl
  rw [hpart]
  exact (described_asResource part v).bind fun r _ => described_ok _

theorem described_asResults (v : Value) : Described (asResults v) := by
  unfold asResults
  split
  · exact described_ok _
  · exact described_ok _
  · exact described_asPart _ _

theorem described_contents (es : MapEntries) : Described (contents es) := by
  unfold contents
  refine (described_itemsOf _).bind fun items _ => ?_
  refine (described_asResources _ _ _ _).bind fun resources _ => ?_
  refine (described_asResults _).bind fun results _ => ?_
  split
  · exact described_ok _
  · exact (described_asPart _ _).bind fun config _ => described_ok _

/-! ### Looking for envelopes -/

/-- A value is a version, or none, or cannot be looked up. -/
theorem isVersion_cases (v : Value) :
    isVersion v = .ok true ∧ IsVersion v ∧ ¬IsCollection v ∨
      isVersion v = .ok false ∧ ¬IsVersion v ∧ ¬IsCollection v ∨
      isVersion v = .error .versionNotAtom ∧ ¬IsVersion v ∧ IsCollection v := by
  cases v with
  | list id vs => exact .inr (.inr ⟨rfl, by simp [IsVersion], .list id vs⟩)
  | map id es => exact .inr (.inr ⟨rfl, by simp [IsVersion], .map id es⟩)
  | tuple id items => exact .inr (.inl ⟨rfl, by simp [IsVersion], nofun⟩)
  | set id ms => exact .inr (.inl ⟨rfl, by simp [IsVersion], nofun⟩)
  | atom a =>
    cases a with
    | text s =>
      by_cases hs : s ∈ versions
      · refine .inl ⟨?_, ⟨s, hs, rfl⟩, nofun⟩
        exact congrArg Except.ok (List.contains_iff_mem.2 hs)
      · refine .inr (.inl ⟨?_, ?_, nofun⟩)
        · exact congrArg Except.ok (Bool.eq_false_iff.2 fun h => hs (List.contains_iff_mem.1 h))
        · rintro ⟨s', hs', ⟨⟩⟩
          exact hs hs'
    | _ => exact .inr (.inl ⟨rfl, by simp [IsVersion], nofun⟩)

theorem same_text {s : String} : v.same (.text s) = true ↔ v = .text s := by
  cases v <;> simp [Value.same, Atom.same_text]

/-- A document is an envelope, or none, or its version cannot be looked up. -/
theorem isEnvelope_cases (v : Value) :
    isEnvelope v = .ok true ∧ Marked v ∧ ¬Unlookable v ∨
      isEnvelope v = .ok false ∧ ¬Marked v ∧ ¬Unlookable v ∨
      isEnvelope v = .error .versionNotAtom ∧ ¬Marked v ∧ Unlookable v := by
  cases v with
  | atom a | list id items | tuple id items | set id ms => exact .inr (.inl ⟨rfl, nofun, nofun⟩)
  | map id es =>
    by_cases hkind : MapEntries.get es "kind" = .text kind
    · have hlook : isEnvelope (.map id es) = isVersion (MapEntries.get es "apiVersion") :=
        if_pos (same_text.2 hkind)
      have hmarked : Marked (.map id es) ↔ IsVersion (MapEntries.get es "apiVersion") :=
        ⟨fun ⟨_, h⟩ => h, .mk hkind⟩
      have hunlookable : Unlookable (.map id es) ↔ IsCollection (MapEntries.get es "apiVersion") :=
        ⟨fun ⟨_, h⟩ => h, .mk hkind⟩
      rw [hlook, hmarked, hunlookable]
      exact isVersion_cases _
    · have hlook : isEnvelope (.map id es) = .ok false := if_neg fun h => hkind (same_text.1 h)
      exact .inr (.inl ⟨hlook, fun ⟨h, _⟩ => hkind h, fun ⟨h, _⟩ => hkind h⟩)

/-- Among the documents of a stream there is no envelope, or one is found, or a version that is a
collection is come upon first. -/
theorem noneIsEnvelope_cases (count n : ℕ) (docs : List Value) :
    noneIsEnvelope count n docs = .ok () ∧ (∀ v ∈ docs, ¬Marked v) ∧ ¬Stuck docs ∨
      (∃ m, noneIsEnvelope count n docs = .error (.fault (.decode (.envelopeInStream m count)))) ∧
        (∃ v ∈ docs, Marked v) ∧ ¬Stuck docs ∨
      noneIsEnvelope count n docs = .error .versionNotAtom ∧ Stuck docs := by
  induction docs generalizing n with
  | nil => exact .inl ⟨rfl, nofun, nofun⟩
  | cons v docs ih =>
    obtain ⟨hlook, hmarked, hlookable⟩ | ⟨hlook, hmarked, hlookable⟩ | ⟨hlook, hmarked, hunlookable⟩ :=
      isEnvelope_cases v
    · refine .inr (.inl ⟨⟨n, by rw [noneIsEnvelope, hlook]; rfl⟩, ⟨v, List.mem_cons_self, hmarked⟩, ?_⟩)
      rintro (h | ⟨h, -⟩)
      · exact hlookable h
      · exact h hmarked
    · have hrest : noneIsEnvelope count n (v :: docs) = noneIsEnvelope count (n + 1) docs := by
        rw [noneIsEnvelope, hlook]
        rfl
      have hstuck : Stuck (v :: docs) ↔ Stuck docs := by
        constructor
        · rintro (h | ⟨-, h⟩)
          · exact absurd h hlookable
          · exact h
        · exact .later hmarked
      rw [hrest, hstuck, List.forall_mem_cons]
      simpa [hmarked] using ih (n + 1)
    · exact .inr (.inr ⟨by rw [noneIsEnvelope, hlook]; rfl, .here hunlookable⟩)

/-! ### The whole output -/

/-- The documents of an output as a stream of resources. -/
def stream (docs : List Value) : Except Failure Decoded := do
  noneIsEnvelope docs.length 0 docs
  return ⟨← asResources "document" false 0 docs, none, none⟩

theorem Marked.ofDocuments_eq (h : Marked v) :
    ∃ id es, v = .map id es ∧ ofDocuments [v] = contents es := by
  obtain ⟨hlook, -⟩ | ⟨-, hmarked, -⟩ | ⟨-, hmarked, -⟩ := isEnvelope_cases v
  · obtain ⟨-, -⟩ := h
    refine ⟨_, _, rfl, ?_⟩
    rw [ofDocuments, hlook]
    rfl
  · exact absurd h hmarked
  · exact absurd h hmarked

/-- Whatever is not a single envelope is read as a stream. -/
theorem ofDocuments_stream (h : ∀ v, docs = [v] → ¬Marked v) : ofDocuments docs = stream docs := by
  unfold ofDocuments
  split
  · rename_i id es
    unfold stream noneIsEnvelope
    obtain ⟨-, hmarked, -⟩ | ⟨hlook, -⟩ | ⟨hlook, -⟩ := isEnvelope_cases (.map id es)
    · exact absurd hmarked (h _ rfl)
    · rw [hlook]
      rfl
    · rw [hlook]
      rfl
  · rename_i hmap
    split
    · rfl
    · rename_i hlength
      -- one document that is no map, or none at all
      match docs with
      | [] => rfl
      | [.atom a] | [.list id vs] | [.tuple id vs] | [.set id ms] => rfl
      | [.map id es] => exact absurd rfl (hmap id es)
      | v :: w :: docs => simp at hlength

theorem stream_ok_iff : stream docs = .ok d ↔ (∀ v ∈ docs, ¬Marked v) ∧ ¬Stuck docs ∧
    ∃ rs : List Resource, docs = rs.map Resource.toValue ∧ d = ⟨rs, none, none⟩ := by
  unfold stream
  obtain ⟨hnone, hmarked, hstuck⟩ | ⟨⟨m, hfound⟩, ⟨v, hv, hmarked⟩, -⟩ | ⟨hfound, hstuck⟩ :=
    noneIsEnvelope_cases docs.length 0 docs
  · have hall : docs.filter (fun v => !(false && v.isNull)) = docs := by simp
    constructor
    · intro h
      obtain ⟨_, -, h⟩ := Result.ok_of_bind h
      obtain ⟨rs, hrs, h⟩ := Result.ok_of_bind h
      rw [asResources_ok_iff, hall] at hrs
      exact ⟨hmarked, hstuck, rs, hrs, (Except.ok.inj h).symm⟩
    · rintro ⟨-, -, rs, hrs, rfl⟩
      have hread : asResources "document" false 0 docs = .ok rs :=
        asResources_ok_iff.2 (hall.trans hrs)
      exact Result.bind_ok_iff.2 ⟨(), hnone, Result.bind_ok_iff.2 ⟨rs, hread, rfl⟩⟩
  · rw [hfound]
    exact ⟨nofun, fun h => absurd hmarked (h.1 v hv)⟩
  · rw [hfound]
    exact ⟨nofun, fun h => absurd hstuck h.2.1⟩

theorem not_described_versionNotAtom {α : Type} :
    ¬Described (.error .versionNotAtom : Except Failure α) := by
  intro h
  obtain ⟨fault, ⟨⟩⟩ := h _ rfl

theorem described_stream_iff : Described (stream docs) ↔ ¬Stuck docs := by
  unfold stream
  obtain ⟨hnone, -, hstuck⟩ | ⟨⟨m, hfound⟩, -, hstuck⟩ | ⟨hfound, hstuck⟩ :=
    noneIsEnvelope_cases docs.length 0 docs
  · rw [hnone]
    refine iff_of_true ?_ hstuck
    exact (described_asResources _ _ _ _).bind fun rs _ => described_ok _
  · rw [hfound]
    exact iff_of_true (described_decode _) hstuck
  · rw [hfound]
    exact iff_of_false not_described_versionNotAtom fun h => h hstuck

theorem not_stuck_of_marked (h : Marked v) : ¬Stuck [v] := by
  rintro (hunlookable | ⟨hmarked, -⟩)
  · obtain ⟨-, -, hlookable⟩ | ⟨-, hmarked, -⟩ | ⟨-, hmarked, -⟩ := isEnvelope_cases v
    · exact hlookable hunlookable
    · exact hmarked h
    · exact hmarked h
  · exact hmarked h

/-- One document that is an envelope is not a stream. -/
theorem Says.of_marked {id : ObjectId} {es : MapEntries} (h : Says [.map id es] d)
    (hv : Marked (.map id es)) : SaysItems (es.get "items") d.resources ∧
      SaysResults (es.get "results") d.results ∧ SaysPart (es.get "functionConfig") d.config := by
  generalize hdocs : [Value.map id es] = docs at h
  cases h with
  | envelope _ hitems hresults hconfig =>
    obtain ⟨rfl, rfl⟩ := Value.map.inj (List.singleton_inj.1 hdocs)
    exact ⟨hitems, hresults, hconfig⟩
  | stream hnone =>
    obtain ⟨r, hr, heq⟩ := List.mem_map.1 (hdocs ▸ List.mem_singleton_self _)
    exact absurd (heq ▸ hv) (hnone r hr)

theorem contents_iff_format {id : ObjectId} {es : MapEntries} (hv : Marked (.map id es)) :
    contents es = .ok d ↔ Says [.map id es] d ∨ SaysLaxly [.map id es] d := by
  rw [contents_ok_iff]
  constructor
  · rintro ⟨items, hitems, hresources, hresults, hconfig⟩
    rw [asResources_ok_iff] at hresources
    rw [asResults_ok_iff] at hresults
    obtain ⟨id', hlist⟩ | ⟨hempty, rfl⟩ := itemsOf_ok_iff.1 hitems
    · exact .inl (.envelope hv (hlist ▸ .list hresources) hresults hconfig)
    · have hnone : d.resources = [] := List.map_eq_nil_iff.1 hresources.symm
      obtain hnull | hlax := hempty
      · exact .inl (.envelope hv (hnull ▸ hnone ▸ .absent) hresults hconfig)
      · obtain ⟨resources, results, config⟩ := d
        obtain rfl : resources = [] := hnone
        exact .inr (.mk hv hlax hresults hconfig)
  · rintro (hmeans | ⟨-, hlax, hresults, hconfig⟩)
    · obtain ⟨hitems, hresults, hconfig⟩ := hmeans.of_marked hv
      obtain ⟨items, hitems, hresources⟩ := hitems.exists_items
      exact ⟨items, hitems, hresources, asResults_ok_iff.2 hresults, hconfig⟩
    · exact ⟨[], itemsOf_ok_iff.2 (.inr ⟨.inr hlax, rfl⟩), rfl, asResults_ok_iff.2 hresults, hconfig⟩

theorem SaysLaxly.not_format (h : SaysLaxly docs d) : ¬Says docs d := by
  obtain ⟨hv, ⟨-, hnull, hlist⟩, -, -⟩ := h
  intro hmeans
  obtain ⟨hitems, -, -⟩ := hmeans.of_marked hv
  generalize MapEntries.get _ "items" = items at hitems hnull hlist
  cases hitems with
  | absent => exact hnull rfl
  | list => exact hlist _ _ rfl

/-- **What is accepted is in the format, or an envelope with empty items that are no list.** -/
theorem ofDocuments_ok_iff :
    ofDocuments docs = .ok d ↔ Says docs d ∧ ¬Stuck docs ∨ SaysLaxly docs d := by
  by_cases hmarked : ∃ v, docs = [v] ∧ Marked v
  · obtain ⟨v, rfl, hv⟩ := hmarked
    obtain ⟨id, es, rfl, hrun⟩ := hv.ofDocuments_eq
    rw [hrun, contents_iff_format hv, and_iff_left (not_stuck_of_marked hv)]
  · have hstream : ∀ v, docs = [v] → ¬Marked v := fun v hdocs hv => hmarked ⟨v, hdocs, hv⟩
    rw [ofDocuments_stream hstream, stream_ok_iff]
    constructor
    · rintro ⟨hnone, hstuck, rs, rfl, rfl⟩
      exact .inl ⟨.stream fun r hr => hnone _ (List.mem_map_of_mem hr), hstuck⟩
    · rintro (⟨hmeans, hstuck⟩ | ⟨hv, -⟩)
      · cases hmeans with
        | envelope hv => exact absurd hv (hstream _ rfl)
        | stream hnone => exact ⟨List.forall_mem_map.2 hnone, hstuck, _, rfl, rfl⟩
      · exact absurd hv (hstream _ rfl)

/-- **What is not accepted is described, unless a version that is a collection is looked up.** -/
theorem described_ofDocuments_iff : Described (ofDocuments docs) ↔ ¬Stuck docs := by
  by_cases hmarked : ∃ v, docs = [v] ∧ Marked v
  · obtain ⟨v, rfl, hv⟩ := hmarked
    obtain ⟨id, es, rfl, hrun⟩ := hv.ofDocuments_eq
    rw [hrun]
    exact iff_of_true (described_contents es) (not_stuck_of_marked hv)
  · have hstream : ∀ v, docs = [v] → ¬Marked v := fun v hdocs hv => hmarked ⟨v, hdocs, hv⟩
    rw [ofDocuments_stream hstream, described_stream_iff]

/-- An output is read as the format has it: what it says is what the documents say, and if they say
nothing, a described fault in the output is the reason. -/
structure KeepsFormat (text : String) (supply : Supply) : Prop where
  /-- What the output says is what its documents say. -/
  accepts : ∀ d supply', (decode text).run supply = .ok (d, supply') ↔
    ∃ docs, (Yaml.readAll text).run supply = .ok (docs, supply') ∧ Says (docs.filter (!·.isNull)) d
  /-- What is refused is described. -/
  refuses : Described ((decode text).run supply)

variable {text : String} {supply supply' : Supply}

theorem decode_run (h : (Yaml.readAll text).run supply = .ok (docs, supply')) :
    (decode text).run supply =
      (ofDocuments (docs.filter (!·.isNull)) >>= fun d => .ok (d, supply')) := by
  unfold decode
  simp only [StateT.run] at h ⊢
  rw [h]
  rfl

theorem keepsFormat_of_malformed (h : (Yaml.readAll text).run supply = .error .malformed) :
    KeepsFormat text supply := by
  have hrun : (decode text).run supply = .error (.fault (.decode (.invalidOutput .malformed))) := by
    unfold decode
    simp only [StateT.run] at h ⊢
    rw [h]
    rfl
  refine ⟨fun d supply' => ?_, hrun ▸ described_decode _⟩
  rw [hrun, h]
  exact ⟨nofun, nofun⟩

theorem decode_ok_iff (h : (Yaml.readAll text).run supply = .ok (docs, supply')) {supply₁ : Supply} :
    (decode text).run supply = .ok (d, supply₁) ↔
      supply' = supply₁ ∧ ofDocuments (docs.filter (!·.isNull)) = .ok d := by
  rw [decode_run h, Result.bind_ok_iff]
  constructor
  · rintro ⟨d', hd', heq⟩
    obtain ⟨rfl, rfl⟩ := Prod.mk.inj (Except.ok.inj heq)
    exact ⟨rfl, hd'⟩
  · rintro ⟨rfl, hd⟩
    exact ⟨d, hd, rfl⟩

theorem described_decode_iff (h : (Yaml.readAll text).run supply = .ok (docs, supply')) :
    Described ((decode text).run supply) ↔ ¬Stuck (docs.filter (!·.isNull)) := by
  rw [← described_ofDocuments_iff, decode_run h]
  constructor
  · intro hdecode failure hfailure
    exact hdecode failure (by rw [hfailure]; rfl)
  · exact fun hdocs => hdocs.bind fun d _ => described_ok _

theorem keepsFormat_iff_of_ok (h : (Yaml.readAll text).run supply = .ok (docs, supply')) :
    KeepsFormat text supply ↔
      ¬Stuck (docs.filter (!·.isNull)) ∧ ∀ d, ¬SaysLaxly (docs.filter (!·.isNull)) d := by
  have hread : ∀ {d supply₁}, (∃ docs', (Yaml.readAll text).run supply = .ok (docs', supply₁) ∧
      Says (docs'.filter (!·.isNull)) d) ↔ supply' = supply₁ ∧ Says (docs.filter (!·.isNull)) d := by
    intro d supply₁
    rw [h]
    constructor
    · rintro ⟨docs', heq, hmeans⟩
      obtain ⟨rfl, rfl⟩ := Prod.mk.inj (Except.ok.inj heq)
      exact ⟨rfl, hmeans⟩
    · rintro ⟨rfl, hmeans⟩
      exact ⟨docs, rfl, hmeans⟩
  constructor
  · rintro ⟨haccepts, hrefuses⟩
    refine ⟨(described_decode_iff h).1 hrefuses, fun d hlax => ?_⟩
    have hdecode : (decode text).run supply = .ok (d, supply') :=
      (decode_ok_iff h).2 ⟨rfl, ofDocuments_ok_iff.2 (.inr hlax)⟩
    exact hlax.not_format (hread.1 ((haccepts d supply').1 hdecode)).2
  · rintro ⟨hstuck, hlax⟩
    refine ⟨fun d supply₁ => ?_, (described_decode_iff h).2 hstuck⟩
    rw [decode_ok_iff h, hread, ofDocuments_ok_iff, and_iff_left hstuck, or_iff_left (hlax d)]

/-- **The outputs that are read as the format has it.** The reader of documents is taken to find
nothing wrong with a text but that it is no stream of documents. -/
theorem keepsFormat_iff
    (hload : ∀ fault, (Yaml.readAll text).run supply = .error fault → fault = .malformed) :
    KeepsFormat text supply ↔ ∀ docs supply', (Yaml.readAll text).run supply = .ok (docs, supply') →
      ¬Stuck (docs.filter (!·.isNull)) ∧ ∀ d, ¬SaysLaxly (docs.filter (!·.isNull)) d := by
  cases hread : (Yaml.readAll text).run supply with
  | error fault =>
    obtain rfl := hload fault hread
    exact iff_of_true (keepsFormat_of_malformed hread) nofun
  | ok read =>
    obtain ⟨docs, supply'⟩ := read
    rw [keepsFormat_iff_of_ok hread]
    constructor
    · rintro h docs' supply₁ heq
      obtain ⟨rfl, rfl⟩ := Prod.mk.inj (Except.ok.inj heq)
      exact h
    · exact fun h => h docs supply' rfl

/-- An envelope with a resource and a null. -/
def nullItem : String :=
  "kind: ResourceList\napiVersion: config.kubernetes.io/v1\nitems:\n- kind: A\n- null\n"

/-- What stands in it. -/
def nullItemEntries : MapEntries :=
  [(.text "kind", .text kind), (.text "apiVersion", .text "config.kubernetes.io/v1"),
    (.text "items", .list 7 [.map 8 [(.text "kind", .text "A")], .null])]

theorem keepsFormat_nullItem :
    (∀ fault, (Yaml.readAll nullItem).run 1 = .error fault → fault = .malformed) ∧
      KeepsFormat nullItem 1 := by
  have hread : (Yaml.readAll nullItem).run 1 = .ok ([.map 1 nullItemEntries], 14) := by decide +kernel
  have hload : ∀ fault, (Yaml.readAll nullItem).run 1 = .error fault → fault = .malformed := by
    rw [hread]
    exact nofun
  have hmarked : Marked (.map 1 nullItemEntries) := .mk rfl ⟨_, by decide, rfl⟩
  refine ⟨hload, (keepsFormat_iff hload).2 fun docs supply' h => ?_⟩
  obtain ⟨rfl, rfl⟩ := Prod.mk.inj (Except.ok.inj (hread.symm.trans h))
  refine ⟨not_stuck_of_marked hmarked, ?_⟩
  -- the items are a list
  rintro d ⟨-, ⟨-, -, hlist⟩, -, -⟩
  exact hlist _ _ rfl

/-- An envelope with an empty map for its items. -/
def emptyMapItems : String :=
  "kind: ResourceList\napiVersion: config.kubernetes.io/v1\nitems: \x7b\x7d\n"

/-- A resource with a list for its version. -/
def listVersion : String := "kind: ResourceList\napiVersion: []\n"

/-- Items that are no list are taken for no items, and a version that is a list is reported as no
fault of the output. -/
theorem departs_from_format :
    (decode emptyMapItems).run 1 = .ok (⟨[], none, none⟩, 8) ∧ ¬KeepsFormat emptyMapItems 1 ∧
      (decode listVersion).run 1 = .error .versionNotAtom ∧ ¬KeepsFormat listVersion 1 := by
  have hempty : (Yaml.readAll emptyMapItems).run 1 = .ok ([.map 1 [(.text "kind", .text kind),
      (.text "apiVersion", .text "config.kubernetes.io/v1"), (.text "items", .map 7 [])]], 8) := by
    decide +kernel
  have hlist : (Yaml.readAll listVersion).run 1 =
      .ok ([.map 1 [(.text "kind", .text kind), (.text "apiVersion", .list 5 [])]], 6) := by
    decide +kernel
  refine ⟨by decide +kernel, fun hkeeps => ?_, by decide +kernel, fun hkeeps => ?_⟩
  · obtain ⟨-, hlax⟩ := (keepsFormat_iff_of_ok hempty).1 hkeeps
    exact hlax _ (.mk (.mk rfl ⟨_, by decide, rfl⟩) ⟨rfl, nofun, nofun⟩ (.part .absent) .absent)
  · obtain ⟨hstuck, -⟩ := (keepsFormat_iff_of_ok hlist).1 hkeeps
    exact hstuck (.here (.mk rfl (.list 5 [])))

end Envelope

end ScopedFn
