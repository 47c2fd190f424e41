import ScopedFn.Proofs.Value.Circular
import ScopedFn.Proofs.Yaml.Reading

/-!
# Texts say what documents can hold

Every value that is read from a text is one that documents can hold: its atoms are proper, and the keys
of its maps differ, since of equal keys one entry is made.

* `MapEntries.keyed_ofPairs` : entries that are put together one after the other have different keys;
* `Yaml.IsSound`, `Yaml.Node.Within.isSound` : what a node denotes, which may refer to what is around it;
* `Yaml.isDocument_readOne` : what a text says.
-/

set_option autoImplicit false

namespace ScopedFn

/-- Entries that are put together one after the other have different keys. -/
theorem MapEntries.keyed_ofPairs {pairs : List (Atom × Value)}
    (h : ∀ p ∈ pairs, p.1.same p.1 = true) : Keyed (Entries.ofPairs Atom.same pairs) := by
  have hall : ∀ es, Keyed es → Keyed (Entries.putAll Atom.same es pairs) := by
    induction pairs with
    | nil => exact fun es hes => hes
    | cons p pairs ih =>
      obtain ⟨hp, hpairs⟩ := List.forall_mem_cons.1 h
      exact fun es hes => ih hpairs _ (hes.put hp p.2)
  exact hall [] keyed_nil

namespace Yaml

theorem isProper_ofBinary64 (id : ObjectId) (x : Binary64) :
    (Atom.ofBinary64 id x).isProper = true := by
  unfold Atom.ofBinary64
  split_ifs with h
  · rfl
  · simpa [Atom.isProper] using h

/-- A scalar denotes a proper atom, or refers to what lies around it. -/
theorem Scalar.isProper_atom {tag : Tag} {id : ObjectId} {text : List Char} {a : Atom}
    (h : Scalar.atom tag id text = .ok a) (ha : a.isReference = false) : a.isProper = true := by
  cases tag with
  | null | str =>
    obtain rfl := Except.ok.inj h
    rfl
  | bool | int | binary =>
    obtain ⟨b, -, rfl⟩ := Result.ok_of_map h
    rfl
  | float =>
    obtain ⟨x, -, rfl⟩ := Result.ok_of_map h
    cases x with
    | none => rfl
    | some x => exact isProper_ofBinary64 id x
  | timestamp =>
    change Scalar.time id text = .ok a at h
    unfold Scalar.time at h
    dsimp only at h
    split at h
    · cases h
    · split at h
      · cases h
      · obtain rfl := Except.ok.inj h
        rfl
      · split at h
        · cases h
        · obtain rfl := Except.ok.inj h
          rfl
  | enclosing target isList =>
    obtain rfl := Except.ok.inj h
    cases ha
  | _ => cases h

/-- The maps of the value have different keys, and a document can hold it, unless it refers to what
lies around it. -/
structure IsSound (v : Value) : Prop where
  /-- The keys of each map differ. -/
  keyed : ∀ m ∈ v.maps, MapEntries.Keyed m.2
  /-- A document can hold it. -/
  document : v.isAcyclic = true → v.IsDocument

theorem isSound_atom {a : Atom} (h : a.isReference = false → a.isProper = true) :
    IsSound (.atom a) := by
  refine ⟨nofun, fun hacyclic => .atom (h ?_)⟩
  simpa [Value.isAcyclic] using hacyclic

theorem isSound_list {id : ObjectId} {items : List Value} (h : ∀ v ∈ items, IsSound v) :
    IsSound (.list id items) := by
  refine ⟨fun m hm => ?_, fun hacyclic => .list fun v hv => (h v hv).document ?_⟩
  · obtain ⟨v, hv, hin⟩ := Value.mem_mapsOfItems.1 hm
    exact (h v hv).keyed m hin
  · exact Value.allAcyclic_iff.1 hacyclic v hv

theorem isSound_tuple {id : ObjectId} {items : List Value} (h : ∀ v ∈ items, IsSound v) :
    IsSound (.tuple id items) :=
  ⟨(@isSound_list id items h).keyed, fun hacyclic => .tuple fun v hv =>
    (h v hv).document (Value.allAcyclic_iff.1 hacyclic v hv)⟩

theorem isSound_map {id : ObjectId} {es : MapEntries} (keys : ∀ e ∈ es, e.1.isProper = true)
    (hes : es.Keyed) (h : ∀ e ∈ es, IsSound e.2) : IsSound (.map id es) := by
  refine ⟨fun m hm => ?_, fun hacyclic => .map keys hes.distinct fun e he => (h e he).document ?_⟩
  · obtain rfl | hbelow := List.mem_cons.1 hm
    · exact hes
    · obtain ⟨e, he, hin⟩ := Value.mem_mapsOfEntries.1 hbelow
      exact (h e he).keyed m hin
  · exact Value.areAcyclic_iff.1 hacyclic e he

theorem isSound_set {id : ObjectId} {ms : List Atom} (members : ∀ m ∈ ms, m.isProper = true)
    (distinct : ms.Pairwise fun m n => m.same n = false) : IsSound (.set id ms) :=
  ⟨nofun, fun _ => .set members distinct⟩

theorem isSound_text (s : String) : IsSound (.text s) := isSound_atom fun _ => rfl

namespace Reading

theorem isSound_faulty (f : Fault) : IsSound (faulty f).value := isSound_atom fun _ => rfl

theorem isSound_faultyInside (f : Fault) : IsSound (faultyInside f).value := isSound_list nofun

theorem isSound_ofAtom (tag : Tag) (id : ObjectId) (text : List Char) :
    IsSound (ofAtom (Scalar.atom tag id text)).value := by
  unfold ofAtom
  split
  · next a ha => exact isSound_atom (Scalar.isProper_atom ha)
  · exact isSound_faulty _

/-- A key is a proper atom. -/
theorem isProper_of_atom? {r : Reading} {a : Atom} (h : r.atom? = some a)
    (hr : IsSound r.value) : a.isProper = true := by
  obtain ⟨hvalue, hnot⟩ := value_of_atom? h
  have hdocument := hr.document (by rw [hvalue, Value.isAcyclic, hnot, Bool.not_false])
  rw [hvalue] at hdocument
  cases hdocument with
  | atom hproper => exact hproper

theorem isSound_ofEntries {isSet : Bool} {id : ObjectId}
    {es : Except Fault (List (Reading × Reading))}
    (h : ∀ es', es = .ok es' → ∀ e ∈ es', EntryHas IsSound e) :
    IsSound (ofEntries isSet id es).value := by
  unfold ofEntries
  split
  · exact isSound_faultyInside _
  · next es' =>
    dsimp only
    have hpairs : ∀ p ∈ es'.filterMap fun e => e.1.atom?.map fun a => (a, e.2.value),
        p.1.isProper = true ∧ IsSound p.2 := by
      intro p hp
      obtain ⟨e, he, heq⟩ := List.mem_filterMap.1 hp
      obtain ⟨a, ha, rfl⟩ := Option.map_eq_some_iff.1 heq
      obtain ⟨hkey, hvalue⟩ := h es' rfl e he
      exact ⟨isProper_of_atom? ha hkey, hvalue⟩
    have hentries := @Entries.forall_ofPairs _ _ Atom.same (fun a => a.isProper = true)
      IsSound _ hpairs
    have hkeyed := MapEntries.keyed_ofPairs fun p hp => Atom.same_self (hpairs p hp).1
    split_ifs
    · refine isSound_set (fun a ha => ?_) (List.pairwise_map.2 hkeyed.distinct)
      obtain ⟨p, hp, rfl⟩ := List.mem_map.1 ha
      exact (hentries p hp).1
    · exact isSound_map (fun p hp => (hentries p hp).1) hkeyed fun p hp => (hentries p hp).2

end Reading

namespace Node

open Reading

theorem isSound_pairs {vs : List (Value × Value)} (first : ObjectId)
    (h : ∀ p ∈ vs, IsSound p.1 ∧ IsSound p.2) :
    ∀ v ∈ pairs first vs, IsSound v := by
  induction vs generalizing first with
  | nil => exact nofun
  | cons p vs ih =>
    obtain ⟨⟨hkey, hvalue⟩, hvs⟩ := List.forall_mem_cons.1 h
    refine List.forall_mem_cons.2 ⟨isSound_tuple ?_, ih (first + 1) hvs⟩
    simp [hkey, hvalue]

theorem isSound_scalar (id : ObjectId) (tag : Tag) (text : List Char) :
    IsSound (Node.scalar id tag text).read.value := by
  rw [read]
  split_ifs
  · exact isSound_faultyInside _
  · exact isSound_ofAtom tag id text

theorem isSound_seq (id : ObjectId) (tag : Tag) (pairId : ObjectId) {items : List Node}
    (h : ∀ n ∈ items, n.Reads IsSound) :
    IsSound (Node.seq id tag pairId items).read.value := by
  rw [read]
  split_ifs
  · refine isSound_list fun v hv => ?_
    rw [readItems_eq, List.map_map] at hv
    obtain ⟨n, hn, rfl⟩ := List.mem_map.1 hv
    exact (h n hn).value
  · exact isSound_list (isSound_pairs pairId (forall_pairs_of_items h))
  · exact isSound_faultyInside _
  · exact isSound_faulty _

theorem isSound_map (id : ObjectId) (tag : Tag) {es : List (Node × Node)}
    (hkeys : ∀ e ∈ es, e.1.Reads IsSound) (hvalues : ∀ e ∈ es, e.2.Reads IsSound) :
    IsSound (Node.map id tag es).read.value := by
  rw [read]
  split_ifs
  · exact isSound_ofEntries fun _ => forall_entries (isSound_text _) hkeys hvalues
  · exact isSound_faultyInside _
  · unfold collectionAsScalar
    split
    · exact isSound_faulty _
    · split_ifs
      · exact isSound_faulty _
      · exact isSound_ofAtom _ _ _

/-- **What a node denotes is what documents can hold**, unless it refers to what lies around it. -/
theorem Within.isSound {lo hi : ℕ} {n : Node} (h : n.Within lo hi) : n.Reads IsSound := by
  induction h with
  | scalar => exact reads_scalar (isSound_scalar _ _ _)
  | seq _ _ _ _ ih => exact reads_seq (isSound_seq _ _ _ ih) ih
  | map _ _ _ _ _ ihkeys ihvalues =>
    exact reads_map (isSound_text _) (isSound_map _ _ ihkeys ihvalues) ihkeys ihvalues

end Node

variable {lo : ℕ} {w : Register lo} {v : Value}

theorem isSound_of_mem {n : Node} (h : n ∈ w.nodes) : IsSound n.read.value :=
  (w.within n h).isSound.value

/-- The maps of values that are read have different keys. -/
theorem Recorded.keyed (h : Recorded w v) : ∀ m ∈ v.maps, MapEntries.Keyed m.2 := by
  intro m hm
  obtain ⟨n, hn, hread⟩ := h.maps m hm
  exact (isSound_of_mem hn).keyed m (hread ▸ List.mem_cons_self)

/-- **The value that a text says** is one that documents can hold. -/
theorem isDocument_readOne {text : String} {supply supply' : Supply}
    (h : (readOne text).run supply = .ok (v, supply')) : v.IsDocument := by
  obtain ⟨hsingle, hwhole⟩ := readSingle_of_readOne h
  have hacyclic : v.isAcyclic = true := (Bool.and_eq_true_iff.1 hwhole).1
  obtain ⟨w, hv⟩ := exists_node_of_readSingle hsingle
  rcases hv with rfl | ⟨n, hn, rfl⟩
  · exact .atom rfl
  · exact (isSound_of_mem hn).document hacyclic

end Yaml

end ScopedFn
