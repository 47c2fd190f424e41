import ScopedFn.Proofs.Result
import ScopedFn.Proofs.Value.Maps
import ScopedFn.Proofs.Yaml.Supply

/-!
# The identities of values that are read

The value of a node has the identities of the node and of nodes inside it, so what is read is made
of new objects. Every map in it is the value of a node, so it is known from its identity.

* `Value.Within` : the maps of a value are new, and no identity in it lies behind the supply;
* `Yaml.Recorded` : the maps of a value are the values of registered nodes besides;
* `Yaml.recorded_readAll` : this holds of all values that a text says;
* `Yaml.coherent_of_recorded` : so maps with one identity have the same entries.
-/

set_option autoImplicit false

namespace ScopedFn

/-- All maps of the value are made from one identity of the supply on, and all its identities lie
before another one. -/
structure Value.Within (lo hi : ℕ) (v : Value) : Prop where
  /-- The maps are new. -/
  fresh : v.Fresh lo
  /-- All identities come from the part of the supply that is used up. -/
  bound : v.bound ≤ hi

namespace Value

variable {lo hi : ℕ} {id : ObjectId} {v : Value} {vs : List Value} {es : MapEntries}

theorem Within.mono {hi' : ℕ} (h : v.Within lo hi) (hle : hi ≤ hi') : v.Within lo hi' :=
  ⟨h.fresh, le_trans h.bound hle⟩

theorem within_atom {a : Atom} (h : a.bound ≤ hi) : (Value.atom a).Within lo hi :=
  ⟨fresh_atom a, h⟩

theorem within_list (hid : id < hi) (h : ∀ v ∈ vs, v.Within lo hi) : (Value.list id vs).Within lo hi :=
  ⟨fresh_list.2 fun v hv => (h v hv).fresh,
    bound_list_le_iff.2 ⟨hid, fun v hv => (h v hv).bound⟩⟩

theorem within_tuple (hid : id < hi) (h : ∀ v ∈ vs, v.Within lo hi) :
    (Value.tuple id vs).Within lo hi :=
  ⟨fresh_tuple.2 fun v hv => (h v hv).fresh,
    bound_tuple_le_iff.2 ⟨hid, fun v hv => (h v hv).bound⟩⟩

theorem within_map (hlo : lo ≤ id) (hid : id < hi)
    (h : ∀ p ∈ es, p.1.bound ≤ hi ∧ p.2.Within lo hi) : (Value.map id es).Within lo hi :=
  ⟨fresh_map.2 ⟨hlo, fun p hp => (h p hp).2.fresh⟩,
    bound_map_le_iff.2 ⟨hid, fun p hp => ⟨(h p hp).1, (h p hp).2.bound⟩⟩⟩

theorem Within.of_list (h : (Value.list id vs).Within lo hi) : ∀ v ∈ vs, v.Within lo hi :=
  fun v hv => ⟨fresh_list.1 h.fresh v hv, (bound_list_le_iff.1 h.bound).2 v hv⟩

theorem Within.of_tuple (h : (Value.tuple id vs).Within lo hi) : ∀ v ∈ vs, v.Within lo hi :=
  fun v hv => ⟨fresh_tuple.1 h.fresh v hv, (bound_tuple_le_iff.1 h.bound).2 v hv⟩

theorem Within.of_map (h : (Value.map id es).Within lo hi) : ∀ p ∈ es, p.2.Within lo hi :=
  fun p hp => ⟨(fresh_map.1 h.fresh).2 p hp, ((bound_map_le_iff.1 h.bound).2 p hp).2⟩

theorem Within.of_mem_maps {m : ObjectId × MapEntries} (h : v.Within lo hi) (hm : m ∈ v.maps) :
    (Value.map m.1 m.2).Within lo hi := by
  induction v using Value.induction with
  | atom a => exact absurd hm List.not_mem_nil
  | set id ms => exact absurd hm List.not_mem_nil
  | list id items ih =>
    obtain ⟨v, hv, hin⟩ := mem_mapsOfItems.1 hm
    exact ih v hv (h.of_list v hv) hin
  | tuple id items ih =>
    obtain ⟨v, hv, hin⟩ := mem_mapsOfItems.1 hm
    exact ih v hv (h.of_tuple v hv) hin
  | map id es ih =>
    obtain rfl | hbelow := List.mem_cons.1 hm
    · exact h
    · obtain ⟨p, hp, hin⟩ := mem_mapsOfEntries.1 hbelow
      exact ih p hp (h.of_map p hp) hin

theorem within_set {ms : List Atom} (hid : id < hi) (h : ∀ a ∈ ms, a.bound ≤ hi) :
    (Value.set id ms).Within lo hi :=
  ⟨fresh_set id ms, bound_set_le_iff.2 ⟨hid, h⟩⟩

end Value

namespace Yaml

variable {lo hi : ℕ} {id : ObjectId} {w : Register lo}

/-- The value is made of new objects, and its maps are the values of registered nodes. -/
structure Recorded (w : Register lo) (v : Value) : Prop where
  /-- The objects are new. -/
  within : v.Within lo w.supply
  /-- Each map is the value of a node. -/
  maps : ∀ m ∈ v.maps, ∃ n ∈ w.nodes, n.read.value = .map m.1 m.2

section

variable {v : Value} {vs : List Value} {es : MapEntries}

theorem Recorded.mono {w' : Register lo} (h : Recorded w v) (hle : w ≤ w') : Recorded w' v :=
  ⟨h.within.mono hle.supply, fun m hm => (h.maps m hm).imp fun _ hn => hn.imp_left (w.mem_of_le hle)⟩

theorem Recorded.of_mem_maps {m : ObjectId × MapEntries} (h : Recorded w v) (hm : m ∈ v.maps) :
    Recorded w (.map m.1 m.2) :=
  ⟨h.within.of_mem_maps hm, fun m' hm' => h.maps m' (Value.maps_subset hm hm')⟩

theorem recorded_atom {a : Atom} (h : a.bound ≤ w.supply) : Recorded w (.atom a) :=
  ⟨Value.within_atom h, fun _ hm => absurd hm List.not_mem_nil⟩

theorem recorded_list (hid : id < w.supply) (h : ∀ v ∈ vs, Recorded w v) : Recorded w (.list id vs) := by
  refine ⟨Value.within_list hid fun v hv => (h v hv).within, fun m hm => ?_⟩
  obtain ⟨v, hv, hin⟩ := Value.mem_mapsOfItems.1 hm
  exact (h v hv).maps m hin

theorem recorded_tuple (hid : id < w.supply) (h : ∀ v ∈ vs, Recorded w v) : Recorded w (.tuple id vs) :=
  ⟨Value.within_tuple hid fun v hv => (h v hv).within, (recorded_list hid h).maps⟩

theorem recorded_map (hlo : lo ≤ id) (hid : id < w.supply)
    (hself : ∃ n ∈ w.nodes, n.read.value = .map id es)
    (h : ∀ p ∈ es, p.1.bound ≤ w.supply ∧ Recorded w p.2) : Recorded w (.map id es) := by
  refine ⟨Value.within_map hlo hid fun p hp => ⟨(h p hp).1, (h p hp).2.within⟩, fun m hm => ?_⟩
  obtain rfl | hbelow := List.mem_cons.1 hm
  · exact hself
  · obtain ⟨p, hp, hin⟩ := Value.mem_mapsOfEntries.1 hbelow
    exact (h p hp).2.maps m hin

theorem recorded_set {ms : List Atom} (hid : id < w.supply) (h : ∀ a ∈ ms, a.bound ≤ w.supply) :
    Recorded w (.set id ms) :=
  ⟨Value.within_set hid h, fun _ hm => absurd hm List.not_mem_nil⟩

end

theorem Scalar.bound_time {text : List Char} {a : Atom} (h : Scalar.time id text = .ok a) :
    a.bound = id + 1 := by
  unfold Scalar.time at h
  dsimp only at h
  split at h
  · cases h
  · split at h
    · cases h
    · exact Except.ok.inj h ▸ rfl
    · split at h
      · cases h
      · exact Except.ok.inj h ▸ rfl

theorem bound_ofBinary64 (x : Binary64) : (Atom.ofBinary64 id x).bound ≤ id + 1 := by
  unfold Atom.ofBinary64
  split
  · exact le_rfl
  · exact Nat.zero_le _

/-- A scalar atom has no identity but the given one, and the one that its tag refers to. -/
theorem Scalar.bound_atom {tag : Tag} {text : List Char} {a : Atom}
    (h : Scalar.atom tag id text = .ok a) (hid : id < hi) (htag : tag.bound ≤ hi) :
    a.bound ≤ hi := by
  cases tag with
  | null | str =>
    obtain rfl := Except.ok.inj h
    exact Nat.zero_le _
  | bool | int | binary =>
    obtain ⟨b, -, rfl⟩ := Result.ok_of_map h
    exact Nat.zero_le _
  | float =>
    obtain ⟨x, -, rfl⟩ := Result.ok_of_map h
    cases x with
    | none => exact Nat.zero_lt_of_lt hid
    | some x => exact le_trans (bound_ofBinary64 x) hid
  | timestamp => exact le_of_eq_of_le (Scalar.bound_time h) hid
  | enclosing target isList =>
    obtain rfl := Except.ok.inj h
    exact htag
  | _ => cases h

namespace Reading

/-- Key and value of an entry have a property. -/
def EntryHas (P : Value → Prop) (e : Reading × Reading) : Prop := P e.1.value ∧ P e.2.value

theorem recorded_faulty (f : Fault) : Recorded w (faulty f).value := recorded_atom (Nat.zero_le _)

theorem recorded_faultyInside (f : Fault) (hhi : 0 < w.supply) : Recorded w (faultyInside f).value :=
  recorded_list hhi fun _ hv => absurd hv List.not_mem_nil

theorem recorded_ofAtom {tag : Tag} {text : List Char} (hid : id < w.supply)
    (htag : tag.bound ≤ w.supply) : Recorded w (ofAtom (Scalar.atom tag id text)).value := by
  unfold ofAtom
  split
  · rename_i a ha
    exact recorded_atom (Scalar.bound_atom ha hid htag)
  · exact recorded_faulty _

/-- What a reading denotes is no reference to a list or map around it. -/
theorem value_of_atom? {r : Reading} {a : Atom} (h : r.atom? = some a) :
    r.value = .atom a ∧ a.isReference = false := by
  unfold atom? at h
  split at h
  · cases h
  · rename_i b hnot hb
    obtain rfl := Option.some.inj h
    cases b with
    | enclosing target isList => exact absurd rfl (hnot target isList)
    | _ => exact ⟨hb, rfl⟩
  · cases h

theorem recorded_ofEntries {isSet : Bool} {es : Except Fault (List (Reading × Reading))} (hlo : lo ≤ id)
    (hid : id < w.supply) (hself : ∃ n ∈ w.nodes, n.read = ofEntries isSet id es)
    (h : ∀ es', es = .ok es' → ∀ e ∈ es', EntryHas (Recorded w) e) :
    Recorded w (ofEntries isSet id es).value := by
  unfold ofEntries at hself ⊢
  split
  · exact recorded_faultyInside _ (Nat.zero_lt_of_lt hid)
  · rename_i es'
    have hentries : ∀ p ∈ Entries.ofPairs Atom.same
        (es'.filterMap fun e => e.1.atom?.map fun a => (a, e.2.value)),
        p.1.bound ≤ w.supply ∧ Recorded w p.2 := by
      -- only keys that are atoms become entries, for all others there is a fault
      refine Entries.forall_ofPairs (P := fun a : Atom => a.bound ≤ w.supply) fun p hp => ?_
      obtain ⟨e, he, heq⟩ := List.mem_filterMap.1 hp
      obtain ⟨a, ha, rfl⟩ := Option.map_eq_some_iff.1 heq
      obtain ⟨hkey, hvalue⟩ := h es' rfl e he
      exact ⟨(congrArg Value.bound (value_of_atom? ha).1).symm.trans_le hkey.within.bound, hvalue⟩
    dsimp only at hself ⊢
    split
    · refine recorded_set hid fun a ha => ?_
      obtain ⟨p, hp, rfl⟩ := List.mem_map.1 ha
      exact (hentries p hp).1
    · rename_i hmap
      obtain ⟨n, hn, hread⟩ := hself
      rw [if_neg hmap] at hread
      exact recorded_map hlo hid ⟨n, hn, congrArg Reading.value hread⟩ hentries

end Reading

namespace Node

open Reading (EntryHas)

/-! ### What nodes bring in -/

section

variable {P : Value → Prop} {tag : Tag}

/-- What is read of a node has a property: its value, what it brings into a map that it is merged
into, and the keys and values of a map. -/
structure Reads (P : Value → Prop) (n : Node) : Prop where
  value : P n.read.value
  merged : ∀ es, readMergedFrom n = .ok es → ∀ e ∈ es, EntryHas P e
  entries : ∀ id tag es, n = .map id tag es → ∀ e ∈ es, P e.1.read.value ∧ P e.2.read.value

theorem readItems_eq (ns : List Node) : readItems ns = ns.map read := by
  induction ns with
  | nil => rw [readItems, List.map_nil]
  | cons n ns ih => rw [readItems, ih, List.map_cons]

theorem readPairs_cons (n : Node) (ns : List Node) :
    (∃ id tag k v, n = .map id tag [(k, v)] ∧ readPairs (n :: ns) =
        (some (k.read, v.read), Faults.inOrder [k.read.faults, v.read.faults]) :: readPairs ns) ∨
      readPairs (n :: ns) = (none, Faults.now n.notMap) :: readPairs ns := by
  obtain ⟨id, tag, text⟩ | ⟨id, tag, pairId, items⟩ | ⟨id, tag, _ | ⟨⟨k, v⟩, _ | ⟨e, es⟩⟩⟩ := n
  · exact .inr (by rw [readPairs]; simp)
  · exact .inr (by rw [readPairs]; simp)
  · exact .inr (by rw [readPairs]; simp)
  · exact .inl ⟨id, tag, k, v, rfl, by rw [readPairs]⟩
  · exact .inr (by rw [readPairs]; simp)

theorem length_readPairs (ns : List Node) : (readPairs ns).length = ns.length := by
  induction ns with
  | nil => rw [readPairs]; rfl
  | cons n ns ih =>
    obtain ⟨id, tag, k, v, -, heq⟩ | heq := readPairs_cons n ns <;>
      rw [heq, List.length_cons, List.length_cons, ih]

theorem forall_readPairs {ns : List Node} (h : ∀ n ∈ ns, n.Reads P) :
    ∀ r ∈ readPairs ns, ∀ e ∈ r.1, EntryHas P e := by
  induction ns with
  | nil => rw [readPairs]; exact fun r hr => absurd hr List.not_mem_nil
  | cons n ns ih =>
    obtain ⟨hn, hns⟩ := List.forall_mem_cons.1 h
    obtain ⟨id, tag, k, v, rfl, heq⟩ | heq := readPairs_cons n ns
    · rw [heq]
      refine List.forall_mem_cons.2 ⟨fun e he => ?_, ih hns⟩
      obtain rfl := Option.mem_some.1 he
      exact hn.entries id tag _ rfl (k, v) List.mem_cons_self
    · rw [heq]
      exact List.forall_mem_cons.2 ⟨nofun, ih hns⟩

/-- The values of the pairs that items denote. -/
theorem forall_pairs_of_items {items : List Node} (h : ∀ n ∈ items, n.Reads P) :
    ∀ p ∈ (readPairs items).filterMap (fun r => r.1.map fun e => (e.1.value, e.2.value)),
      P p.1 ∧ P p.2 := by
  intro p hp
  obtain ⟨r, hr, heq⟩ := List.mem_filterMap.1 hp
  obtain ⟨e, he, rfl⟩ := Option.map_eq_some_iff.1 heq
  exact forall_readPairs h r hr e he

theorem forall_readOwn (htext : P (.text "=")) {es : List (Node × Node)}
    (h : ∀ e ∈ es, P e.1.read.value ∧ P e.2.read.value) : ∀ e ∈ readOwn es, EntryHas P e := by
  induction es with
  | nil => rw [readOwn]; exact fun e he => absurd he List.not_mem_nil
  | cons e es ih =>
    obtain ⟨⟨hk, hv⟩, hes⟩ := List.forall_mem_cons.1 h
    rw [readOwn]
    split
    · exact ih hes
    · refine List.forall_mem_cons.2 ⟨⟨?_, hv⟩, ih hes⟩
      dsimp only
      split
      · exact htext
      · exact hk

theorem forall_readMerged {es : List (Node × Node)} {merged : List (Reading × Reading)}
    (h : ∀ e ∈ es, e.2.Reads P) (hes : readMerged es = .ok merged) :
    ∀ e ∈ merged, EntryHas P e := by
  induction es generalizing merged with
  | nil =>
    rw [readMerged] at hes
    obtain rfl := Except.ok.inj hes
    exact fun e he => absurd he List.not_mem_nil
  | cons e es ih =>
    obtain ⟨hv, hrest⟩ := List.forall_mem_cons.1 h
    rw [readMerged] at hes
    split at hes
    · obtain ⟨here, hhere, hes⟩ := Result.ok_of_bind hes
      obtain ⟨behind, hbehind, hes⟩ := Result.ok_of_bind hes
      obtain rfl := Except.ok.inj hes
      exact List.forall_mem_append.2 ⟨hv.merged here hhere, ih hrest hbehind⟩
    · obtain ⟨here, hhere, hes⟩ := Result.ok_of_bind hes
      obtain rfl := Except.ok.inj hhere
      obtain ⟨behind, hbehind, hes⟩ := Result.ok_of_bind hes
      obtain rfl := Except.ok.inj hes
      exact ih hrest hbehind

theorem forall_readMergedItems {ns : List Node} {mss : List (List (Reading × Reading))}
    (h : ∀ n ∈ ns, n.Reads P) (hns : readMergedItems ns = .ok mss) :
    ∀ ms ∈ mss, ∀ e ∈ ms, EntryHas P e := by
  induction ns generalizing mss with
  | nil =>
    rw [readMergedItems] at hns
    obtain rfl := Except.ok.inj hns
    exact fun ms hms => absurd hms List.not_mem_nil
  | cons n ns ih =>
    obtain ⟨hn, hrest⟩ := List.forall_mem_cons.1 h
    cases n with
    | scalar id tag text => simp [readMergedItems] at hns
    | seq id tag pairId items => simp [readMergedItems] at hns
    | map id tag es =>
      rw [readMergedItems] at hns
      obtain ⟨merged, hmerged, hns⟩ := Result.ok_of_bind hns
      obtain ⟨behind, hbehind, hns⟩ := Result.ok_of_bind hns
      obtain rfl := Except.ok.inj hns
      refine List.forall_mem_cons.2 ⟨hn.merged _ ?_, ih hrest hbehind⟩
      rw [readMergedFrom, hmerged]
      rfl

/-- The entries of a map: those that are merged into it, and its own. -/
theorem forall_entries (htext : P (.text "=")) {es : List (Node × Node)}
    (hkeys : ∀ e ∈ es, e.1.Reads P) (hvalues : ∀ e ∈ es, e.2.Reads P)
    {all : List (Reading × Reading)}
    (h : (do return (← readMerged es) ++ readOwn es : Except Fault _) = .ok all) :
    ∀ e ∈ all, EntryHas P e := by
  obtain ⟨merged, hmerged, h⟩ := Result.ok_of_bind h
  obtain rfl := Except.ok.inj h
  exact List.forall_mem_append.2 ⟨forall_readMerged hvalues hmerged,
    forall_readOwn htext fun e he => ⟨(hkeys e he).value, (hvalues e he).value⟩⟩

theorem reads_scalar {text : List Char} (h : P (Node.scalar id tag text).read.value) :
    (Node.scalar id tag text).Reads P := by
  refine ⟨h, fun es hes => ?_, nofun⟩
  -- a scalar is no map that could be merged
  rw [readMergedFrom] at hes
  cases hes

theorem reads_seq {pairId : ObjectId} {items : List Node}
    (h : P (Node.seq id tag pairId items).read.value) (hitems : ∀ n ∈ items, n.Reads P) :
    (Node.seq id tag pairId items).Reads P := by
  refine ⟨h, fun es hes => ?_, nofun⟩
  rw [readMergedFrom] at hes
  obtain ⟨mss, hmss, hes⟩ := Result.ok_of_bind hes
  obtain rfl := Except.ok.inj hes
  intro e he
  obtain ⟨ms, hms, hmem⟩ := List.mem_flatten.1 he
  exact forall_readMergedItems hitems hmss ms (List.mem_reverse.1 hms) e hmem

theorem reads_map (htext : P (.text "=")) {es : List (Node × Node)}
    (h : P (Node.map id tag es).read.value) (hkeys : ∀ e ∈ es, e.1.Reads P)
    (hvalues : ∀ e ∈ es, e.2.Reads P) : (Node.map id tag es).Reads P := by
  refine ⟨h, fun all hall => ?_, ?_⟩
  · -- a map merged into another one brings in the entries that it has itself
    rw [readMergedFrom] at hall
    exact forall_entries htext hkeys hvalues hall
  · rintro id' tag' es' heq
    obtain ⟨-, -, rfl⟩ := Node.map.inj heq
    exact fun e he => ⟨(hkeys e he).value, (hvalues e he).value⟩

end

/-! ### Nodes that are registered -/

section

variable {tag : Tag}

theorem recorded_pairs {first : ObjectId} {vs : List (Value × Value)} (hfirst : first + vs.length ≤ w.supply)
    (h : ∀ p ∈ vs, Recorded w p.1 ∧ Recorded w p.2) : ∀ v ∈ pairs first vs, Recorded w v := by
  induction vs generalizing first with
  | nil => exact fun v hv => absurd hv List.not_mem_nil
  | cons p vs ih =>
    obtain ⟨hp, hvs⟩ := List.forall_mem_cons.1 h
    have hnext : first + 1 + vs.length ≤ w.supply := by
      rw [List.length_cons] at hfirst
      exact le_of_eq_of_le (Nat.succ_add_eq_add_succ _ _) hfirst
    refine List.forall_mem_cons.2 ⟨recorded_tuple (le_trans (Nat.le_add_right _ _) hnext) ?_,
      ih hnext hvs⟩
    simpa using hp

theorem recorded_scalar {text : List Char} (hhi : id < w.supply) (htag : tag.bound ≤ w.supply) :
    Recorded w (Node.scalar id tag text).read.value := by
  rw [read]
  split
  · exact Reading.recorded_faultyInside _ (Nat.zero_lt_of_lt hhi)
  · exact Reading.recorded_ofAtom hhi htag

theorem recorded_seq {pairId : ObjectId} {items : List Node} (hhi : id < w.supply)
    (hpair : pairId + items.length ≤ w.supply) (hitems : ∀ n ∈ items, n.Reads (Recorded w)) :
    Recorded w (Node.seq id tag pairId items).read.value := by
  rw [read]
  split_ifs
  · refine recorded_list hhi fun v hv => ?_
    rw [readItems_eq, List.map_map] at hv
    obtain ⟨n, hn, rfl⟩ := List.mem_map.1 hv
    exact (hitems n hn).value
  · -- pairs are tuples, with as many identities set apart as there are items
    refine recorded_list hhi (recorded_pairs ?_ (forall_pairs_of_items hitems))
    refine le_trans (Nat.add_le_add_left ?_ pairId) hpair
    exact le_of_le_of_eq (List.length_filterMap_le _ _) (length_readPairs items)
  · exact Reading.recorded_faultyInside _ (Nat.zero_lt_of_lt hhi)
  · exact Reading.recorded_faulty _

theorem recorded_mapNode {es : List (Node × Node)} (hlo : lo ≤ id) (hhi : id < w.supply)
    (htag : tag.bound ≤ w.supply) (hself : .map id tag es ∈ w.nodes)
    (hkeys : ∀ e ∈ es, e.1.Reads (Recorded w)) (hvalues : ∀ e ∈ es, e.2.Reads (Recorded w)) :
    Recorded w (Node.map id tag es).read.value := by
  rw [read]
  split_ifs with hmap
  · exact Reading.recorded_ofEntries hlo hhi ⟨_, hself, by rw [read, if_pos hmap]⟩ fun _ =>
      forall_entries (recorded_atom (Nat.zero_le _)) hkeys hvalues
  · exact Reading.recorded_faultyInside _ (Nat.zero_lt_of_lt hhi)
  · unfold collectionAsScalar
    split
    · exact Reading.recorded_faulty _
    · split_ifs
      · exact Reading.recorded_faulty _
      · exact Reading.recorded_ofAtom hhi htag

/-- What is read of a registered node is made of new objects and registered maps. -/
theorem Within.reads {n : Node} (h : n.Within lo w.supply) (hn : n ∈ w.nodes) :
    n.Reads (Recorded w) := by
  induction h with
  | scalar hlo hhi htag => exact reads_scalar (recorded_scalar hhi htag)
  | seq hlo hhi hpair _ ih =>
    have hitems := fun n hin => ih n hin (w.parts _ hn n hin)
    exact reads_seq (recorded_seq hhi hpair hitems) hitems
  | map hlo hhi htag _ _ ihkeys ihvalues =>
    have hkeys := fun e he => ihkeys e he (w.parts _ hn e he).1
    have hvalues := fun e he => ihvalues e he (w.parts _ hn e he).2
    exact reads_map (recorded_atom (Nat.zero_le _)) (recorded_mapNode hlo hhi htag hn hkeys hvalues)
      hkeys hvalues

end

theorem value_ofAtom_ne (x : Except Fault Atom) (es : MapEntries) :
    (Reading.ofAtom x).value ≠ .map id es := by
  cases x <;> exact Value.noConfusion

/-- A node that denotes a map has the identity of the map. -/
theorem id_of_read {n : Node} {es : MapEntries} (h : n.read.value = .map id es) : n.id = id := by
  cases n with
  | scalar id' tag text =>
    rw [read] at h
    split at h
    · cases h
    · exact absurd h (value_ofAtom_ne _ es)
  | seq id' tag pairId items =>
    rw [read] at h
    split_ifs at h <;> cases h
  | map id' tag es' =>
    rw [read] at h
    split_ifs at h
    · unfold Reading.ofEntries at h
      split at h
      · cases h
      · dsimp only at h
        split at h
        · cases h
        · exact (Value.map.inj h).1
    · cases h
    · unfold collectionAsScalar at h
      split at h
      · cases h
      · split_ifs at h
        · cases h
        · exact absurd h (value_ofAtom_ne _ es)

end Node

/-- The maps of values that are read have one content each. -/
theorem coherent_of_recorded {ms : List (ObjectId × MapEntries)}
    (h : ∀ m ∈ ms, ∃ n ∈ w.nodes, n.read.value = .map m.1 m.2) : Coherent ms := by
  intro m hm m' hm' hid
  obtain ⟨n, hn, hread⟩ := h m hm
  obtain ⟨n', hn', hread'⟩ := h m' hm'
  have hsame : n = n' :=
    w.unique n hn n' hn' ((Node.id_of_read hread).trans (hid.trans (Node.id_of_read hread').symm))
  rw [hsame, hread'] at hread
  exact (Prod.ext (Value.map.inj hread).1 (Value.map.inj hread).2).symm

theorem Node.read_of_value? {n : Node} {v : Value} (h : n.value? = .ok v) : n.read.value = v := by
  unfold value? at h
  dsimp only at h
  split at h
  · cases h
  · exact Except.ok.inj h

theorem recorded_of_value? {n : Node} {v : Value} (h : n.value? = .ok v) (hn : n ∈ w.nodes) :
    Recorded w v :=
  Node.read_of_value? h ▸ ((w.within n hn).reads hn).value

theorem recorded_readFrom {first : Bool} {n : ℕ} {s : BuildState} {vs : List Value} {supply : Supply}
    (h : readFrom first n s = .ok (vs, supply)) (hs : s.Describes w) :
    ∃ w', w ≤ w' ∧ w'.supply = supply ∧ ∀ v ∈ vs, Recorded w' v := by
  induction n generalizing first s vs w with
  | zero =>
    obtain ⟨rfl, rfl⟩ := Prod.mk.inj (Except.ok.inj h)
    exact ⟨w, le_rfl, hs.supply.symm, fun v hv => absurd hv List.not_mem_nil⟩
  | succ n ih =>
    rw [readFrom] at h
    obtain ⟨⟨node?, s'⟩, hdoc, h⟩ := Result.ok_of_bind h
    obtain ⟨w₁, hle, hs', hnode⟩ := Build.makes_document first s node? s' hs hdoc
    cases node? with
    | none =>
      obtain ⟨rfl, rfl⟩ := Prod.mk.inj (Except.ok.inj h)
      exact ⟨w₁, hle, hs'.supply.symm, fun v hv => absurd hv List.not_mem_nil⟩
    | some node =>
      obtain ⟨v, hv, h⟩ := Result.ok_of_bind h
      obtain ⟨⟨vs', supply'⟩, hrest, h⟩ := Result.ok_of_bind h
      obtain ⟨rfl, rfl⟩ := Prod.mk.inj (Except.ok.inj h)
      obtain ⟨w', hle', hsupply, hvs⟩ := ih hrest hs'
      refine ⟨w', hle.trans hle', hsupply, List.forall_mem_cons.2 ⟨?_, hvs⟩⟩
      exact (recorded_of_value? hv (hnode node rfl)).mono hle'

theorem BuildState.describes_start (text : List Char) (supply : Supply) :
    (start text supply).Describes (.empty supply) :=
  ⟨rfl, fun _ hp => absurd hp List.not_mem_nil, fun _ hp => absurd hp List.not_mem_nil⟩

/-- Reading all documents of a text is reading on from its start, if nothing is left out. -/
theorem readFrom_of_readAll {text : String} {vs : List Value} {supply supply' : Supply}
    (h : (readAll text).run supply = .ok (vs, supply')) :
    (∃ n, readFrom true n (.start text.toList supply) = .ok (vs, supply')) ∧
      ∀ v ∈ vs, isWhole text.toList v = true := by
  unfold readAll StateT.run at h
  obtain ⟨⟨vs', supply''⟩, hread, h⟩ := Result.ok_of_bind h
  dsimp only at h
  split at h
  · rename_i hall
    obtain ⟨rfl, rfl⟩ := Prod.mk.inj (Except.ok.inj h)
    exact ⟨⟨_, hread⟩, List.all_eq_true.1 hall⟩
  · cases h

/-- The only document of a text is null or a registered node. -/
theorem exists_node_of_readSingle {text : String} {v : Value} {supply supply' : Supply}
    (h : (readSingle text).run supply = .ok (v, supply')) :
    ∃ w : Register supply, v = .null ∨ ∃ n ∈ w.nodes, n.read.value = v := by
  unfold readSingle StateT.run at h
  obtain ⟨⟨node?, s⟩, hdoc, h⟩ := Result.ok_of_bind h
  obtain ⟨w, -, -, hnode⟩ :=
    Build.makes_document true _ node? s (BuildState.describes_start _ supply) hdoc
  cases node? with
  | none =>
    obtain ⟨rfl, -⟩ := Prod.mk.inj (Except.ok.inj h)
    exact ⟨w, .inl rfl⟩
  | some node =>
    obtain ⟨⟨_, s'⟩, -, h⟩ := Result.ok_of_bind h
    obtain ⟨v, hv, h⟩ := Result.ok_of_bind h
    obtain ⟨rfl, -⟩ := Prod.mk.inj (Except.ok.inj h)
    exact ⟨w, .inr ⟨node, hnode node rfl, Node.read_of_value? hv⟩⟩

theorem readSingle_of_readOne {text : String} {v : Value} {supply supply' : Supply}
    (h : (readOne text).run supply = .ok (v, supply')) :
    (readSingle text).run supply = .ok (v, supply') ∧ isWhole text.toList v = true := by
  unfold readOne at h
  rw [StateT.run_bind] at h
  obtain ⟨⟨v', s⟩, hread, h⟩ := Result.ok_of_bind h
  dsimp only at h
  split at h
  · rename_i hwhole
    obtain ⟨rfl, rfl⟩ := Prod.mk.inj (Except.ok.inj h)
    exact ⟨hread, hwhole⟩
  · cases h

/-- The value of the only document in a text is made of new objects and registered maps. -/
theorem recorded_readOne {text : String} {v : Value} {supply supply' : Supply}
    (h : (readOne text).run supply = .ok (v, supply')) : ∃ w : Register supply, Recorded w v := by
  obtain ⟨w, hv⟩ := exists_node_of_readSingle (readSingle_of_readOne h).1
  rcases hv with rfl | ⟨n, hn, rfl⟩
  · exact ⟨w, recorded_atom (Nat.zero_le _)⟩
  · exact ⟨w, ((w.within n hn).reads hn).value⟩

/-- **The values that a text says are made of new objects**, and their maps are the values of
registered nodes. -/
theorem recorded_readAll {text : String} {vs : List Value} {supply supply' : Supply}
    (h : (readAll text).run supply = .ok (vs, supply')) :
    ∃ w : Register supply, w.supply = supply' ∧ ∀ v ∈ vs, Recorded w v := by
  obtain ⟨n, hread⟩ := (readFrom_of_readAll h).1
  obtain ⟨w, -, hsupply, hvs⟩ := recorded_readFrom hread (BuildState.describes_start _ _)
  exact ⟨w, hsupply, hvs⟩

end Yaml

end ScopedFn
