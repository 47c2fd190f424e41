import ScopedFn.Proofs.Result
import ScopedFn.Proofs.Value.Renaming
import ScopedFn.Yaml.Writer

/-!
# Documents without identities

The text of a document tells which of its nodes are one node by anchors, which are numbered anew in
every document. So the text does not depend on what the identities of the nodes are, only on which
of them are the same.

* `Node.ofValue_rename` : the nodes of a renamed value are the renamed nodes;
* `Node.anchors_rename` : renamed nodes are numbered in the same order;
* `Node.write_rename` : they are written as the same text;
* `write_rename` : a value and a renamed value are the same document.
-/

set_option autoImplicit false

namespace ScopedFn.Yaml

namespace Node

mutual

/-- The node with other identities. -/
def rename (g : Labelling) : Node → Node
  | .scalar id tag text => .scalar (g id) tag text
  | .seq id tag pairId items => .seq (g id) tag pairId (renameItems g items)
  | .map id tag es => .map (g id) tag (renameEntries g es)

/-- The items with other identities. -/
def renameItems (g : Labelling) : List Node → List Node
  | [] => []
  | n :: ns => rename g n :: renameItems g ns

/-- The entries with other identities. -/
def renameEntries (g : Labelling) : List (Node × Node) → List (Node × Node)
  | [] => []
  | (k, v) :: es => (rename g k, rename g v) :: renameEntries g es

end

variable {g : Labelling}

@[simp] theorem id_rename (g : Labelling) (n : Node) : (n.rename g).id = g n.id := by
  cases n <;> rfl

@[simp] theorem tag_rename (g : Labelling) (n : Node) : (n.rename g).tag = n.tag := by
  cases n <;> rfl

@[simp] theorem isEmpty_renameItems (g : Labelling) (ns : List Node) :
    (renameItems g ns).isEmpty = ns.isEmpty := by
  cases ns <;> rfl

@[simp] theorem isEmpty_renameEntries (g : Labelling) (es : List (Node × Node)) :
    (renameEntries g es).isEmpty = es.isEmpty := by
  cases es <;> rfl

theorem renameItems_eq (g : Labelling) (ns : List Node) : renameItems g ns = ns.map (rename g) := by
  induction ns with
  | nil => rfl
  | cons n ns ih => rw [renameItems, ih, List.map_cons]

theorem renameEntries_eq (g : Labelling) (es : List (Node × Node)) :
    renameEntries g es = es.map fun e => (e.1.rename g, e.2.rename g) := by
  induction es with
  | nil => rfl
  | cons e es ih => rw [renameEntries, ih, List.map_cons]

/-! ### The nodes of values -/

theorem ofAtoms_eq (as : List Atom) : ofAtoms as = as.mapM ofAtom := by
  induction as with
  | nil => rfl
  | cons a as ih => rw [ofAtoms, ih, List.mapM_cons]

theorem ofItems_eq (vs : List Value) : ofItems vs = vs.mapM ofValue := by
  induction vs with
  | nil => rfl
  | cons v vs ih => rw [ofItems, ih, List.mapM_cons]

/-- The nodes of an entry. -/
def ofEntry (e : Atom × Value) : Except Fault (Node × Node) := do
  return (← ofAtom e.1, ← ofValue e.2)

theorem ofEntries_eq (es : MapEntries) : ofEntries es = es.mapM ofEntry := by
  induction es with
  | nil => rfl
  | cons e es ih =>
    rw [ofEntries, ih, List.mapM_cons, ofEntry]
    rcases ofAtom e.1 with fault | key
    · rfl
    · rcases ofValue e.2 with fault | value <;> rfl

theorem rename_ofTuple (g : Labelling) (id : ObjectId) (ns : List Node) :
    (ofTuple id ns).rename g = ofTuple (g id) (ns.map (rename g)) := by
  rw [ofTuple, ofTuple, rename, renameItems_eq, List.isEmpty_map]
  split
  · rw [g.noObject]
  · rfl

theorem ofScalar_rename (a : Atom) (h : ∀ id items, a ≠ .tuple id items) :
    ofScalar (a.rename (.uniform g)) = (ofScalar a).map (rename g) := by
  have hwritten : Scalar.written (a.rename (.uniform g)) = Scalar.written a := by
    cases a <;> rfl
  unfold ofScalar
  rw [hwritten]
  rcases Scalar.written a with fault | ⟨tag, text⟩
  · rfl
  · -- days and times have an identity of their own, the others none
    cases a with
    | tuple id items => exact absurd rfl (h id items)
    | date id d | dateTime id t => rfl
    | _ => exact congrArg (fun id => Except.ok (Node.scalar id tag text)) g.noObject.symm

theorem ofAtom_rename (g : Labelling) (a : Atom) :
    ofAtom (a.rename (.uniform g)) = (ofAtom a).map (rename g) := by
  induction a using Atom.induction with
  | scalar a h =>
    cases a with
    | tuple id items => exact absurd rfl (h id items)
    | _ => exact ofScalar_rename _ h
  | tuple id items ih =>
    rw [Atom.rename, ofAtom, ofAtom, ofAtoms_eq, ofAtoms_eq, Atom.renameAll_eq, Result.mapM_map ih,
      Renaming.ofTuple_uniform]
    rcases items.mapM ofAtom with fault | ns
    · rfl
    · exact congrArg Except.ok (rename_ofTuple g id ns).symm

theorem ofAtoms_rename (g : Labelling) (as : List Atom) :
    ofAtoms (as.map (Atom.rename (.uniform g))) = (ofAtoms as).map (List.map (rename g)) := by
  rw [ofAtoms_eq, ofAtoms_eq, Result.mapM_map fun a _ => ofAtom_rename g a]

/-- **The nodes of a renamed value are the renamed nodes.** -/
theorem ofValue_rename (g : Labelling) (v : Value) :
    ofValue (v.rename (.uniform g)) = (ofValue v).map (rename g) := by
  induction v using Value.induction with
  | atom a => exact ofAtom_rename g a
  | list id items ih =>
    rw [Value.rename, ofValue, ofValue, ofItems_eq, ofItems_eq, Value.renameItems_eq,
      Result.mapM_map ih]
    rcases items.mapM ofValue with fault | ns
    · rfl
    · exact congrArg (fun ns => Except.ok (Node.seq (g id) .seq noObject ns)) (renameItems_eq g ns).symm
  | tuple id items ih =>
    rw [Value.rename, ofValue, ofValue, ofItems_eq, ofItems_eq, Value.renameItems_eq,
      Result.mapM_map ih, Renaming.ofTuple_uniform]
    rcases items.mapM ofValue with fault | ns
    · rfl
    · exact congrArg Except.ok (rename_ofTuple g id ns).symm
  | map id es ih =>
    have hes : ∀ e ∈ es, ofEntry (e.1.rename (.uniform g), e.2.rename (.uniform g)) =
        (ofEntry e).map fun e => (e.1.rename g, e.2.rename g) := by
      intro e he
      rw [ofEntry, ofEntry, ofAtom_rename, ih e he]
      rcases ofAtom e.1 with fault | key
      · rfl
      · rcases ofValue e.2 with fault | value <;> rfl
    rw [Value.rename, ofValue, ofValue, ofEntries_eq, ofEntries_eq, Value.renameEntries_eq,
      Result.mapM_map hes]
    rcases es.mapM ofEntry with fault | ns
    · rfl
    · exact congrArg (fun ns => Except.ok (Node.map (g id) .map ns)) (renameEntries_eq g ns).symm
  | set id ms =>
    rw [Value.rename, ofValue, ofValue, Atom.renameAll_eq, ofAtoms_rename]
    rcases ofAtoms ms with fault | ns
    · rfl
    · -- the nulls that the members are mapped to are no objects
      refine congrArg (fun es => Except.ok (Node.map (g id) .set es)) ?_
      rw [renameEntries_eq, List.map_map, List.map_map]
      exact List.map_congr_left fun n _ => congrArg (fun id => (n.rename g, Node.scalar id _ _)) g.noObject.symm

/-! ### Counting nodes -/

/-- The census with other identities. -/
def Census.rename (g : Labelling) (c : Census) : Census := ⟨c.seen.map g, c.again.map g⟩

theorem contains_label (g : Labelling) (ids : List ObjectId) (id : ObjectId) :
    (ids.map g).contains (g id) = ids.contains id := by
  rw [Bool.eq_iff_iff, List.contains_iff_mem, List.contains_iff_mem, List.mem_map_of_injective g.injective]

theorem meet_rename (g : Labelling) (id : ObjectId) (c : Census) :
    (Census.meet (g id)).run (c.rename g) =
      (((Census.meet id).run c).1, ((Census.meet id).run c).2.rename g) := by
  unfold Census.meet
  simp only [StateT.run, g.eq_noObject, Census.rename, contains_label]
  split
  · rfl
  · split
    · split <;> rfl
    · rfl

mutual

/-- **Renamed nodes are counted alike.** -/
theorem census_rename (g : Labelling) : ∀ (n : Node) (c : Census),
    (census (n.rename g)).run (c.rename g) = ((), ((census n).run c).2.rename g)
  | .scalar id tag text, c => by
    rw [rename, census, census, StateT.run_bind, meet_rename]
    rfl
  | .seq id tag pairId items, c => by
    rw [rename, census, census, StateT.run_bind, StateT.run_bind, meet_rename]
    rcases (Census.meet id).run c with ⟨first, c'⟩
    -- what is met again is not entered a second time
    cases first
    · rfl
    · exact censusItems_rename g items c'
  | .map id tag es, c => by
    rw [rename, census, census, StateT.run_bind, StateT.run_bind, meet_rename]
    rcases (Census.meet id).run c with ⟨first, c'⟩
    cases first
    · rfl
    · exact censusEntries_rename g es c'

theorem censusItems_rename (g : Labelling) : ∀ (ns : List Node) (c : Census),
    (censusItems (renameItems g ns)).run (c.rename g) = ((), ((censusItems ns).run c).2.rename g)
  | [], _ => rfl
  | n :: ns, c => by
    rw [renameItems, censusItems, censusItems, StateT.run_bind, StateT.run_bind, census_rename g n c]
    exact censusItems_rename g ns _

theorem censusEntries_rename (g : Labelling) : ∀ (es : List (Node × Node)) (c : Census),
    (censusEntries (renameEntries g es)).run (c.rename g) =
      ((), ((censusEntries es).run c).2.rename g)
  | [], _ => rfl
  | (k, v) :: es, c => by
    rw [renameEntries, censusEntries, censusEntries, StateT.run_bind, StateT.run_bind,
      census_rename g k c]
    refine (StateT.run_bind (census (v.rename g)) (fun _ => censusEntries (renameEntries g es)) _).trans ?_
    rw [census_rename g v]
    exact censusEntries_rename g es _

end

theorem anchors_rename (g : Labelling) (n : Node) : (n.rename g).anchors = n.anchors.map g := by
  have hcensus : (census (n.rename g)).run ⟨[], []⟩ = ((), ((census n).run ⟨[], []⟩).2.rename g) :=
    census_rename g n ⟨[], []⟩
  rw [anchors, anchors, hcensus]
  exact List.map_reverse.symm

/-! ### Writing nodes -/

variable (g : Labelling) (shared : List ObjectId)

theorem anchor?_rename (n : Node) : (n.rename g).anchor? (shared.map g) = n.anchor? shared := by
  have hsame : ((fun id => id == g n.id) ∘ g) = fun id => id == n.id := by
    funext id
    rw [Function.comp_apply, Bool.eq_iff_iff, beq_iff_eq, beq_iff_eq, g.injective.eq_iff]
  rw [anchor?, anchor?, List.findIdx?_map, id_rename, hsame]

theorem fitsLine_rename (n : Node) (isAlias : Bool) :
    (n.rename g).fitsLine (shared.map g) isAlias = n.fitsLine shared isAlias := by
  unfold fitsLine
  rw [anchor?_rename, tag_rename]
  cases n with
  | scalar id tag text => rfl
  | seq id tag pairId items => simp only [rename, isEmpty_renameItems]
  | map id tag es => simp only [rename, isEmpty_renameEntries]

end Node

/-- The page with other identities. -/
def Page.rename (g : Labelling) (p : Page) : Page := { p with written := p.written.map g }

@[simp] theorem Page.rename_onSheet (g : Labelling) (f : Sheet → Sheet) (p : Page) :
    (p.rename g).onSheet f = (p.onSheet f).rename g := rfl

namespace Node

variable (g : Labelling) (shared : List ObjectId)

theorem isWritten_rename (n : Node) (p : Page) :
    (n.rename g).isWritten (shared.map g) (p.rename g) = n.isWritten shared p := by
  rw [isWritten, isWritten, anchor?_rename, id_rename, Page.rename, contains_label]

theorem writeAnchor_rename (n : Node) (p : Page) :
    (n.rename g).writeAnchor (shared.map g) (p.rename g) = (n.writeAnchor shared p).rename g := by
  rw [writeAnchor, writeAnchor, anchor?_rename, id_rename]
  rcases n.anchor? shared with _ | name <;> rfl

theorem writeAlias_rename (n : Node) :
    (n.rename g).writeAlias (shared.map g) = n.writeAlias shared := by
  funext s
  rw [writeAlias, writeAlias, anchor?_rename]

mutual

/-- **Renamed nodes are written as the same text.** -/
theorem write_rename (indent : Option Nat) (place : Place) : ∀ (n : Node) (p : Page),
    write (shared.map g) indent place (n.rename g) (p.rename g) =
      (write shared indent place n p).rename g
  | .scalar id tag text, p => by
    have hwritten := isWritten_rename g shared (.scalar id tag text) p
    have hanchor := writeAnchor_rename g shared (.scalar id tag text) p
    have halias := writeAlias_rename g shared (.scalar id tag text)
    rw [rename] at hwritten hanchor halias ⊢
    simp only [write, hwritten, hanchor, halias, Page.rename_onSheet]
    split <;> rfl
  | .seq id tag pairId items, p => by
    have hwritten := isWritten_rename g shared (.seq id tag pairId items) p
    have hanchor := writeAnchor_rename g shared (.seq id tag pairId items) p
    have halias := writeAlias_rename g shared (.seq id tag pairId items)
    rw [rename] at hwritten hanchor halias ⊢
    simp only [write, hwritten, hanchor, halias, Page.rename_onSheet, isEmpty_renameItems]
    split
    · rfl
    · split
      · rfl
      · exact writeItems_rename _ items _
  | .map id tag es, p => by
    have hwritten := isWritten_rename g shared (.map id tag es) p
    have hanchor := writeAnchor_rename g shared (.map id tag es) p
    have halias := writeAlias_rename g shared (.map id tag es)
    rw [rename] at hwritten hanchor halias ⊢
    simp only [write, hwritten, hanchor, halias, Page.rename_onSheet, isEmpty_renameEntries]
    split
    · rfl
    · split
      · rfl
      · exact writeEntries_rename _ es _

theorem writeItems_rename (indent : Nat) : ∀ (ns : List Node) (p : Page),
    writeItems (shared.map g) indent (renameItems g ns) (p.rename g) =
      (writeItems shared indent ns p).rename g
  | [], _ => by rw [renameItems, writeItems, writeItems]
  | n :: ns, p => by
    rw [renameItems, writeItems, writeItems, Page.rename_onSheet, write_rename _ _ n]
    exact writeItems_rename indent ns _

theorem writeEntries_rename (indent : Nat) : ∀ (es : List (Node × Node)) (p : Page),
    writeEntries (shared.map g) indent (renameEntries g es) (p.rename g) =
      (writeEntries shared indent es p).rename g
  | [], _ => by rw [renameEntries, writeEntries, writeEntries]
  | (k, v) :: es, p => by
    simp only [renameEntries, writeEntries, Page.rename_onSheet, isWritten_rename, fitsLine_rename,
      write_rename _ _ k]
    -- a key that fits the line stands before its value, any other takes a line of its own
    split
    · rw [write_rename _ _ v]
      exact writeEntries_rename indent es _
    · rw [write_rename _ _ v]
      exact writeEntries_rename indent es _

end

/-- Renamed nodes are the same document. -/
theorem document_rename (g : Labelling) (n : Node) : (n.rename g).document = n.document := by
  have hwrite : write (n.anchors.map g) none .root (n.rename g) ⟨Sheet.empty, []⟩ =
      (write n.anchors none .root n ⟨Sheet.empty, []⟩).rename g :=
    write_rename g n.anchors none .root n ⟨Sheet.empty, []⟩
  rw [document, document, anchors_rename, hwrite]
  rfl

end Node

/-- **A renamed value is the same document.** -/
theorem write_rename (g : Labelling) (v : Value) : write (v.rename (.uniform g)) = write v := by
  rw [write, write, Node.ofValue_rename]
  rcases Node.ofValue v with fault | n
  · rfl
  · exact congrArg Except.ok (Node.document_rename g n)

end ScopedFn.Yaml
