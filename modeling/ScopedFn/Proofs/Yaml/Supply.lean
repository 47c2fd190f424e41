import Mathlib.Data.List.Basic
import Mathlib.Data.Set.Insert
import Mathlib.Order.Basic
import Mathlib.Tactic.SplitIfs
import ScopedFn.Proofs.Result
import ScopedFn.Yaml.Reader

/-!
# The identities of nodes

Every node that a text says is made anew: its identity is taken from the supply. An alias stands
for a node that was made before, in the same document. So a node is known from its identity.

* `Node.Within` : all identities in a node lie in an interval of the supply;
* `Register` : the nodes made so far, with the nodes inside them, no two of one identity;
* `Build.Makes` : what a step of building makes, and how the register goes on;
* `Build.makes_document` : the nodes of the documents of a text.
-/

set_option autoImplicit false

namespace ScopedFn.Yaml

/-- More than the identity that a tag refers to. -/
def Tag.bound : Tag → ℕ
  | .enclosing id _ => id + 1
  | _ => 0

/-- The tag of a full name refers to nothing. -/
theorem Tag.bound_ofUri (uri : String) : (Tag.ofUri uri).bound = 0 := by
  have hknown : ∀ e ∈ Tag.known, e.2.bound = 0 := by decide
  unfold Tag.ofUri
  split
  · rename_i name tag hfind
    exact hknown _ (List.mem_of_find?_eq_some hfind)
  · rfl

/-- The tag that a text suggests refers to nothing. -/
theorem Tag.bound_implied (text : List Char) : (Tag.implied text).bound = 0 := by
  unfold Tag.implied
  dsimp only
  split_ifs <;> rfl

/-- All identities in the node lie between two of the supply. -/
inductive Node.Within (lo hi : ℕ) : Node → Prop
  /-- A text, or a reference to what lies around it. -/
  | scalar {id : ObjectId} {tag : Tag} {text : List Char} (hlo : lo ≤ id) (hhi : id < hi)
      (htag : tag.bound ≤ hi) : Within lo hi (.scalar id tag text)
  /-- A sequence, with the identities of its pairs. -/
  | seq {id : ObjectId} {tag : Tag} {pairId : ObjectId} {items : List Node} (hlo : lo ≤ id)
      (hhi : id < hi) (hpair : pairId + items.length ≤ hi) (hitems : ∀ n ∈ items, Within lo hi n) :
      Within lo hi (.seq id tag pairId items)
  /-- A map. -/
  | map {id : ObjectId} {tag : Tag} {es : List (Node × Node)} (hlo : lo ≤ id) (hhi : id < hi)
      (htag : tag.bound ≤ hi) (hkeys : ∀ e ∈ es, Within lo hi e.1)
      (hvalues : ∀ e ∈ es, Within lo hi e.2) : Within lo hi (.map id tag es)

theorem Node.Within.mono {lo hi hi' : ℕ} {n : Node} (h : n.Within lo hi) (hle : hi ≤ hi') :
    n.Within lo hi' := by
  induction h with
  | scalar hlo hhi htag => exact .scalar hlo (lt_of_lt_of_le hhi hle) (le_trans htag hle)
  | seq hlo hhi hpair _ ih => exact .seq hlo (lt_of_lt_of_le hhi hle) (le_trans hpair hle) ih
  | map hlo hhi htag _ _ ihkeys ihvalues =>
    exact .map hlo (lt_of_lt_of_le hhi hle) (le_trans htag hle) ihkeys ihvalues

theorem Node.Within.id_lt {lo hi : ℕ} {n : Node} (h : n.Within lo hi) : n.id < hi := by
  cases h <;> assumption

/-- The nodes right inside a node are among some nodes. -/
def Node.PartsIn (nodes : Set Node) : Node → Prop
  | .scalar _ _ _ => True
  | .seq _ _ _ items => ∀ n ∈ items, n ∈ nodes
  | .map _ _ es => ∀ e ∈ es, e.1 ∈ nodes ∧ e.2 ∈ nodes

theorem Node.PartsIn.mono {nodes nodes' : Set Node} {n : Node} (h : n.PartsIn nodes)
    (hle : nodes ⊆ nodes') : n.PartsIn nodes' := by
  cases n with
  | scalar id tag text => trivial
  | seq id tag pairId items => exact fun n hn => hle (h n hn)
  | map id tag es => exact fun e he => (h e he).imp (@hle _) (@hle _)

/-- The nodes that have been made, from one identity of the supply on. -/
structure Register (lo : ℕ) where
  /-- The next identity. -/
  supply : ℕ
  /-- The nodes. -/
  nodes : Set Node
  /-- The supply starts at the given identity. -/
  start : lo ≤ supply
  /-- The nodes are made from the part of the supply that is used up. -/
  within : ∀ n ∈ nodes, n.Within lo supply
  /-- What is inside a node is registered too. -/
  parts : ∀ n ∈ nodes, n.PartsIn nodes
  /-- A node is known from its identity. -/
  unique : ∀ n ∈ nodes, ∀ m ∈ nodes, n.id = m.id → n = m

namespace Register

variable {lo : ℕ} {w w' : Register lo} {n : Node}

/-- A register goes on from another one: what is added has identities that were not used up. -/
structure Extends (w w' : Register lo) : Prop where
  /-- The supply has gone on. -/
  supply : w.supply ≤ w'.supply
  /-- No node is lost. -/
  nodes : w.nodes ⊆ w'.nodes
  /-- The new nodes are made from the supply. -/
  added : ∀ n ∈ w'.nodes, n ∉ w.nodes → w.supply ≤ n.id

instance : Preorder (Register lo) where
  le := Extends
  le_refl _ := ⟨le_rfl, subset_rfl, fun _ hn hnot => absurd hn hnot⟩
  le_trans _ w' _ h h' := by
    refine ⟨h.supply.trans h'.supply, h.nodes.trans h'.nodes, fun n hn hnot => ?_⟩
    by_cases hmid : n ∈ w'.nodes
    · exact h.added n hmid hnot
    · exact h.supply.trans (h'.added n hn hmid)

theorem mem_of_le (hle : w ≤ w') (h : n ∈ w.nodes) : n ∈ w'.nodes := Extends.nodes hle h

/-- The register before anything is made. -/
def empty (lo : ℕ) : Register lo where
  supply := lo
  nodes := ∅
  start := le_rfl
  within _ h := absurd h (Set.notMem_empty _)
  parts _ h := absurd h (Set.notMem_empty _)
  unique _ h := absurd h (Set.notMem_empty _)

/-- The register when identities have been taken. -/
def skip (w : Register lo) (k : ℕ) : Register lo where
  supply := w.supply + k
  nodes := w.nodes
  start := Nat.le_add_right_of_le w.start
  within n hn := (w.within n hn).mono (Nat.le_add_right _ _)
  parts := w.parts
  unique := w.unique

theorem le_skip (w : Register lo) (k : ℕ) : w ≤ w.skip k :=
  ⟨Nat.le_add_right _ _, subset_rfl, fun _ hn hnot => absurd hn hnot⟩

/-- The register with one more node, whose parts are registered. -/
def add (w : Register lo) (n : Node) (hn : n.Within lo w.supply) (hparts : n.PartsIn w.nodes)
    (hfree : ∀ m ∈ w.nodes, m.id ≠ n.id) : Register lo where
  supply := w.supply
  nodes := insert n w.nodes
  start := w.start
  within m hm := by
    obtain rfl | hm := Set.mem_insert_iff.1 hm
    · exact hn
    · exact w.within m hm
  parts m hm := by
    obtain rfl | hm := Set.mem_insert_iff.1 hm
    · exact hparts.mono (Set.subset_insert _ _)
    · exact (w.parts m hm).mono (Set.subset_insert _ _)
  unique m hm m' hm' hid := by
    obtain rfl | hold := Set.mem_insert_iff.1 hm
    · obtain rfl | hold' := Set.mem_insert_iff.1 hm'
      · rfl
      · exact absurd hid.symm (hfree _ hold')
    · obtain rfl | hold' := Set.mem_insert_iff.1 hm'
      · exact absurd hid (hfree _ hold)
      · exact w.unique _ hold _ hold' hid

/-- An identity that has been taken stays free until a node is made with it. -/
theorem free_of_skip (hle : w.skip 1 ≤ w') : ∀ m ∈ w'.nodes, m.id ≠ w.supply := by
  intro m hm
  by_cases hold : m ∈ w.nodes
  · exact Nat.ne_of_lt (w.within m hold).id_lt
  · exact Nat.ne_of_gt (Extends.added hle m hm hold)

end Register

/-- The register says what the state refers to. -/
structure BuildState.Describes {lo : ℕ} (s : BuildState) (w : Register lo) : Prop where
  /-- They have the same supply. -/
  supply : s.supply = w.supply
  /-- The anchored nodes are registered. -/
  anchored : ∀ p ∈ s.anchored, p.2 ∈ w.nodes
  /-- The identities of what has begun are used up. -/
  begun : ∀ p ∈ s.begun, p.2.1 < w.supply

namespace Build

variable {α β : Type} {lo : ℕ} {w : Register lo} {m : Build α} {f : α → Build β}
  {P : Register lo → α → Prop} {Q : Register lo → β → Prop}

/-- A step goes on from the register, and makes what has the property. -/
def Makes (w : Register lo) (m : Build α) (P : Register lo → α → Prop) : Prop :=
  ∀ s a s', s.Describes w → m.run s = .ok (a, s') → ∃ w', w ≤ w' ∧ s'.Describes w' ∧ P w' a

/-- Nothing is said of what a step makes. -/
abbrev Any (_ : Register lo) (_ : α) : Prop := True

/-- A node that is registered. -/
abbrev Made (w : Register lo) (n : Node) : Prop := n ∈ w.nodes

/-- Nodes that are registered. -/
def MadeItems (w : Register lo) (ns : List Node) : Prop := ∀ n ∈ ns, n ∈ w.nodes

/-- Key and value that are registered. -/
abbrev MadeEntry (w : Register lo) (e : Node × Node) : Prop := e.1 ∈ w.nodes ∧ e.2 ∈ w.nodes

/-- Keys and values that are registered. -/
def MadeEntries (w : Register lo) (es : List (Node × Node)) : Prop := ∀ e ∈ es, MadeEntry w e

theorem makes_pure {a : α} (h : P w a) : Makes w (pure a) P := by
  intro s a' s' hs hrun
  obtain ⟨rfl, rfl⟩ := Prod.mk.inj (Except.ok.inj hrun)
  exact ⟨w, le_rfl, hs, h⟩

theorem makes_any (a : α) : Makes w (pure a) Any := makes_pure trivial

theorem makes_throw (fault : Fault) : Makes w (throw fault : Build α) P := by
  intro s a s' _ hrun
  cases hrun

theorem makes_malformed : Makes w (malformed : Build α) P := makes_throw _

theorem Makes.bind (hm : Makes w m P) (hf : ∀ a w', w ≤ w' → P w' a → Makes w' (f a) Q) :
    Makes w (m >>= f) Q := by
  intro s b s' hs hrun
  rw [StateT.run_bind] at hrun
  obtain ⟨⟨a, s₁⟩, hm₁, hrun⟩ := Result.ok_of_bind hrun
  obtain ⟨w₁, hle₁, hs₁, ha⟩ := hm s a s₁ hs hm₁
  obtain ⟨w', hle', hs', hb⟩ := hf a w₁ hle₁ ha s₁ b s' hs₁ hrun
  exact ⟨w', hle₁.trans hle', hs', hb⟩

theorem Makes.next (hm : Makes w m P) (hf : ∀ a w', w ≤ w' → Makes w' (f a) Q) :
    Makes w (m >>= f) Q :=
  hm.bind fun a w' hle _ => hf a w' hle

theorem makes_malformed_bind {f : α → Build β} : Makes w ((malformed : Build α) >>= f) Q :=
  makes_malformed.bind (P := fun _ _ => False) fun _ _ _ h => h.elim

theorem makes_get : Makes w get fun w' s => s.Describes w' := by
  intro s a s' hs hrun
  obtain ⟨rfl, rfl⟩ := Prod.mk.inj (Except.ok.inj hrun)
  exact ⟨w, le_rfl, hs, hs⟩

theorem makes_peek : Makes w peek Any := by
  refine makes_get.next fun s w' _ => ?_
  split
  · exact makes_any _
  · exact makes_get.next fun _ _ _ => makes_throw _

theorem makes_pop : Makes w pop Any := by
  intro s a s' hs hrun
  obtain ⟨rfl, rfl⟩ := Prod.mk.inj (Except.ok.inj hrun)
  exact ⟨w, le_rfl, ⟨hs.supply, hs.anchored, hs.begun⟩, trivial⟩

theorem makes_reserve (n : ℕ) : Makes w (reserve n) fun w' id => id + n ≤ w'.supply := by
  intro s a s' hs hrun
  obtain ⟨rfl, rfl⟩ := Prod.mk.inj (Except.ok.inj hrun)
  exact ⟨w.skip n, w.le_skip n, ⟨congrArg (· + n) hs.supply, hs.anchored,
    fun p hp => Nat.lt_add_right n (hs.begun p hp)⟩, le_of_eq (congrArg (· + n) hs.supply)⟩

theorem Makes.map (hm : Makes w m P) (g : α → β) : Makes w (g <$> m) Any := by
  rw [map_eq_pure_bind]
  exact hm.next fun _ _ _ => makes_any _

/-- A node is made: its identity is taken first, then its parts are made, and then it is registered,
while nothing else can have been made with that identity. -/
theorem makes_node {m : ObjectId → Build α} {mk : ObjectId → α → Node}
    {f : ObjectId → α → Build β}
    (hparts : ∀ id w', w ≤ w' → id < w'.supply → Makes w' (m id) P)
    (hmk : ∀ id w' a, lo ≤ id → id < w'.supply → P w' a →
      (mk id a).id = id ∧ (mk id a).Within lo w'.supply ∧ (mk id a).PartsIn w'.nodes)
    (hf : ∀ id a w', w ≤ w' → mk id a ∈ w'.nodes → Makes w' (f id a) Q) :
    Makes w (fresh >>= fun id => m id >>= fun a => f id a) Q := by
  intro s b s' hs hrun
  rw [StateT.run_bind] at hrun
  obtain ⟨⟨id, s₁⟩, hfresh, hrun⟩ := Result.ok_of_bind hrun
  obtain ⟨rfl, rfl⟩ := Prod.mk.inj (Except.ok.inj hfresh)
  rw [StateT.run_bind] at hrun
  obtain ⟨⟨a, s₂⟩, hm, hrun⟩ := Result.ok_of_bind hrun
  have hs₁ : BuildState.Describes { s with supply := s.supply + 1 } (w.skip 1) :=
    ⟨congrArg (· + 1) hs.supply, hs.anchored, fun p hp => Nat.lt_add_right 1 (hs.begun p hp)⟩
  have hid : s.supply = w.supply := hs.supply
  obtain ⟨w₂, hle₂, hs₂, ha⟩ :=
    hparts s.supply _ (w.le_skip 1) (hid ▸ Nat.lt_succ_self _) _ a s₂ hs₁ hm
  have hlt : s.supply < w₂.supply := lt_of_lt_of_le (hid ▸ Nat.lt_succ_self _) hle₂.supply
  obtain ⟨hmkid, hwithin, hin⟩ := hmk s.supply w₂ a (hid ▸ w.start) hlt ha
  have hfree : ∀ n ∈ w₂.nodes, n.id ≠ (mk s.supply a).id := by
    rw [hmkid, hid]
    exact Register.free_of_skip hle₂
  have hle₃ : w ≤ w₂.add _ hwithin hin hfree := by
    refine ⟨((w.le_skip 1).trans hle₂).supply, fun n hn =>
      Set.mem_insert_of_mem _ (((w.le_skip 1).trans hle₂).nodes hn), fun n hn hnot => ?_⟩
    obtain rfl | hn := Set.mem_insert_iff.1 hn
    · exact le_of_eq (hmkid.trans hid).symm
    · exact ((w.le_skip 1).trans hle₂).added n hn hnot
  have hs₃ : s₂.Describes (w₂.add _ hwithin hin hfree) :=
    ⟨hs₂.supply, fun p hp => Set.mem_insert_of_mem _ (hs₂.anchored p hp), hs₂.begun⟩
  obtain ⟨w', hle', hs', hb⟩ := hf s.supply a _ hle₃ (Set.mem_insert _ _) s₂ b s' hs₃ hrun
  exact ⟨w', hle₃.trans hle', hs', hb⟩

/-- A text is made, or a reference to what has begun. -/
theorem makes_scalar {tag : Tag} {text : List Char} {f : Node → Build β}
    (htag : tag.bound ≤ w.supply) (hf : ∀ n w', w ≤ w' → n ∈ w'.nodes → Makes w' (f n) Q) :
    Makes w (fresh >>= fun id => f (.scalar id tag text)) Q := by
  have hnode := @makes_node Unit β lo w (fun w' _ => tag.bound ≤ w'.supply) Q (fun _ => pure ())
    (fun id _ => .scalar id tag text) (fun id _ => f (.scalar id tag text))
    (fun _ w' hle _ => makes_pure (htag.trans hle.supply))
    (fun id w' _ hlo hhi htag => ⟨rfl, .scalar hlo hhi htag, trivial⟩)
    fun id _ w' hle hn => hf _ w' hle hn
  exact hnode

/-! ### The parts of a node -/

theorem makes_anchor : Makes w anchor? Any := by
  refine makes_peek.next fun t w' _ => ?_
  split
  · exact makes_pop.next fun _ _ _ => makes_any _
  · exact makes_any _

theorem makes_tag : Makes w tag? Any := by
  refine makes_peek.next fun t w' _ => ?_
  split
  · exact makes_pop.next fun _ _ _ => makes_any _
  · exact makes_any _

theorem makes_resolveTag (handle : Option String) (suffix : String) :
    Makes w (resolveTag handle suffix) Any := by
  unfold resolveTag
  split
  · exact makes_any _
  · refine makes_get.next fun s w' _ => ?_
    split
    · exact makes_any _
    · exact makes_malformed

theorem makes_properties : Makes w properties Any := by
  refine makes_anchor.next fun anchor _ _ => makes_tag.next fun tag w' _ => ?_
  have hpure : ∀ (uri anchor : Option String) (w' : Register lo), Makes w'
      (pure uri >>= fun uri => pure ⟨anchor, uri⟩ : Build Properties) Any :=
    fun _ _ _ => (makes_any _).next fun _ _ _ => makes_any _
  have hresolve : ∀ handle suffix (anchor : Option String) (w' : Register lo), Makes w'
      (some <$> resolveTag handle suffix >>= fun uri => pure ⟨anchor, uri⟩ : Build Properties) Any :=
    fun _ _ _ _ => ((makes_resolveTag _ _).map _).next fun _ _ _ => makes_any _
  -- a second anchor is looked for behind a tag only, if there was none before it
  split
  · dsimp only
    split
    · exact makes_anchor.next fun _ _ _ => hpure _ _ _
    · exact (makes_any _).next fun _ _ _ => hpure _ _ _
  · dsimp only
    split
    · exact makes_anchor.next fun _ _ _ => hresolve _ _ _ _
    · exact (makes_any _).next fun _ _ _ => hresolve _ _ _ _

theorem makes_anchored (name : String) {n : Node} (hn : n ∈ w.nodes) :
    Makes w (modify fun s => { s with anchored := (name, n) :: s.anchored }) Any := by
  intro s a s' hs hrun
  obtain ⟨-, rfl⟩ := Prod.mk.inj (Except.ok.inj hrun)
  exact ⟨w, le_rfl, ⟨hs.supply, List.forall_mem_cons.2 ⟨hn, hs.anchored⟩, hs.begun⟩, trivial⟩

theorem makes_checkAnchor (p : Properties) : Makes w (checkAnchor p) Any := by
  unfold checkAnchor
  split
  · exact makes_any _
  · refine makes_get.next fun s w' _ => ?_
    split
    · exact makes_malformed
    · exact makes_any _

/-- An anchored node is remembered. -/
theorem makes_remember (p : Properties) {n : Node} (hn : n ∈ w.nodes) :
    Makes w (remember p n) Made := by
  unfold remember
  split
  · exact makes_pure hn
  · rename_i name _
    exact (makes_anchored name hn).next fun _ w' hle => makes_pure (w.mem_of_le hle hn)

/-- What begins is remembered. -/
theorem makes_note (p : Properties) {id : ObjectId} (isList : Bool) (hid : id < w.supply) :
    Makes w (note p id isList) Any := by
  unfold note
  split
  · exact makes_any _
  · intro s a s' hs hrun
    obtain ⟨-, rfl⟩ := Prod.mk.inj (Except.ok.inj hrun)
    exact ⟨w, le_rfl, ⟨hs.supply, hs.anchored, List.forall_mem_cons.2 ⟨hid, hs.begun⟩⟩, trivial⟩

theorem makes_absent : Makes w absent Made :=
  makes_scalar (Nat.zero_le _) fun _ _ _ hn => makes_pure hn

theorem bound_tagOr (p : Properties) {usual : Tag} (h : usual.bound = 0) :
    (p.tagOr usual).bound = 0 := by
  unfold Properties.tagOr
  split
  · exact h
  · cases p.uri with
    | none => exact h
    | some uri => exact Tag.bound_ofUri uri

theorem bound_scalarTag (p : Properties) (text : List Char) (plain : Bool) :
    (p.scalarTag text plain).bound = 0 := by
  refine bound_tagOr p ?_
  split
  · exact Tag.bound_implied text
  · rfl

theorem makes_sequenceOf {p : Properties} {items : Build (List Node)}
    (h : ∀ w : Register lo, Makes w items MadeItems) :
    Makes w (do let id ← begin p true; sequence p id (← items)) Made := by
  -- items and identities of pairs are made before the sequence
  have hassoc : (do let id ← begin p true; sequence p id (← items)) = (fresh >>= fun id =>
      (note p id true >>= fun _ => items >>= fun ns =>
        reserve ns.length >>= fun pairId => pure (pairId, ns)) >>= fun x =>
        remember p (.seq id (p.tagOr .seq) x.1 x.2)) := by
    simp only [begin, bind_assoc, pure_bind]
    rfl
  rw [hassoc]
  refine @makes_node _ _ lo w (fun w x => x.1 + x.2.length ≤ w.supply ∧ MadeItems w x.2) _ _
    (fun id x => .seq id (p.tagOr .seq) x.1 x.2) _ ?_ ?_ ?_
  · intro id w' _ hid
    refine (makes_note p true hid).next fun _ w₁ _ => (h w₁).bind fun ns w₂ _ hns =>
      (makes_reserve ns.length).bind fun pairId w₃ hle hpair => ?_
    exact makes_pure ⟨hpair, fun n hn => w₂.mem_of_le hle (hns n hn)⟩
  · intro id w' x hlo hhi hx
    exact ⟨rfl, .seq hlo hhi hx.1 fun n hn => w'.within n (hx.2 n hn), hx.2⟩
  · exact fun id x w' _ hn => makes_remember p hn

theorem within_map {id : ObjectId} {tag : Tag} {es : List (Node × Node)} (hlo : lo ≤ id)
    (hhi : id < w.supply) (htag : tag.bound = 0) (hes : MadeEntries w es) :
    (Node.map id tag es).Within lo w.supply :=
  .map hlo hhi (le_of_eq_of_le htag (Nat.zero_le _)) (fun e he => w.within _ (hes e he).1)
    fun e he => w.within _ (hes e he).2

theorem makes_mappingOf {p : Properties} {es : Build (List (Node × Node))}
    (h : ∀ w : Register lo, Makes w es MadeEntries) :
    Makes w (do let id ← begin p false; mapping p id (← es)) Made := by
  have hassoc : (do let id ← begin p false; mapping p id (← es)) = (fresh >>= fun id =>
      (note p id false >>= fun _ => es) >>= fun es =>
        remember p (.map id (p.tagOr .map) es)) := by
    simp only [begin, bind_assoc, pure_bind]
    rfl
  rw [hassoc]
  exact makes_node
    (fun id w' _ hid => (makes_note p false hid).next fun _ w₁ _ => h w₁)
    (fun _ _ _ hlo hhi hes => ⟨rfl, within_map hlo hhi (bound_tagOr p rfl) hes, hes⟩)
    fun _ _ _ _ hn => makes_remember p hn

/-! ### Nodes -/

/-- What is made with a bound on the depth. -/
structure MakesAll (lo : ℕ) (fuel : ℕ) : Prop where
  node : ∀ (w : Register lo) block flush, Makes w (node block flush fuel) Made
  blockItems : ∀ w : Register lo, Makes w (blockItems fuel) MadeItems
  flushItems : ∀ w : Register lo, Makes w (flushItems fuel) MadeItems
  blockEntries : ∀ w : Register lo, Makes w (blockEntries fuel) MadeEntries
  flowEntry : ∀ (w : Register lo) closing, Makes w (flowEntry closing fuel) MadeEntry
  flowItems : ∀ (w : Register lo) first, Makes w (flowItems first fuel) MadeItems
  flowEntries : ∀ (w : Register lo) first, Makes w (flowEntries first fuel) MadeEntries

variable {fuel : ℕ}

theorem makesAll_zero (lo : ℕ) : MakesAll lo 0 where
  node _ _ _ := makes_malformed
  blockItems _ := makes_malformed
  flushItems _ := makes_malformed
  blockEntries _ := makes_malformed
  flowEntry _ _ := makes_malformed
  flowItems _ _ := makes_malformed
  flowEntries _ _ := makes_malformed

theorem madeItems_nil : MadeItems w [] := fun _ h => absurd h List.not_mem_nil

theorem madeEntries_nil : MadeEntries w [] := fun _ h => absurd h List.not_mem_nil

theorem makes_cons {n : Node} {ns : Build (List Node)} (hn : n ∈ w.nodes)
    (hns : ∀ w : Register lo, Makes w ns MadeItems) :
    Makes w (do return n :: (← ns)) MadeItems :=
  (hns w).bind fun _ _ hle hns => makes_pure (List.forall_mem_cons.2 ⟨w.mem_of_le hle hn, hns⟩)

theorem makes_consEntry {k v : Node} {es : Build (List (Node × Node))} (hk : k ∈ w.nodes)
    (hv : v ∈ w.nodes) (hes : ∀ w : Register lo, Makes w es MadeEntries) :
    Makes w (do return (k, v) :: (← es)) MadeEntries :=
  (hes w).bind fun _ _ hle hes =>
    makes_pure (List.forall_mem_cons.2 ⟨⟨w.mem_of_le hle hk, w.mem_of_le hle hv⟩, hes⟩)

/-- A node that is absent or comes next. -/
theorem MakesAll.absentOr {c : Bool} {block flush : Bool} {f : Node → Build β}
    (h : MakesAll lo fuel)
    (hf : ∀ n w', w ≤ w' → n ∈ w'.nodes → Makes w' (f n) Q) :
    Makes w (if c then absent >>= f else Build.node block flush fuel >>= f) Q := by
  split
  · exact makes_absent.bind hf
  · exact (h.node w block flush).bind hf

theorem MakesAll.blockItems_succ (h : MakesAll lo fuel) (w : Register lo) :
    Makes w (Build.blockItems (fuel + 1)) MadeItems := by
  unfold Build.blockItems
  refine makes_peek.next fun t w' _ => ?_
  split
  · refine makes_pop.next fun _ _ _ => makes_peek.next fun t w' _ => ?_
    exact h.absentOr fun n _ _ hn => makes_cons hn h.blockItems
  · exact makes_pop.next fun _ _ _ => makes_pure madeItems_nil
  · exact makes_malformed

theorem MakesAll.flushItems_succ (h : MakesAll lo fuel) (w : Register lo) :
    Makes w (Build.flushItems (fuel + 1)) MadeItems := by
  unfold Build.flushItems
  refine makes_peek.next fun t w' _ => ?_
  split
  · refine makes_pop.next fun _ _ _ => makes_peek.next fun t w' _ => ?_
    exact h.absentOr fun n _ _ hn => makes_cons hn h.flushItems
  · exact makes_pure madeItems_nil

theorem MakesAll.blockEntries_succ (h : MakesAll lo fuel) (w : Register lo) :
    Makes w (Build.blockEntries (fuel + 1)) MadeEntries := by
  unfold Build.blockEntries
  refine makes_peek.next fun t w' _ => ?_
  split
  · refine makes_pop.next fun _ _ _ => makes_peek.next fun t w' _ => ?_
    -- the key was made earlier, and the register has gone on while its value was made
    refine h.absentOr fun k w₁ _ hk => makes_peek.next fun t w₂ hle₂ => ?_
    dsimp only
    split
    · refine makes_pop.next fun _ w₃ hle₃ => makes_peek.next fun t w₄ hle₄ => ?_
      exact h.absentOr fun v w₅ hle₅ hv => makes_consEntry
        (w₁.mem_of_le (hle₂.trans (hle₃.trans (hle₄.trans hle₅))) hk) hv h.blockEntries
    · exact makes_absent.bind fun v w₃ hle₃ hv =>
        makes_consEntry (w₁.mem_of_le (hle₂.trans hle₃) hk) hv h.blockEntries
  · exact makes_pop.next fun _ _ _ => makes_pure madeEntries_nil
  · exact makes_malformed

theorem MakesAll.flowEntry_succ (h : MakesAll lo fuel) (w : Register lo) (closing : Token) :
    Makes w (Build.flowEntry closing (fuel + 1)) MadeEntry := by
  unfold Build.flowEntry
  refine makes_pop.next fun _ _ _ => makes_peek.next fun t w' _ => ?_
  refine h.absentOr fun k w₁ _ hk => makes_peek.next fun t w₂ hle₂ => ?_
  dsimp only
  split
  · refine makes_pop.next fun _ w₃ hle₃ => makes_peek.next fun t w₄ hle₄ => ?_
    exact h.absentOr fun v w₅ hle₅ hv => makes_pure
      ⟨w₁.mem_of_le (hle₂.trans (hle₃.trans (hle₄.trans hle₅))) hk, hv⟩
  · exact makes_absent.bind fun v w₃ hle₃ hv =>
      makes_pure ⟨w₁.mem_of_le (hle₂.trans hle₃) hk, hv⟩

/-- The separator before the items in brackets, except before the first one. -/
theorem makes_separated {first : Bool} {t : Token} (hm : ∀ w', Makes w' m P) :
    Makes w (if !first then if t == .flowEntry then pop >>= fun _ => m
      else (malformed : Build Unit) >>= fun _ => m else m) P := by
  split
  · split
    · exact makes_pop.next fun _ _ _ => hm _
    · exact makes_malformed_bind
  · exact hm _

theorem MakesAll.flowItems_succ (h : MakesAll lo fuel) (w : Register lo) (first : Bool) :
    Makes w (Build.flowItems first (fuel + 1)) MadeItems := by
  unfold Build.flowItems
  refine makes_peek.next fun t w' _ => ?_
  dsimp only
  split
  · exact makes_pop.next fun _ _ _ => makes_pure madeItems_nil
  · refine makes_separated fun _ => makes_peek.next fun t w' _ => ?_
    split
    · -- a key and its value are a map of one entry
      refine makes_node (fun _ w₁ _ _ => h.flowEntry w₁ _) (fun id w₁ e hlo hhi he => ?_)
        fun id e w₁ _ hn => makes_cons hn fun w => h.flowItems w false
      have hes : MadeEntries w₁ [e] := List.forall_mem_singleton.2 he
      exact ⟨rfl, within_map hlo hhi rfl hes, hes⟩
    · split
      · exact makes_pop.next fun _ _ _ => makes_pure madeItems_nil
      · exact (h.node _ _ _).bind fun n _ _ hn => makes_cons hn fun w => h.flowItems w false

theorem MakesAll.flowEntries_succ (h : MakesAll lo fuel) (w : Register lo) (first : Bool) :
    Makes w (Build.flowEntries first (fuel + 1)) MadeEntries := by
  unfold Build.flowEntries
  refine makes_peek.next fun t w' _ => ?_
  dsimp only
  split
  · exact makes_pop.next fun _ _ _ => makes_pure madeEntries_nil
  · refine makes_separated fun _ => makes_peek.next fun t w' _ => ?_
    split
    · exact (h.flowEntry _ _).bind fun e _ _ he =>
        makes_consEntry he.1 he.2 fun w => h.flowEntries w false
    · split
      · exact makes_pop.next fun _ _ _ => makes_pure madeEntries_nil
      · exact (h.node _ _ _).bind fun k w₁ _ hk => makes_absent.bind fun v _ hle hv =>
          makes_consEntry (w₁.mem_of_le hle hk) hv fun w => h.flowEntries w false

theorem mem_of_lookup {γ : Type} {name : String} {a : γ} {es : List (String × γ)}
    (h : es.lookup name = some a) : (name, a) ∈ es := by
  obtain ⟨l, r, rfl, -⟩ := List.lookup_eq_some_iff.1 h
  simp

/-- An alias stands for a node that was made in this document, or refers to what has begun. -/
theorem makes_aliased (name : String) : Makes w (aliased name) Made := by
  refine makes_get.bind fun s w' _ hs => ?_
  split
  · rename_i n hn
    exact makes_pure (hs.anchored _ (mem_of_lookup hn))
  · split
    · rename_i id isList hid
      exact makes_scalar (hs.begun _ (mem_of_lookup hid)) fun _ _ _ hn => makes_pure hn
    · exact makes_malformed

theorem MakesAll.node_succ (h : MakesAll lo fuel) (w : Register lo) (block flush : Bool) :
    Makes w (Build.node block flush (fuel + 1)) Made := by
  unfold Build.node
  refine makes_peek.next fun t w' _ => ?_
  split
  · exact makes_pop.next fun _ _ _ => makes_aliased _
  · refine makes_properties.next fun p w' _ => (makes_checkAnchor p).next fun _ w' _ =>
      makes_peek.next fun t w' _ => ?_
    dsimp only
    split
    · exact makes_sequenceOf h.flushItems
    · split
      · exact makes_pop.next fun _ _ _ => makes_scalar
          (le_of_eq_of_le (bound_scalarTag p _ _) (Nat.zero_le _)) fun _ _ _ hn => makes_remember p hn
      · exact makes_pop.next fun _ _ _ => makes_sequenceOf fun w => h.flowItems w true
      · exact makes_pop.next fun _ _ _ => makes_mappingOf fun w => h.flowEntries w true
      · split
        · exact makes_malformed_bind
        · exact makes_pop.next fun _ _ _ => makes_sequenceOf h.blockItems
      · split
        · exact makes_malformed_bind
        · exact makes_pop.next fun _ _ _ => makes_mappingOf h.blockEntries
      · split
        · exact makes_scalar (le_of_eq_of_le (bound_tagOr p rfl) (Nat.zero_le _))
            fun _ _ _ hn => makes_remember p hn
        · exact makes_malformed

theorem makesAll (lo fuel : ℕ) : MakesAll lo fuel := by
  induction fuel with
  | zero => exact makesAll_zero lo
  | succ fuel ih => exact {
      node := ih.node_succ
      blockItems := ih.blockItems_succ
      flushItems := ih.flushItems_succ
      blockEntries := ih.blockEntries_succ
      flowEntry := ih.flowEntry_succ
      flowItems := ih.flowItems_succ
      flowEntries := ih.flowEntries_succ }

/-! ### Documents -/

theorem makes_directives (d : Declared) (fuel : ℕ) : Makes w (directives d fuel) Any := by
  induction fuel generalizing d w with
  | zero => exact makes_any _
  | succ fuel ih =>
    unfold directives
    refine makes_peek.next fun t w' _ => ?_
    split
    · refine makes_pop.next fun _ _ _ => ?_
      dsimp only
      split
      · exact makes_malformed_bind
      · exact ih _
    · refine makes_pop.next fun _ _ _ => ?_
      dsimp only
      split
      · exact makes_malformed_bind
      · exact ih _
    · exact makes_pop.next fun _ _ _ => ih _
    · exact makes_any _

theorem makes_skipEnds (fuel : ℕ) : Makes w (skipEnds fuel) Any := by
  induction fuel generalizing w with
  | zero => exact makes_any _
  | succ fuel ih =>
    unfold skipEnds
    refine makes_peek.next fun t w' _ => ?_
    split
    · exact makes_pop.next fun _ _ _ => ih
    · exact makes_any _

theorem makes_beginDocument (handles : List (String × String)) :
    Makes w (beginDocument handles) Any := by
  intro s a s' hs hrun
  obtain ⟨-, rfl⟩ := Prod.mk.inj (Except.ok.inj hrun)
  -- anchors of the document before are forgotten
  exact ⟨w, le_rfl, ⟨hs.supply, fun p hp => absurd hp List.not_mem_nil,
    fun p hp => absurd hp List.not_mem_nil⟩, trivial⟩

theorem makes_endDocument {n : Node} (hn : n ∈ w.nodes) :
    Makes w (endDocument n) fun w' n => ∀ m ∈ n, m ∈ w'.nodes := by
  refine makes_peek.next fun t w₁ hle => ?_
  dsimp only
  split
  · refine makes_pop.next fun _ w₂ hle' => makes_pure fun m hm => ?_
    obtain rfl := Option.mem_some.1 hm
    exact w.mem_of_le (hle.trans hle') hn
  · refine makes_pure fun m hm => ?_
    obtain rfl := Option.mem_some.1 hm
    exact w.mem_of_le hle hn

/-- The nodes of documents are registered. -/
theorem makes_document (first : Bool) :
    Makes w (document? first) fun w' n => ∀ m ∈ n, m ∈ w'.nodes := by
  unfold document?
  refine makes_get.next fun s _ _ => makes_peek.next fun t w' _ => ?_
  dsimp only
  split
  · refine (makes_beginDocument _).next fun _ w' _ => ?_
    exact ((makesAll lo _).node w' true false).bind fun n _ _ hn => makes_endDocument hn
  · refine (makes_skipEnds _).next fun _ _ _ => makes_peek.next fun t w' _ => ?_
    split
    · exact makes_pure fun m hm => nomatch hm
    · refine (makes_directives _ _).next fun declared _ _ => makes_peek.next fun t w' _ => ?_
      split
      · exact makes_malformed_bind
      · refine makes_pop.next fun _ _ _ => (makes_beginDocument _).next fun _ _ _ =>
          makes_peek.next fun t w' _ => ?_
        exact (makesAll lo _).absentOr fun n _ _ hn => makes_endDocument hn

end Build

end ScopedFn.Yaml
