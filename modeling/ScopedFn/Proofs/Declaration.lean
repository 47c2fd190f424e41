import ScopedFn.Proofs.Declaration.Reading

/-!
# Which resources can be classified

Whether a resource declares a function is looked for in one place after the other. A text that is
no document declares nothing, and the search goes on. Two things end it with a fault, unless a sound
declaration was found before: a text that is a document, but with a scalar that has the form of a
number or a day and denotes none; and a declaration with a field that is given as no text. One such
resource leaves a whole list unclassified. Nothing is said of texts whose meaning is not followed.

* `FunctionSpec.exists_firstOf?_iff` : what ends a search with a fault;
* `exists_functionSpec?_iff` : which resources can be classified;
* `classified_iff` : which lists can be split into functions and others.
-/

set_option autoImplicit false

namespace ScopedFn

/-! ### The search for a declaration -/

namespace FunctionSpec

/-- A search that comes to the value ends with a fault. -/
def Obstructs (v : Value) : Prop := IsSenseless v ∨ SaysWithheld v

/-- Before each value that obstructs the search stands a sound declaration. -/
def IsClear (vs : List Value) : Prop :=
  ∀ before v after, vs = before ++ v :: after → Obstructs v → ∃ w ∈ before, SaysSound w

variable {v : Value} {vs : List Value}

theorem ofSource?_eq_error_iff (hfollowed : IsFollowed v) :
    (∃ e, ofSource? v = .error e) ↔ Obstructs v := by
  have hcomes := comes_ofSource? hfollowed
  generalize ofSource? v = found at hcomes
  cases hcomes with
  | senseless fault h => exact iff_of_true ⟨_, rfl⟩ (.inl h)
  | withheld cause h => exact iff_of_true ⟨_, rfl⟩ (.inr h)
  | sound hgiven h => exact iff_of_false nofun (not_or.2 ⟨h.not_isSenseless, hgiven⟩)
  | useless hsense hgiven => exact iff_of_false nofun (not_or.2 ⟨hsense, hgiven⟩)

theorem exists_ofSource?_iff {found : Option FunctionSpec} (h : ofSource? v = .ok found) :
    (∃ spec, ofSource? v = .ok (some spec)) ↔ SaysSound v := by
  have hcomes := comes_ofSource? (isFollowed_of_ofSource? h)
  rw [h] at hcomes ⊢
  cases hcomes with
  | sound _ hsound => exact iff_of_true ⟨_, rfl⟩ hsound
  | useless _ _ hsound => exact iff_of_false nofun hsound

theorem isClear_cons : IsClear (v :: vs) ↔ ¬Obstructs v ∧ (SaysSound v ∨ IsClear vs) := by
  constructor
  · intro h
    refine ⟨fun hv => ?_, or_iff_not_imp_left.2 fun hsound before w after hvs hw => ?_⟩
    · obtain ⟨w, hw, -⟩ := h [] v vs rfl hv
      cases hw
    · obtain ⟨u, hu, husable⟩ := h (v :: before) w after (hvs ▸ rfl) hw
      rcases List.mem_cons.1 hu with rfl | hu
      · exact absurd husable hsound
      · exact ⟨u, hu, husable⟩
  · rintro ⟨hv, hrest⟩ before w after hvs hw
    cases before with
    | nil =>
      obtain ⟨rfl, -⟩ := List.cons.inj hvs
      exact absurd hw hv
    | cons u before =>
      obtain ⟨rfl, hafter⟩ := List.cons.inj hvs
      rcases hrest with hsound | hclear
      · exact ⟨v, List.mem_cons_self, hsound⟩
      · obtain ⟨u, hu, hsound⟩ := hclear before w after hafter hw
        exact ⟨u, List.mem_cons_of_mem _ hu, hsound⟩

/-- A search ends without a fault iff nothing obstructs it before a sound declaration. -/
theorem exists_firstOf?_iff (hfollowed : ∀ v ∈ vs, IsFollowed v) :
    (∃ spec?, firstOf? vs = .ok spec?) ↔ IsClear vs := by
  induction vs with
  | nil => exact iff_of_true ⟨none, rfl⟩ fun before v after h => by simp at h
  | cons v vs ih =>
    obtain ⟨hv, hvs⟩ := List.forall_mem_cons.1 hfollowed
    rw [isClear_cons, ← ih hvs, ← ofSource?_eq_error_iff hv, firstOf?]
    cases hread : ofSource? v with
    | error e => simp [bind, Except.bind]
    | ok spec? =>
      have hsound := exists_ofSource?_iff hread
      rw [← hsound, hread]
      cases spec? with
      | none => simp [bind, Except.bind]
      | some spec => simp [bind, Except.bind, pure, Except.pure]

end FunctionSpec

/-! ### The classification of a resource -/

/-- The places where a declaration is looked for, by precedence. -/
def candidates (r : Resource) (m : Meta) : List Value :=
  (functionKeys.map fun key => ((m.annotations.get? key).map Value.text).getD .null) ++
    [r.field ["metadata", "configFn"]]

/-- It can be told what the declarations of the resource say, if its metadata can be read. -/
def AreFollowed (r : Resource) : Prop :=
  ∀ m, r.getMeta = .ok m → ∀ v ∈ candidates r m, FunctionSpec.IsFollowed v

/-- No part of the metadata is given as no text, and nothing obstructs the search before a sound
declaration of the resource, if its metadata can be read. -/
structure IsClassifiable (r : Resource) : Prop where
  /-- The metadata is given as texts. -/
  given : ∀ cause, r.getMeta ≠ .error (.noText cause)
  /-- The search is not obstructed. -/
  clear : ∀ m, r.getMeta = .ok m → FunctionSpec.IsClear (candidates r m)

theorem functionSpec?_eq {r : Resource} {m : Meta} (h : r.getMeta = .ok m) :
    functionSpec? r = (FunctionSpec.firstOf? (candidates r m)).map (·.or (imageSpec? m)) := by
  rw [functionSpec?, h, candidates]
  dsimp only
  generalize FunctionSpec.firstOf? _ = found
  rcases found with fault | spec? | spec <;> rfl

/-- A resource can be classified iff the search through its declarations ends without a fault. -/
theorem exists_functionSpec?_iff {r : Resource} (hfollowed : AreFollowed r) :
    (∃ spec?, functionSpec? r = .ok spec?) ↔ IsClassifiable r := by
  cases h : r.getMeta with
  | error cause =>
    cases cause with
    | fault fault =>
      have hnone : functionSpec? r = .ok none := by rw [functionSpec?, h]
      exact iff_of_true ⟨none, hnone⟩ ⟨by simp [h], by simp [h]⟩
    | noText cause =>
      have hnone : functionSpec? r = .error (.noText cause) := by rw [functionSpec?, h]
      exact iff_of_false (by simp [hnone]) fun hr => hr.given cause h
  | ok m =>
    have hclear : IsClassifiable r ↔ FunctionSpec.IsClear (candidates r m) :=
      ⟨fun hr => hr.clear m h, fun hclear => ⟨by simp [h], by simpa [h] using hclear⟩⟩
    rw [functionSpec?_eq h, hclear, ← FunctionSpec.exists_firstOf?_iff (hfollowed m h)]
    cases FunctionSpec.firstOf? (candidates r m) <;> simp [Except.map]

/-! ### The classification of a list -/

/-- The resource is found to declare a function. -/
def isFunction (r : Resource) : Bool := (declaresFunction r).toOption.getD false

/-- What is promised of a list of resources: each of them is classified, and the functions and the
others each are those members of the list, in its order. -/
structure Classified (rs : List Resource) : Prop where
  /-- The search for a declaration succeeds. -/
  spec : ∀ r ∈ rs, ∃ spec?, functionSpec? r = .ok spec?
  /-- It is told which resources declare functions. -/
  declares : ∀ r ∈ rs, declaresFunction r = .ok (isFunction r)
  /-- The functions are kept. -/
  functions : Selection.keep ⟨true, false⟩ rs = .ok (rs.filter isFunction)
  /-- The others are kept. -/
  others : Selection.keep ⟨false, true⟩ rs = .ok (rs.filter fun r => !isFunction r)

variable {rs : List Resource}

theorem declaresFunction_eq {r : Resource} (h : ∃ spec?, functionSpec? r = .ok spec?) :
    declaresFunction r = .ok (isFunction r) := by
  obtain ⟨spec?, hspec⟩ := h
  rw [isFunction, declaresFunction, hspec]
  rfl

/-- A selection of resources that are classified keeps those that it names. -/
theorem keep_eq_filter (s : Selection) (h : ∀ r ∈ rs, ∃ spec?, functionSpec? r = .ok spec?) :
    s.keep rs = .ok (rs.filter fun r => if isFunction r then s.functions else s.others) := by
  induction rs with
  | nil => rfl
  | cons r rs ih =>
    obtain ⟨hr, hrs⟩ := List.forall_mem_cons.1 h
    rw [Selection.keep, declaresFunction_eq hr, ih hrs, List.filter_cons]
    rfl

theorem classified_of_told (h : ∀ r ∈ rs, ∃ spec?, functionSpec? r = .ok spec?) : Classified rs where
  spec := h
  declares r hr := declaresFunction_eq (h r hr)
  functions := by
    rw [keep_eq_filter _ h]
    refine congrArg _ (List.filter_congr fun r _ => ?_)
    cases isFunction r <;> rfl
  others := by
    rw [keep_eq_filter _ h]
    refine congrArg _ (List.filter_congr fun r _ => ?_)
    cases isFunction r <;> rfl

/-- One resource that cannot be classified leaves nothing of any selection. -/
theorem told_of_keep {s : Selection} {kept : List Resource} (h : s.keep rs = .ok kept) :
    ∀ r ∈ rs, ∃ spec?, functionSpec? r = .ok spec? := by
  induction rs generalizing kept with
  | nil => exact nofun
  | cons r rs ih =>
    rw [Selection.keep] at h
    obtain ⟨b, hb, h⟩ := Result.ok_of_bind h
    obtain ⟨rest, hrest, -⟩ := Result.ok_of_bind h
    obtain ⟨spec?, hspec, -⟩ := Result.ok_of_map hb
    exact List.forall_mem_cons.2 ⟨⟨spec?, hspec⟩, ih hrest⟩

/-- **The lists that can be split into functions and others**, where it can be told what their
declarations say: those without an obstacle in the way of any of their members. Any selection from
another list fails. -/
theorem classified_iff (rs : List Resource) (hfollowed : ∀ r ∈ rs, AreFollowed r) :
    (Classified rs ↔ ∀ r ∈ rs, IsClassifiable r) ∧
      ∀ (s : Selection) (kept : List Resource), s.keep rs = .ok kept → Classified rs := by
  have htold : (∀ r ∈ rs, ∃ spec?, functionSpec? r = .ok spec?) ↔ ∀ r ∈ rs, IsClassifiable r :=
    forall₂_congr fun r hr => exists_functionSpec?_iff (hfollowed r hr)
  rw [← htold]
  exact ⟨⟨Classified.spec, classified_of_told⟩, fun _ _ h => classified_of_told (told_of_keep h)⟩

/-- A resource with a text under the key for declarations. -/
def declaring (text : String) : Resource :=
  ⟨1, [(.text "metadata", .map 2 [(.text "annotations",
    .map 3 [(.text "config.kubernetes.io/function", .text text)])])]⟩

theorem candidates_declaring (text : String) :
    (declaring text).getMeta.toOption.map (candidates (declaring text)) =
      some [.text text, .null, .null] := rfl

theorem areFollowed_declaring {text : String} (h : FunctionSpec.document text ≠ .error .unfollowed) :
    AreFollowed (declaring text) := by
  intro m hm v hv s hs
  have hplaces := candidates_declaring text
  rw [hm] at hplaces
  rw [Option.some.inj hplaces] at hv
  subst hs
  simp only [List.mem_cons, List.not_mem_nil, or_false, Value.atom.injEq, Atom.text.injEq,
    reduceCtorEq] at hv
  rwa [hv]

/-- A text that is no document is passed over. -/
theorem classified_unclosed :
    Classified [declaring "container: [unclosed", declaring "exec: \x7bpath: /bin/fn\x7d"] := by
  have hunclosed : functionSpec? (declaring "container: [unclosed") = .ok none := by decide +kernel
  have hsound : functionSpec? (declaring "exec: \x7bpath: /bin/fn\x7d") =
      .ok (some ⟨none, "/bin/fn"⟩) := by decide +kernel
  have hfollowed : ∀ r ∈ [declaring "container: [unclosed", declaring "exec: \x7bpath: /bin/fn\x7d"],
      AreFollowed r := by
    refine List.forall_mem_cons.2 ⟨areFollowed_declaring (by decide +kernel), ?_⟩
    exact List.forall_mem_singleton.2 (areFollowed_declaring (by decide +kernel))
  refine (classified_iff _ hfollowed).1.2 fun r hr => (exists_functionSpec?_iff (hfollowed r hr)).1 ?_
  simp only [List.mem_cons, List.not_mem_nil, or_false] at hr
  rcases hr with rfl | rfl
  · exact ⟨_, hunclosed⟩
  · exact ⟨_, hsound⟩

/-- A day that does not exist, in the place of a declaration, leaves a whole list unclassified. -/
theorem not_classified_of_noSuchDay :
    functionSpec? (declaring "2020-13-45") = .error (.fault .noSuchTime) ∧
      ¬Classified [declaring "exec: \x7bpath: /bin/fn\x7d", declaring "2020-13-45"] ∧
      ∀ s : Selection, ∀ kept,
        s.keep [declaring "exec: \x7bpath: /bin/fn\x7d", declaring "2020-13-45"] ≠ .ok kept := by
  have hspec : functionSpec? (declaring "2020-13-45") = .error (.fault .noSuchTime) := by decide +kernel
  have hnot : ¬∃ spec?, functionSpec? (declaring "2020-13-45") = .ok spec? := by
    rw [hspec]
    exact nofun
  have hmem : declaring "2020-13-45" ∈
      [declaring "exec: \x7bpath: /bin/fn\x7d", declaring "2020-13-45"] := by simp
  exact ⟨hspec, fun h => hnot (h.spec _ hmem), fun s kept h => hnot (told_of_keep h _ hmem)⟩

end ScopedFn
