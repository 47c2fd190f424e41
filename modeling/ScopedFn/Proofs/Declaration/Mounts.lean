import ScopedFn.Invocation
import ScopedFn.Proofs.Declaration
import ScopedFn.Proofs.Declaration.Sources
import ScopedFn.Proofs.Mount

/-!
# The mounts of a declared function

The mounts of a function come from maps in its declaration, and their texts are handed over to the
container as they are. Fields of a map may hold what the fields of a text cannot, the separator of
options, and then the container is told something else than was declared.

* `exists_ofValue_of_ofResource` : where the mounts of a described function come from;
* `Invoker.mount_infix` : what the container is told of each mount;
* `rendered_as_declared` : which mounts the container is told as they were declared;
* `mark_lost` : a declaration whose mount is not told as read-only.
-/

set_option autoImplicit false

namespace ScopedFn

variable {v : Value} {mounts : List Mount} {m : Mount} {spec : FunctionSpec} {c : ContainerSpec}
  {r : Resource} {d : Descriptor}

namespace FunctionSpec

theorem exists_ofValue_of_mounts? (h : mounts? v = .ok mounts) (hm : m ∈ mounts) :
    ∃ id es, Mount.ofValue (.map id es) = .ok m := by
  have hitems : ∀ items : List Value, items.mapM Mount.ofValue = .ok mounts →
      ∃ id es, Mount.ofValue (.map id es) = .ok m := by
    intro items hitems
    obtain ⟨item, -, hread⟩ := Result.exists_of_mem_left (Result.forall₂_of_mapM hitems).flip hm
    cases item with
    | map id es => exact ⟨id, es, hread⟩
    | _ => cases hread
  unfold mounts? at h
  split_ifs at h
  · split at h
    · exact hitems _ h
    · exact hitems _ h
    · cases h
  · obtain rfl := Except.ok.inj h
    cases hm

theorem exists_ofValue_of_container? (h : container? v = .ok (some c)) (hm : m ∈ c.mounts) :
    ∃ id es, Mount.ofValue (.map id es) = .ok m := by
  cases v with
  | map id es =>
    rw [container?] at h
    obtain ⟨image, -, h⟩ := Result.ok_of_bind h
    obtain ⟨mounts, hmounts, h⟩ := Result.ok_of_bind h
    obtain rfl := Option.some.inj (Except.ok.inj h)
    exact exists_ofValue_of_mounts? hmounts hm
  | _ => cases h

theorem exists_ofValue_of_ofValue? (h : ofValue? v = .ok (some spec)) (hc : spec.container = some c)
    (hm : m ∈ c.mounts) : ∃ id es, Mount.ofValue (.map id es) = .ok m := by
  cases v with
  | map id es =>
    rw [ofValue?] at h
    cases hcontainer : container? (MapEntries.get es "container") with
    | error e =>
      rw [hcontainer] at h
      cases e <;> cases h
    | ok container =>
      rw [hcontainer] at h
      obtain ⟨path, -, h⟩ := Result.ok_of_bind h
      dsimp only at h
      split_ifs at h
      · obtain rfl := Option.some.inj (Except.ok.inj h)
        obtain rfl : container = some c := hc
        exact exists_ofValue_of_container? hcontainer hm
      · cases h
  | _ => cases h

theorem exists_ofValue_of_ofSource? (h : ofSource? v = .ok (some spec)) (hc : spec.container = some c)
    (hm : m ∈ c.mounts) : ∃ id es, Mount.ofValue (.map id es) = .ok m := by
  unfold ofSource? at h
  split at h
  · split_ifs at h
    · cases h
    · split at h
      · exact exists_ofValue_of_ofValue? (Result.mapError_ok_iff.1 h) hc hm
      all_goals cases h
  · split_ifs at h
    · exact exists_ofValue_of_ofValue? (Result.mapError_ok_iff.1 h) hc hm
    · cases h

end FunctionSpec

/-- Only declarations have mounts. -/
theorem Source.Gives.exists_ofValue {s : Source} (h : s.Gives spec) (hc : spec.container = some c)
    (hm : m ∈ c.mounts) : ∃ id es, Mount.ofValue (.map id es) = .ok m := by
  cases h with
  | declaration h => exact FunctionSpec.exists_ofValue_of_ofSource? h hc hm
  | image _ | version _ =>
    obtain rfl := Option.some.inj hc
    cases hm

/-- **The mounts of a described function are read from maps.** -/
theorem exists_ofValue_of_ofResource (h : Descriptor.ofResource r = .ok d) (hm : m ∈ d.mounts) :
    ∃ id es, Mount.ofValue (.map id es) = .ok m := by
  obtain ⟨spec, hspec⟩ := exists_functionSpec?_of_ofResource h
  obtain ⟨info, hmeta⟩ := exists_getMeta_of_functionSpec? hspec
  obtain ⟨before, s, after, -, -, -, hs⟩ := finds_some_iff.1 (finds_of_functionSpec? hmeta hspec)
  rw [Descriptor.ofResource, hspec] at h
  rcases spec with ⟨- | c, path⟩
  · obtain rfl := Except.ok.inj h
    cases hm
  · obtain rfl := Except.ok.inj h
    exact hs.exists_ofValue rfl hm

/-- The container is told the text of each mount. -/
theorem Invoker.mount_infix (inv : Invoker) (env : TextMap) (hm : m ∈ d.mounts) :
    ["--mount", m.render] <:+: inv.containerCommand d env := by
  obtain ⟨before, after, hmounts⟩ := List.append_of_mem hm
  have htold : ["--mount", m.render] <:+:
      d.mounts.flatMap (fun mount => ["--mount", mount.render]) := by
    rw [hmounts, List.flatMap_append, List.flatMap_cons, ← List.append_assoc]
    exact List.infix_append _ _ _
  unfold Invoker.containerCommand
  rw [List.append_assoc]
  exact htold.trans (List.infix_append _ _ _)

/-- **Which mounts the container is told as they were declared.** Every mount that is read from a
text is. A mount is read from a map iff its fields are given as texts, and then it is told as it was
declared iff none of them is shown with the separator of options. The mounts of a function are read
from maps, and the container is told the text of each. -/
theorem rendered_as_declared (text : String) (id : ℕ) (es : MapEntries) (r : Resource)
    (inv : Invoker) (env : TextMap) :
    (∀ m, Mount.parse text = .ok m → m.IsFaithful) ∧
    ((∃ m, Mount.ofValue (.map id es) = .ok m) ↔
      ∀ key ∈ ["type", "src", "dst"], (MapEntries.get es key).textFault? = none) ∧
    (∀ m, Mount.ofValue (.map id es) = .ok m → (m.IsFaithful ↔ ∀ key ∈ ["type", "src", "dst"],
      ',' ∉ (MapEntries.get es key).displayFilled.toList)) ∧
    ∀ d, Descriptor.ofResource r = .ok d → ∀ m ∈ d.mounts,
      (∃ id es, Mount.ofValue (.map id es) = .ok m) ∧
        ["--mount", m.render] <:+: inv.containerCommand d env := by
  refine ⟨fun m h => (Mount.isPlain_of_parse h).isFaithful, ?_, fun m hm => ?_,
    fun d hd m hm => ⟨exists_ofValue_of_ofResource hd hm, inv.mount_infix env hm⟩⟩
  · rw [List.forall_mem_cons, List.forall_mem_cons, List.forall_mem_singleton]
    simp only [Mount.ofValue_map_eq_ok_iff]
    exact ⟨fun ⟨m, h⟩ => ⟨h.1.1, h.2.1.1, h.2.2.1⟩,
      fun h => ⟨⟨_, _, _⟩, ⟨h.1, rfl⟩, ⟨h.2.1, rfl⟩, h.2.2, rfl⟩⟩
  · obtain ⟨⟨-, htype⟩, ⟨-, hsource⟩, -, htarget⟩ := Mount.ofValue_map_eq_ok_iff.1 hm
    rw [Mount.isFaithful_iff, List.forall_mem_cons, List.forall_mem_cons, List.forall_mem_singleton,
      htype, hsource, htarget]
    exact ⟨fun h => ⟨h.type, h.source, h.target⟩, fun h => ⟨h.1, h.2.1, h.2.2⟩⟩

/-- A resource that declares a function which sees the root of its host at the target. -/
def mountingAt (target : String) : Resource :=
  declaring ("container:\n  image: fn\n  mounts:\n  - type: bind\n    src: /\n    dst: " ++ target)

/-- A text with equals signs in a field and an option of no use, a map with blanks in a field and
without a type, and a function with a mount of its own. -/
theorem rendered_as_declared_bind :
    Mount.parse "dst=/a=b,src=x,type=bind,readonly=true" = .ok ⟨"bind", "x", "/a=b"⟩ ∧
      Mount.parse "type=bind,src=x,dst=/a=b:ro" = .ok ⟨"bind", "x", "/a=b:ro"⟩ ∧
      Mount.ofValue (.map 1 [(.text "src", .text " a"), (.text "dst", .bool true)]) =
        .ok ⟨"", " a", "True"⟩ ∧
      Mount.parse "type=,src= a,dst=True:ro" = .ok ⟨"", " a", "True:ro"⟩ ∧
      ∃ d, Descriptor.ofResource (mountingAt "/host") = .ok d ∧
        ["--mount", "type=bind,src=/,dst=/host:ro"] <:+:
          (⟨Config.Settings.default, [], []⟩ : Invoker).containerCommand d [] := by
  obtain ⟨htext, -, hmap, hmounts⟩ := rendered_as_declared
    "dst=/a=b,src=x,type=bind,readonly=true" 1 [(.text "src", .text " a"), (.text "dst", .bool true)]
    (mountingAt "/host") ⟨Config.Settings.default, [], []⟩ []
  have hparse : Mount.parse "dst=/a=b,src=x,type=bind,readonly=true" = .ok ⟨"bind", "x", "/a=b"⟩ := by
    decide +kernel
  have hm : Mount.ofValue (.map 1 [(.text "src", .text " a"), (.text "dst", .bool true)]) =
      .ok ⟨"", " a", "True"⟩ := by
    decide +kernel
  have hspec : functionSpec? (mountingAt "/host") =
      .ok (some ⟨some ⟨"fn", "", [⟨"bind", "/", "/host"⟩]⟩, ""⟩) := by decide +kernel
  have hdescribed : ∃ d, Descriptor.ofResource (mountingAt "/host") = .ok d ∧
      d.mounts = [⟨"bind", "/", "/host"⟩] := by
    rw [Descriptor.ofResource, hspec]
    exact ⟨_, rfl, rfl⟩
  obtain ⟨d, hd, hmounted⟩ := hdescribed
  have hrender : Mount.render ⟨"bind", "/", "/host"⟩ = "type=bind,src=/,dst=/host:ro" := by decide
  refine ⟨hparse, (htext _ hparse).parse, hm, ((hmap _ hm).2 (by decide +kernel)).parse, d, hd, ?_⟩
  rw [← hrender]
  exact (hmounts d hd _ (hmounted ▸ List.mem_cons_self)).2

/-- A mount of the root whose target goes on as another option. -/
def rootMount : Mount := ⟨"bind", "/", "/host,x="⟩

/-- The mark of a declared mount goes to an option that nobody asked for, and the target is left
without one. -/
theorem mark_lost :
    functionSpec? (mountingAt "/host,x=") = .ok (some ⟨some ⟨"fn", "", [rootMount]⟩, ""⟩) ∧
      rootMount.render = "type=bind,src=/,dst=/host,x=:ro" ∧
      Mount.options rootMount.render =
        .ok [("type", "bind"), ("src", "/"), ("dst", "/host"), ("x", ":ro")] ∧
      Mount.parse rootMount.render = .ok ⟨"bind", "/", "/host"⟩ ∧ ¬rootMount.IsFaithful := by
  refine ⟨by decide +kernel, by decide +kernel, by decide +kernel, by decide +kernel, fun h => ?_⟩
  exact h.isPlain.target (by decide)

end ScopedFn
