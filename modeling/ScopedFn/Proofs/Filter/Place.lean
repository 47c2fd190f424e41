import ScopedFn.Proofs.Filter.Frame
import ScopedFn.Proofs.Provenance.Place
import ScopedFn.Proofs.Value.Decidable

/-!
# The places of new resources

The resources that a function emits without a path get one when the function is done. The function
chooses kinds, names and namespaces, whoever keeps its configuration chooses the name of its file.
Kinds and names can do no harm, but a namespace, or a file that is called `..`, can put a resource
out of the function's scope.

* `Filter.Placed` : the places that a run gives;
* `Filter.new_paths_inside_iff` : which of them are in the scope of the function;
* `Filter.new_path_outside` : a function that puts a resource out of its scope.
-/

set_option autoImplicit false

namespace ScopedFn.Filter

open ScopedFn.Path ScopedFn.Scope ScopedFn.Provenance

variable {inv : Invoker} {child : Child} {d : Descriptor} {rs : List Resource} {w w' : World}
  {f : Filtered}

/-- A run gives places to what the function emitted, and the collection begins with the outcome. -/
structure Placed (child : Child) (w w' : World) (f : Filtered) (functionPath : Option String)
    (decoded : Envelope.Decoded) (a : Assignment) : Prop where
  /-- The function was called, and its output read. -/
  emitted : Emitted child w w' decoded
  /-- Its output is given places below the scope. -/
  assigned : ∃ supply, assign f.scope functionPath decoded.resources supply = .ok a
  /-- It comes first in the collection. -/
  resources : ∃ outside, f.resources = a.resources ++ outside

theorem exists_placed (h : (apply inv child d rs).exec w = (.ok f, w')) :
    Scope.functionScope d.config = .ok f.scope ∧ ∃ functionPath, d.functionPath = .ok functionPath ∧
      ∃ decoded a, Placed child w w' f functionPath decoded a := by
  have hcourse := exec_apply.1 h
  cases hcourse with
  | @returned scope s i w₁ w₂ functionPath a hdiv hcall hkeep hjudge hpath hassign =>
    obtain ⟨decoded, hemitted, hresources, -⟩ := hcall.emitted
    refine ⟨hdiv.scope_eq, functionPath, hpath, decoded, a, ?_, ⟨w₂.supply, ?_⟩, ⟨s.outside, rfl⟩⟩
    · exact hemitted.of_calls_eq ((judged_calls d i s.outside w₂).trans hkeep.calls_eq)
    · rw [← hresources]
      exact hassign

/-- **Which new resources stay in the scope.** For a function of relative scope, the file of a new
resource is in the scope exactly if the names of the function and of the namespace lead nowhere
else, whatever the kind and the name of the resource are. -/
theorem new_paths_inside_iff {scope : Path} (hscope : Scope.functionScope d.config = .ok scope)
    (hne : scope ≠ global) (hrel : ¬ IsAbsolute scope)
    (h : (apply inv child d rs).exec w = (.ok f, w')) :
    ∃ functionPath decoded a metas, d.functionPath = .ok functionPath ∧
      Placed child w w' f functionPath decoded a ∧
      decoded.resources.mapM Resource.getMeta = .ok metas ∧
      List.Forall₂ (fun m path =>
          Inside scope path ↔ Stays scope (functionStem functionPath) m.space.toList)
        (metas.filter fun m => m.path?.isNone) a.paths := by
  obtain ⟨hscope', functionPath, hpath, decoded, a, hplaced⟩ := exists_placed h
  obtain rfl := Except.ok.inj (hscope.symm.trans hscope')
  obtain ⟨supply, hassign⟩ := hplaced.assigned
  have hdir : ∃ file, f.scope = resourceDir file := by
    cases hconfig : d.config with
    | none => exact absurd (Except.ok.inj ((hconfig ▸ hscope).symm)) hne
    | some config =>
      obtain ⟨file, hfile⟩ := functionScope_eq (hconfig ▸ hscope) hne
      exact ⟨file.toList, hfile⟩
  obtain ⟨metas, hmetas, hall⟩ := inside_paths_iff hdir hrel hne hassign
  exact ⟨functionPath, decoded, a, metas, hpath, hplaced, hmetas, hall⟩

/-- A function that ends well and writes a text. -/
def writes (text : String) : Child := fun _ => .ended 0 text.toUTF8.toList

/-- A run of such a function, which is kept below `apps`, on no resources. -/
def runBelowApps (text : String) : Except Failure Filtered × World :=
  (apply usual (writes text) belowApps []).exec { blank with supply := 10 }

/-- The scope of a run, and the paths of the collection. -/
def scopeAndPaths (f : Filtered) : Path × List (Option String) :=
  (f.scope, f.resources.map fun r => r.getMeta.toOption.bind Meta.path?)

theorem exists_run {text : String} {scope : Path} {paths : List (Option String)}
    (h : (runBelowApps text).1.toOption.map scopeAndPaths = some (scope, paths)) :
    ∃ f w', runBelowApps text = (.ok f, w') ∧ scopeAndPaths f = (scope, paths) := by
  obtain ⟨f, hok, hf⟩ := Option.map_eq_some_iff.1 h
  exact ⟨f, (runBelowApps text).2, Prod.ext (Result.ok_of_toOption hok) rfl, hf⟩

/-- A new resource whose namespace is a name. -/
theorem new_path_inside : ∃ f w', runBelowApps "kind: A\nmetadata:\n  namespace: web\n" = (.ok f, w') ∧
    scopeAndPaths f = ("apps".toList, [some "apps/fn/web/a_.yaml"]) ∧
    ∃ functionPath decoded a metas, belowApps.functionPath = .ok functionPath ∧
      Placed (writes "kind: A\nmetadata:\n  namespace: web\n") { blank with supply := 10 } w' f
        functionPath decoded a ∧
      decoded.resources.mapM Resource.getMeta = .ok metas ∧
      List.Forall₂ (fun m path =>
          Inside "apps".toList path ↔ Stays "apps".toList (functionStem functionPath) m.space.toList)
        (metas.filter fun m => m.path?.isNone) a.paths := by
  obtain ⟨f, w', hrun, hf⟩ := exists_run (by decide +kernel : (runBelowApps
    "kind: A\nmetadata:\n  namespace: web\n").1.toOption.map scopeAndPaths =
      some ("apps".toList, [some "apps/fn/web/a_.yaml"]))
  exact ⟨f, w', hrun, hf, new_paths_inside_iff rfl (by decide) (by decide) hrun⟩

/-- **A new resource out of scope.** A function of the scope `apps` puts a resource into `/etc`, for
that is the namespace that it writes. -/
theorem new_path_outside : ∃ f w', runBelowApps "kind: A\nmetadata:\n  namespace: /etc\n" = (.ok f, w') ∧
    scopeAndPaths f = ("apps".toList, [some "/etc/a_.yaml"]) ∧
    ¬ Inside "apps".toList "/etc/a_.yaml".toList := by
  obtain ⟨f, w', hrun, hf⟩ := exists_run (by decide +kernel : (runBelowApps
    "kind: A\nmetadata:\n  namespace: /etc\n").1.toOption.map scopeAndPaths =
      some ("apps".toList, [some "/etc/a_.yaml"]))
  refine ⟨f, w', hrun, hf, fun hinside => hinside.1 ?_⟩
  decide

end ScopedFn.Filter
