import ScopedFn.Proofs.Filter.Place
import ScopedFn.Proofs.Provenance.Files

/-!
# Files of a collection

A run gives every new resource a path that no other resource of the output has. Behind the output
follow the resources out of scope, whose paths are not looked at. They cannot name the same file as
long as the path is one of the scope; a path that leads out of it may be theirs.

* `Filter.Returned` : the parts that a collection is made of;
* `Filter.alone_in_files_iff` : when every new resource is alone in its file;
* `Filter.file_spelled_twice`, `Filter.file_out_of_scope` : resources that are not.
-/

set_option autoImplicit false

namespace ScopedFn.Filter

open ScopedFn.Path ScopedFn.Scope ScopedFn.Provenance

variable {inv : Invoker} {child : Child} {d : Descriptor} {rs : List Resource} {w w' : World}
  {f : Filtered} {s : Scope.Split} {decoded : Envelope.Decoded} {a : Assignment}
  {functionPath : Option String} {scope : Path}

/-- What a run returns: the output of the function with its provenance, and behind it what passed
by. -/
structure Returned (child : Child) (d : Descriptor) (rs : List Resource) (w w' : World) (f : Filtered)
    (s : Scope.Split) (decoded : Envelope.Decoded) (a : Assignment) : Prop where
  /-- The collection is divided. -/
  divides : Divides d rs f.scope s
  /-- The function was called, and its output read. -/
  emitted : Emitted child w w' decoded
  /-- The output is given a provenance. -/
  assigned : ∃ functionPath supply, d.functionPath = .ok functionPath ∧
    BoundedBy supply decoded.resources ∧ assign f.scope functionPath decoded.resources supply = .ok a
  /-- It comes first. -/
  resources : f.resources = a.resources ++ s.outside

theorem exists_returned (h : (apply inv child d rs).exec w = (.ok f, w')) :
    ∃ s decoded a, Returned child d rs w w' f s decoded a := by
  have hcourse := exec_apply.1 h
  cases hcourse with
  | @returned scope s i w₁ w₂ functionPath a hdiv hcall hkeep hjudge hpath hassign =>
    obtain ⟨decoded, hemitted, hresources, -, hwithin⟩ := hcall.emitted
    rw [hresources] at hassign hwithin
    have hsupply : w₂.supply = w₁.supply := hkeep.supply_eq
    refine ⟨s, decoded, a, hdiv, ?_, ⟨functionPath, w₂.supply, hpath, fun r hr => ?_, hassign⟩, rfl⟩
    · exact hemitted.of_calls_eq ((judged_calls d i s.outside w₂).trans hkeep.calls_eq)
    · exact hsupply ▸ (hwithin r hr).bound

/-- A map that a function emits has one content. -/
theorem coherent_of_emitted (h : Emitted child w w' decoded) :
    Coherent (Resource.mapsOf decoded.resources) := by
  obtain ⟨req, status, output, supply, -, -, hread⟩ := h
  unfold Invoker.readOutput at hread
  split at hread
  · cases hread
  · exact Envelope.coherent_decode hread

/-- What passes by names no file of the scope. -/
theorem not_isWithin_of_outside (h : Divides d rs scope s) {p : Path} (hp : p ∈ files s.outside) :
    isWithin (resourceDir p) scope = false := by
  obtain ⟨q, hq, path, hpath, rfl⟩ := mem_files.1 hp
  obtain ⟨-, rfl⟩ | ⟨-, -, houtside⟩ := split_ok h.split_eq
  · exact absurd hq List.not_mem_nil
  · rw [houtside] at hq
    obtain ⟨m, hmeta, hm⟩ := Option.bind_eq_some_iff.1 hpath
    have hlies := (List.mem_filter.1 hq).2
    rw [lies, hmeta] at hlies
    simpa [holds, hm] using hlies

/-- **When new resources are alone in their files**: the function gives each of them annotations of
its own, its output holds no other spelling of a given path, and no given path that leads out of the
scope names the file of a resource there. -/
theorem alone_in_files_iff (h : (apply inv child d rs).exec w = (.ok f, w')) :
    ∃ s decoded a, Returned child d rs w w' f s decoded a ∧
      (AloneInFiles decoded.resources f.resources ↔
        OwnSites decoded.resources ∧ OneSpelling a.paths (files decoded.resources) ∧
          ∀ p ∈ a.paths, isWithin (resourceDir p) f.scope = false →
            ∀ p' ∈ files s.outside, normalize p' ≠ normalize p) := by
  obtain ⟨s, decoded, a, hreturned⟩ := exists_returned h
  obtain ⟨functionPath, supply, -, hbound, hassign⟩ := hreturned.assigned
  refine ⟨s, decoded, a, hreturned, ?_⟩
  rw [hreturned.resources,
    aloneInFiles_iff hassign hbound (coherent_of_emitted hreturned.emitted)]
  refine and_congr_right fun _ => and_congr_right fun _ => ?_
  refine ⟨fun hall p hp _ => hall p hp, fun hall p hp p' hp' hsame => ?_⟩
  -- a path of the scope is spelled by paths of the scope only
  by_cases hwithin : isWithin (resourceDir p) f.scope = true
  · obtain ⟨head, name, rfl, hhead, hname, hlast⟩ := (isDocument_paths hassign p hp).exists_name
    have hreserved : name ≠ reservedName := by
      rintro rfl
      revert hlast
      decide
    have hin := isWithin_of_normalize_eq hhead hname hreserved hsame.symm hwithin
    exact absurd (hin.symm.trans (not_isWithin_of_outside hreturned.divides hp')) (by decide)
  · exact hall p hp (by simpa using hwithin) p' hp' hsame

/-! ### Runs of a function below `apps` -/

/-- A run of a function that is kept below `apps` and writes a text. -/
def runOn (rs : List Resource) (text : String) : Except Failure Filtered × World :=
  (apply usual (writes text) belowApps rs).exec { blank with supply := 10 }

theorem exists_runOn {text : String} {named : List (Option String)}
    (h : (runOn rs text).1.toOption.map (·.resources.map Resource.file?) = some named) :
    ∃ f w', runOn rs text = (.ok f, w') ∧ f.resources.map Resource.file? = named := by
  obtain ⟨f, hok, hf⟩ := Option.map_eq_some_iff.1 h
  exact ⟨f, (runOn rs text).2, Prod.ext (Result.ok_of_toOption hok) rfl, hf⟩

/-- The function writes a new resource, and another one in the scope. -/
def beside : String :=
  "kind: A\n---\nmetadata:\n  annotations:\n    config.kubernetes.io/path: apps/a_.yaml\n"

/-- A new resource beside a file of the scope and one out of it. -/
theorem alone_in_files_apart : ∃ f w', runOn [located 4 "web/a_.yaml"] beside = (.ok f, w') ∧
    f.resources.map Resource.file? =
      [some "apps/fn/a_.yaml", some "apps/a_.yaml", some "web/a_.yaml"] ∧
    ∃ s decoded a, Returned (writes beside) belowApps [located 4 "web/a_.yaml"]
        { blank with supply := 10 } w' f s decoded a ∧
      (AloneInFiles decoded.resources f.resources ↔
        OwnSites decoded.resources ∧ OneSpelling a.paths (files decoded.resources) ∧
          ∀ p ∈ a.paths, isWithin (resourceDir p) f.scope = false →
            ∀ p' ∈ files s.outside, normalize p' ≠ normalize p) := by
  obtain ⟨f, w', hrun, hf⟩ := exists_runOn (by decide +kernel : (runOn [located 4 "web/a_.yaml"]
    beside).1.toOption.map (·.resources.map Resource.file?) =
      some [some "apps/fn/a_.yaml", some "apps/a_.yaml", some "web/a_.yaml"])
  exact ⟨f, w', hrun, hf, alone_in_files_iff hrun⟩

/-- The first resource was new, and the second one of the collection names its file. -/
theorem not_aloneInFiles {emitted all : List Resource} {r : Resource} {t t' : String}
    {rest : List (Option String)} (hr : emitted[0]? = some r) (hnew : IsNew r)
    (hall : all.map Resource.file? = some t :: some t' :: rest)
    (hsame : normalize t'.toList = normalize t.toList) : ¬ AloneInFiles emitted all := by
  intro halone
  obtain ⟨q, all, rfl, hq, hall⟩ := List.map_eq_cons_iff.1 hall
  obtain ⟨q', rest', rfl, hq', -⟩ := List.map_eq_cons_iff.1 hall
  obtain ⟨q₀, s, hq₀, hs, hother⟩ := halone 0 r hr hnew
  obtain rfl := Option.some.inj hq₀
  obtain rfl := Option.some.inj (hs.symm.trans hq)
  exact hother 1 q' t' Nat.one_ne_zero rfl hq' hsame

/-- The first resource that is read in a text is new. -/
theorem exists_isNew {text : String} (h : Emitted (writes text) { blank with supply := 10 } w' decoded)
    (hread : ((Invoker.readOutput 0 text.toUTF8.toList 10).toOption.any fun read =>
      read.1.resources.head?.any lacksPath) = true) :
    ∃ r, decoded.resources[0]? = some r ∧ IsNew r := by
  obtain ⟨req, status, output, supply, -, hchild, hdecoded⟩ := h
  obtain ⟨rfl, rfl⟩ := Reaction.ended.inj hchild
  rw [hdecoded] at hread
  have hhead : decoded.resources.head?.any lacksPath = true := hread
  obtain ⟨r, hr, hnew⟩ := (Option.any_eq_true _ _).1 hhead
  exact ⟨r, List.head?_eq_getElem?.symm.trans hr, lacksPath_iff.1 hnew⟩

/-- The function writes a new resource, and another one with a path. -/
def respelled : String :=
  "kind: A\n---\nmetadata:\n  annotations:\n    config.kubernetes.io/path: ./apps/fn/a_.yaml\n"

/-- **A file that is spelled twice.** The new resource is given the path of another resource of the
output, which spells it otherwise. -/
theorem file_spelled_twice : ∃ f w' decoded, runOn [] respelled = (.ok f, w') ∧
    Emitted (writes respelled) { blank with supply := 10 } w' decoded ∧
    f.resources.map Resource.file? = [some "apps/fn/a_.yaml", some "./apps/fn/a_.yaml"] ∧
    ¬ AloneInFiles decoded.resources f.resources := by
  obtain ⟨f, w', hrun, hf⟩ := exists_runOn (by decide +kernel : (runOn []
    respelled).1.toOption.map (·.resources.map Resource.file?) =
      some [some "apps/fn/a_.yaml", some "./apps/fn/a_.yaml"])
  obtain ⟨s, decoded, a, hreturned⟩ := exists_returned hrun
  obtain ⟨r, hr, hnew⟩ := exists_isNew hreturned.emitted (by decide +kernel)
  refine ⟨f, w', decoded, hrun, hreturned.emitted, hf, not_aloneInFiles hr hnew hf ?_⟩
  decide +kernel

/-- The function writes a new resource whose namespace leads out of the scope. -/
def leading : String := "kind: A\nmetadata:\n  namespace: ../../web\n"

/-- **A file that is named out of the scope.** The new resource is given the path of a resource that
passes by. -/
theorem file_out_of_scope : ∃ f w' decoded,
    runOn [located 4 "web/a_.yaml"] leading = (.ok f, w') ∧
      Emitted (writes leading) { blank with supply := 10 } w' decoded ∧
      f.resources.map Resource.file? = [some "apps/fn/../../web/a_.yaml", some "web/a_.yaml"] ∧
      ¬ AloneInFiles decoded.resources f.resources := by
  obtain ⟨f, w', hrun, hf⟩ := exists_runOn (by decide +kernel : (runOn [located 4 "web/a_.yaml"]
    leading).1.toOption.map (·.resources.map Resource.file?) =
      some [some "apps/fn/../../web/a_.yaml", some "web/a_.yaml"])
  obtain ⟨s, decoded, a, hreturned⟩ := exists_returned hrun
  obtain ⟨r, hr, hnew⟩ := exists_isNew hreturned.emitted (by decide +kernel)
  refine ⟨f, w', decoded, hrun, hreturned.emitted, hf, not_aloneInFiles hr hnew hf ?_⟩
  decide +kernel

end ScopedFn.Filter
