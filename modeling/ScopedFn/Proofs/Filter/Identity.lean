import ScopedFn.Proofs.Filter.Frame
import ScopedFn.Proofs.Provenance.Free
import ScopedFn.Proofs.Provenance.Settled
import ScopedFn.Proofs.Run.Repeats

/-!
# The function that does nothing

A function that repeats its input gives back the resources in its scope, in their order, and what
passes by follows. Nothing has changed but that resources without a path have one now, and those are
in scope only if the function sees everything. So the function has the same resources in its scope
the second time, and finds nothing left to do.

* `Filter.ReadsBack` : what is sent to the function is not changed by its text;
* `Filter.identity_harmless` : what the function makes of a collection, once and again.
-/

set_option autoImplicit false

namespace ScopedFn.Filter

open ScopedFn.Scope ScopedFn.Provenance ScopedFn.Resource

variable {inv : Invoker} {child : Child} {d : Descriptor} {rs output : List Resource} {w w' : World}
  {f : Filtered} {scope : Path} {s : Split} {r r' : Resource}

/-- The text that is sent to the function restates what is sent. -/
def ReadsBack (inv : Invoker) (d : Descriptor) (rs : List Resource) (w : World) : Prop :=
  ∀ {scope s}, Divides d rs scope s → (inv.package d s.inside w.supply).ReadsBack w.supply

/-- It is sent when the scope has been told. -/
theorem ReadsBack.divided (h : ReadsBack inv d rs w) (hdiv : Divides d rs scope s) :
    (inv.package d s.inside (divided d scope s w).supply).ReadsBack (divided d scope s w).supply :=
  h hdiv

/-! ### What the function sees -/

/-- The function sees all resources. -/
def seesAll (d : Descriptor) (scope : Path) : Bool := d.globalScope || holdsAll scope

/-- The function sees the resource. -/
def sees (d : Descriptor) (scope : Path) (r : Resource) : Bool := seesAll d scope || lies scope r

/-- What a function sees and what it does not see stand in their order. -/
theorem Divides.sides (h : Divides d rs scope s) :
    s.inside = rs.filter (sees d scope) ∧ s.outside = rs.filter fun r => !sees d scope r := by
  obtain ⟨hall, rfl⟩ | ⟨hnot, hinside, houtside⟩ := split_ok h.split_eq
  · have hsees : sees d scope = fun _ => true := funext fun r => by
      rw [sees, seesAll, hall, Bool.true_or]
    simp [hsees]
  · have hsees : sees d scope = lies scope := funext fun r => by
      rw [sees, seesAll, hnot, Bool.false_or]
    rw [hsees]
    exact ⟨hinside, houtside⟩

theorem lies_of_contents (h : r'.contents = r.contents) : lies scope r' = lies scope r := by
  rw [lies, lies, ← getMeta_contents r', h, getMeta_contents]

/-- A function that does not see everything sees resources that have a path. -/
theorem hasPath_of_lies (h : lies scope r = true) : HasPath r := by
  obtain ⟨m, hm, hholds⟩ := (Option.any_eq_true _ _).1 h
  obtain ⟨path, hpath, -⟩ := (Option.any_eq_true _ _).1 hholds
  exact ⟨m, Result.ok_of_toOption hm, Option.isSome_iff_exists.2 ⟨path, hpath⟩⟩

theorem Divides.hasPath (h : Divides d rs scope s) (hnot : seesAll d scope = false) :
    ∀ r ∈ s.inside, HasPath r := by
  intro r hr
  rw [h.sides.1] at hr
  have hsees := (List.mem_filter.1 hr).2
  rw [sees, hnot, Bool.false_or] at hsees
  exact hasPath_of_lies hsees

/-- **The second division is the first one.** The output is what the function sees, and what passed
by it does not see. -/
theorem Divides.again (h : Divides d rs scope s) (hsettles : List.Forall₂ Settles s.inside output) :
    Divides d (output ++ s.outside) scope ⟨output, s.outside⟩ := by
  refine ⟨h.scope_eq, ?_⟩
  obtain ⟨hall, rfl⟩ | ⟨hnot, hinside, houtside⟩ := split_ok h.split_eq
  · rw [List.append_nil, split, if_pos hall]
  · have hsame := contents_of_settles hsettles (h.hasPath hnot)
    have hreadable := (exists_split_iff.1 ⟨s, h.split_eq⟩).resolve_left (by simp [hnot])
    refine split_append hnot (List.forall_mem_append.2 ⟨fun r hr => ?_, fun r hr => ?_⟩)
      (fun r hr => ?_) (fun r hr => ?_)
    · exact (hasPath_of_settles hsettles r hr).imp fun m hm => hm.1
    · exact hreadable r ((outside_sublist h.split_eq).subset hr)
    · -- what lies in the scope is a matter of contents
      obtain ⟨q, hq, heq⟩ := List.mem_map.1 (hsame ▸ List.mem_map_of_mem hr)
      rw [← lies_of_contents heq]
      exact (List.mem_filter.1 (hinside ▸ hq)).2
    · rw [houtside] at hr
      simpa using (List.mem_filter.1 hr).2

/-! ### One run -/

/-- What the function gives back, with paths, and behind it what passed by. -/
theorem exists_output (hchild : Repeats child) (hkeep : inv.settings.keepReaderAnnotations = true)
    (hone : ∀ r ∈ rs, r.toValue.objects.Nodup) (hback : ReadsBack inv d rs w)
    (h : (apply inv child d rs).exec w = (.ok f, w')) :
    ∃ s output command, Divides d rs f.scope s ∧ f.resources = output ++ s.outside ∧
      List.Forall₂ Settles s.inside output ∧ inv.command d inv.environment = .ok command := by
  have hcourse := exec_apply.1 h
  cases hcourse with
  | @returned scope s i w₁ w₂ functionPath a hdiv hcall hkeeps hjudge hpath hassign =>
    obtain ⟨command, hcommand⟩ := hcall.exists_command
    obtain ⟨i', w₁', hcall', -, -, hcontents, hbound, hnodup⟩ :=
      Invoker.exists_calls_of_repeats hchild hkeep hcommand (hback.divided hdiv)
    obtain ⟨hi, rfl⟩ := Prod.mk.inj (hcall.exec_eq.symm.trans hcall'.exec_eq)
    obtain rfl := Except.ok.inj hi
    have hsupply : w₂.supply = w₁.supply := hkeeps.supply_eq
    have hinside : ∀ r ∈ s.inside, r.toValue.objects.Nodup := fun r hr =>
      hone r ((perm_of_split hdiv.split_eq).subset (List.mem_append_left _ hr))
    have hdefaulted := defaulted_of_unshared hassign (fun r hr => hsupply ▸ hbound r hr)
      (unshared_of_nodup (hnodup hinside))
    exact ⟨s, a.resources, command, hdiv, rfl,
      hdefaulted.settles (distinct_assign hassign).named hcontents, hcommand⟩

/-- Where everything in scope has a path, the function gives back what it got. -/
theorem exists_unchanged (hchild : Repeats child)
    (hkeep : inv.settings.keepReaderAnnotations = true) {command : List String}
    (hcommand : inv.command d inv.environment = .ok command) (hdiv : Divides d rs scope s)
    (hback : ReadsBack inv d rs w) (hpath : ∀ r ∈ s.inside, HasPath r) :
    ∃ f w', (apply inv child d rs).exec w = (.ok f, w') ∧
      f.resources.map Resource.contents = (s.inside ++ s.outside).map Resource.contents := by
  obtain ⟨i, w₁, hcall, hsucceeded, hresults, hcontents, -, -⟩ :=
    Invoker.exists_calls_of_repeats hchild hkeep hcommand (hback.divided hdiv)
  have hall : ∀ r ∈ i.resources, HasPath r := fun r hr => by
    obtain ⟨q, hq, heq⟩ := List.mem_map.1 (hcontents ▸ List.mem_map_of_mem hr)
    exact (hpath q hq).of_contents heq.symm
  obtain ⟨functionPath, hfunction⟩ := exists_functionPath hdiv.scope_eq
  obtain ⟨a, hassign, hresources⟩ := exists_assign_of_hasPath scope functionPath w₁.supply hall
  have hkeeps : Keeps d (w₁.record (callRecord d i)) i.results (.ok ())
      (w₁.record (callRecord d i)) := hresults ▸ .nothing
  refine ⟨_, _, exec_apply.2 (.returned hdiv hcall hkeeps (.inl hsucceeded) hfunction hassign), ?_⟩
  have hfinish : (finish scope s.outside i (allowed d i s.outside) a).resources =
      i.resources ++ s.outside := congrArg (· ++ s.outside) hresources
  rw [hfinish, List.map_append, List.map_append, hcontents]

/-! ### One run and another one -/

/-- **The function that does nothing is harmless.** It gives back what it sees, in order, and what it
does not see follows, in order. What has a path is not changed. The rest is seen only by a function
that sees everything, and is given a path, and an index unless it has one. If the function is applied
again to what came out, in whatever world, the same comes out. -/
theorem identity_harmless (hchild : Repeats child)
    (hkeep : inv.settings.keepReaderAnnotations = true)
    (hone : ∀ r ∈ rs, r.toValue.objects.Nodup) (hback : ReadsBack inv d rs w)
    (h : (apply inv child d rs).exec w = (.ok f, w')) :
    (∃ s output, Divides d rs f.scope s ∧ s.inside = rs.filter (sees d f.scope) ∧
        s.outside = rs.filter (fun r => !sees d f.scope r) ∧ f.resources = output ++ s.outside ∧
        List.Forall₂ Settles s.inside output ∧
        (seesAll d f.scope = false →
          output.map Resource.contents = s.inside.map Resource.contents)) ∧
      ∀ w₂, ReadsBack inv d f.resources w₂ →
        ∃ f₂ w₂', (apply inv child d f.resources).exec w₂ = (.ok f₂, w₂') ∧
          f₂.resources.map Resource.contents = f.resources.map Resource.contents := by
  obtain ⟨s, output, command, hdiv, hresources, hsettles, hcommand⟩ :=
    exists_output hchild hkeep hone hback h
  obtain ⟨hinside, houtside⟩ := hdiv.sides
  refine ⟨⟨s, output, hdiv, hinside, houtside, hresources, hsettles, fun hnot => ?_⟩, ?_⟩
  · exact contents_of_settles hsettles (hdiv.hasPath hnot)
  · intro w₂ hback₂
    rw [hresources] at hback₂ ⊢
    exact exists_unchanged hchild hkeep hcommand (hdiv.again hsettles) hback₂
      (hasPath_of_settles hsettles)

/-! ### A new resource -/

/-- A resource that is new. -/
def newcomer : Resource := ⟨1, [(.text "kind", .text "A")]⟩

/-- The resource with a path and an index. -/
def settled : Resource :=
  ⟨17, [(.text "kind", .text "A"), (.text "metadata", .map 21 [(.text "annotations",
    .map 22 [(.text pathKey, .text "a_.yaml"), (.text indexKey, .text "0")])])]⟩

/-- A function without configuration, which sees everything, repeats the new resource. -/
def repeated : Except Failure Filtered × World :=
  (apply usual Script.identity.child (executable false) [newcomer]).exec { blank with supply := 10 }

/-- Such a function is sent the whole collection. -/
theorem readsBack_executable {supply : Supply} (hsupply : w.supply = supply)
    (h : (usual.package (executable false) rs supply).ReadsBack supply) :
    ReadsBack usual (executable false) rs w := by
  intro scope s hdiv
  obtain ⟨rfl, rfl⟩ := hdiv.unique (⟨rfl, rfl⟩ : Divides (executable false) rs global ⟨rs, []⟩)
  rw [hsupply]
  exact h

/-- The new resource is given a path, and nothing happens any more when the function is applied
again. -/
theorem identity_harmless_newcomer : ∃ f w', repeated = (.ok f, w') ∧ f.resources = [settled] ∧
    ∃ f₂ w₂', (apply usual Script.identity.child (executable false) f.resources).exec w' =
        (.ok f₂, w₂') ∧
      f₂.resources.map Resource.contents = f.resources.map Resource.contents := by
  have hone : ∀ r ∈ [newcomer], r.toValue.objects.Nodup := by decide
  have hback : ReadsBack usual (executable false) [newcomer] { blank with supply := 10 } :=
    readsBack_executable rfl (by decide +kernel)
  have hsettled : (usual.package (executable false) [settled] 25).ReadsBack 25 := by decide +kernel
  have hrepeated : (repeated.1.toOption.map (·.resources), repeated.2.supply) =
      (some [settled], 25) := by decide +kernel
  obtain ⟨hresources, hsupply⟩ := Prod.mk.inj hrepeated
  obtain ⟨f, hok, hf⟩ := Option.map_eq_some_iff.1 hresources
  have hrun : repeated = (.ok f, repeated.2) :=
    (Prod.eta repeated).symm.trans (congrArg (·, repeated.2) (Result.ok_of_toOption hok))
  have hback₂ : ReadsBack usual (executable false) f.resources repeated.2 :=
    hf ▸ readsBack_executable hsupply hsettled
  obtain ⟨-, hagain⟩ := identity_harmless repeats_identity rfl hone hback hrun
  exact ⟨f, repeated.2, hrun, hf, hagain _ hback₂⟩

end ScopedFn.Filter
