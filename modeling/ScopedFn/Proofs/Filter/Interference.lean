import ScopedFn.Proofs.Envelope.Renaming
import ScopedFn.Proofs.Filter.Frame

/-!
# What a function can learn

A function is told of the resources in its scope and of its configuration, and of nothing else. So
two collections with the same part in scope are told apart by nothing that applying a function
brings about, whatever else is in them: the same process is started with the same text, the same
results are stored, and both runs end alike, each with its own resources out of scope.

The same part in scope means resources that say the same with the same sharing in each of them.
Between them, and with the configuration, the same tuples of plain atoms have to be shared, since a
copy keeps these tuples and a text shows what is shared in it.

* `Filter.SameEnd` : runs that end alike, up to the resources out of scope;
* `Filter.noninterference` : collections whose parts in scope are alike give such runs;
* `Filter.told_apart_by_tuple` : parts in scope that are alike resource by resource need not.
-/

set_option autoImplicit false

namespace ScopedFn

/-- The worlds differ in nothing but the record that is kept and the edits carried out. -/
structure World.Agrees (w w' : World) : Prop where
  /-- The same identities are in use. -/
  supply : w.supply = w'.supply
  /-- The files are the same. -/
  files : w.files = w'.files
  /-- The same processes were started. -/
  calls : w.calls = w'.calls

namespace World.Agrees

variable {w w' : World}

theorem record (h : w.Agrees w') (f f' : RunLog → RunLog) : (w.record f).Agrees (w'.record f') :=
  ⟨h.supply, h.files, h.calls⟩

theorem edit (h : w.Agrees w') (es es' : List Edit) : (w.edit es).Agrees (w'.edit es') :=
  ⟨h.supply, h.files, h.calls⟩

theorem call (h : w.Agrees w') (req : Request) : (w.call req).Agrees (w'.call req) :=
  ⟨h.supply, h.files, congrArg (· ++ [req]) h.calls⟩

theorem withSupply (h : w.Agrees w') (supply : Supply) :
    { w with supply := supply }.Agrees { w' with supply := supply } := ⟨rfl, h.files, h.calls⟩

theorem withFiles (h : w.Agrees w') (files : Files) :
    { w with files := files }.Agrees { w' with files := files } := ⟨h.supply, rfl, h.calls⟩

end World.Agrees

variable {inv : Invoker} {child : Child} {d : Descriptor} {rs rs' : List Resource}
  {w w' w₁ w₁' : World}

/-- A call depends on the resources only in the text that is made of them. -/
theorem Invoker.Calls.exists_agrees {res : Except Failure Invocation}
    (h : Invoker.Calls inv child d rs w res w₁) (hw : w.Agrees w')
    (hpackage : (inv.package d rs w.supply).encode = (inv.package d rs' w'.supply).encode) :
    ∃ w₁', Invoker.Calls inv child d rs' w' res w₁' ∧ w₁.Agrees w₁' := by
  have hpacked : (inv.packed d rs w).Agrees (inv.packed d rs' w') := hw.edit _ _
  cases h with
  | noCommand hcommand => exact ⟨w', .noCommand hcommand, hw⟩
  | noPayload hcommand hpayload =>
    exact ⟨_, .noPayload hcommand (hpackage.symm.trans hpayload), hpacked⟩
  | refused hcommand hpayload hchild =>
    exact ⟨_, .refused hcommand (hpackage.symm.trans hpayload) hchild, hpacked.call _⟩
  | unreadable hcommand hpayload hchild hread =>
    -- the output is read with the same supply, so it is made of the same objects
    rw [hw.supply] at hread
    exact ⟨_, .unreadable hcommand (hpackage.symm.trans hpayload) hchild hread, hpacked.call _⟩
  | answered hcommand hpayload hchild hread =>
    rw [hw.supply] at hread
    exact ⟨_, .answered hcommand (hpackage.symm.trans hpayload) hchild hread,
      (hpacked.call _).withSupply _⟩

namespace Filter

theorem Keeps.exists_agrees {results : Option Resource} {res : Except Failure Unit}
    (h : Keeps d w results res w₁) (hw : w.Agrees w') :
    ∃ w₁', Keeps d w' results res w₁' ∧ w₁.Agrees w₁' := by
  cases h with
  | nothing => exact ⟨w', .nothing, hw⟩
  | recorded hfile => exact ⟨_, .recorded hfile, hw.record _ _⟩
  | unstored hfile hne hstored =>
    rw [hw.files] at hstored
    exact ⟨w', .unstored hfile hne hstored, hw⟩
  | stored hfile hne hstored =>
    rw [hw.files] at hstored
    exact ⟨_, .stored hfile hne hstored, (hw.withFiles _).record _ _⟩

/-- The same holds of a call whose results are kept. -/
theorem exists_agrees_kept {i : Invocation} {res : Except Failure Unit} {w₂ : World}
    (hcall : Invoker.Calls inv child d rs w (.ok i) w₁)
    (hkeep : Keeps d (w₁.record (callRecord d i)) i.results res w₂) (hw : w.Agrees w')
    (hpackage : (inv.package d rs w.supply).encode = (inv.package d rs' w'.supply).encode) :
    ∃ w₁' w₂', Invoker.Calls inv child d rs' w' (.ok i) w₁' ∧
      Keeps d (w₁'.record (callRecord d i)) i.results res w₂' ∧ w₂.Agrees w₂' := by
  obtain ⟨w₁', hcall', hw₁⟩ := hcall.exists_agrees hw hpackage
  obtain ⟨w₂', hkeep', hw₂⟩ := hkeep.exists_agrees (hw₁.record _ _)
  exact ⟨w₁', w₂', hcall', hkeep', hw₂⟩

theorem agrees_judged (hw : w.Agrees w') (d : Descriptor) (i : Invocation)
    (passed passed' : List Resource) : (judged d i passed w).Agrees (judged d i passed' w') := by
  unfold judged
  split
  · exact hw
  · exact hw.record _ _

/-! ### The same end -/

/-- The failures of a function differ in nothing but the resources that passed by. -/
structure SameExit (passed passed' : List Resource) (e e' : ExitFault) : Prop where
  /-- It is the same function. -/
  function : e.function = e'.function
  /-- It ended with the same status. -/
  status : e.status = e'.status
  /-- Its results are the same. -/
  results : e.results = e'.results
  /-- Behind the same output follow the resources that passed by. -/
  resources : ∃ output, e.resources = output ++ passed ∧ e'.resources = output ++ passed'

/-- The collections after a function differ in nothing but the resources that passed by. In an
allowed failure these resources may have seen edits, but only of objects made since the start. -/
structure SameReturn (lo : Supply) (passed passed' : List Resource) (f f' : Filtered) : Prop where
  /-- The results are the same. -/
  results : f.results = f'.results
  /-- The scope is the same. -/
  scope : f.scope = f'.scope
  /-- The status is the same. -/
  status : f.outcome.status = f'.outcome.status
  /-- A failure is allowed in both or in none. -/
  deferred : f.outcome.deferred = f'.outcome.deferred
  /-- The same was sent to the function. -/
  payload : f.outcome.payload = f'.outcome.payload
  /-- Behind the same output follow the resources that passed by. -/
  resources : ∃ output, f.resources = output ++ passed ∧ f'.resources = output ++ passed'
  /-- The failure that was allowed is the same. -/
  exit : ∃ es, (∀ e ∈ es, Edit.Fresh lo e) ∧
    Option.Rel (SameExit (passed.map (·.editAll es)) (passed'.map (·.editAll es)))
      f.outcome.exit f'.outcome.exit

/-- The runs end alike, each with what passed by. -/
inductive SameEnd (lo : Supply) (passed passed' : List Resource) :
    Except Failure Filtered → Except Failure Filtered → Prop
  /-- Both fail with the same failure, which is no status of the function. -/
  | failed {failure : Failure} (h : failure.NotExit) :
      SameEnd lo passed passed' (.error failure) (.error failure)
  /-- The function fails in both. -/
  | exited {e e' : ExitFault} (h : SameExit passed passed' e e') :
      SameEnd lo passed passed' (.error (.fault (.exit e))) (.error (.fault (.exit e')))
  /-- Both give a collection. -/
  | returned {f f' : Filtered} (h : SameReturn lo passed passed' f f') :
      SameEnd lo passed passed' (.ok f) (.ok f')

theorem sameExit_exitFault (d : Descriptor) (i : Invocation) (passed passed' : List Resource) :
    SameExit passed passed' (exitFault d i passed) (exitFault d i passed') :=
  ⟨rfl, rfl, rfl, i.resources, rfl, rfl⟩

theorem SameExit.edit {passed passed' : List Resource} {e e' : ExitFault}
    (h : SameExit passed passed' e e') (es : List Edit) :
    SameExit (passed.map (·.editAll es)) (passed'.map (·.editAll es)) (editExit es e) (editExit es e') := by
  obtain ⟨output, he, he'⟩ := h.resources
  refine ⟨h.function, h.status, ?_, output.map (·.editAll es), ?_, ?_⟩
  · rw [editExit, editExit, h.results]
  · rw [editExit, he, List.map_append]
  · rw [editExit, he', List.map_append]

theorem rel_allowed (d : Descriptor) (i : Invocation) (passed passed' : List Resource)
    (es : List Edit) :
    Option.Rel (SameExit (passed.map (·.editAll es)) (passed'.map (·.editAll es)))
      ((allowed d i passed).map (editExit es)) ((allowed d i passed').map (editExit es)) := by
  unfold allowed
  split
  · exact .none
  · exact .some ((sameExit_exitFault d i passed passed').edit es)

theorem sameReturn_finish {lo : Supply} {scope : Path} {a : Provenance.Assignment} (d : Descriptor)
    (i : Invocation) (passed passed' : List Resource) (ha : ∀ e ∈ a.edits, e.Fresh lo) :
    SameReturn lo passed passed' (finish scope passed i (allowed d i passed) a)
      (finish scope passed' i (allowed d i passed') a) where
  results := rfl
  scope := rfl
  status := rfl
  deferred := by
    unfold finish allowed
    split <;> rfl
  payload := rfl
  resources := ⟨a.resources, rfl, rfl⟩
  exit := ⟨a.edits, ha, rel_allowed d i passed passed' a.edits⟩

/-! ### The same course -/

/-- A course that got as far as a partition is taken again, up to what passes by, with a part in
scope that is sent as the same text. -/
theorem Course.exists_sameEnd {scope : Path} {s s' : Scope.Split} {res : Except Failure Filtered}
    (h : Course inv child d rs w res w₁) (hw : w.Agrees w') (hdiv : Divides d rs scope s)
    (hdiv' : Divides d rs' scope s')
    (hpackage : (inv.package d s.inside w.supply).encode = (inv.package d s'.inside w'.supply).encode) :
    ∃ res' w₁', Course inv child d rs' w' res' w₁' ∧ w₁.Agrees w₁' ∧
      SameEnd w.supply s.outside s'.outside res res' := by
  have hdivided : (divided d scope s w).Agrees (divided d scope s' w') := hw.record _ _
  cases h with
  | noScope hscope => exact absurd (hdiv.scope_eq.symm.trans hscope) (by simp)
  | noSplit hscope hsplit =>
    obtain rfl := Except.ok.inj (hdiv.scope_eq.symm.trans hscope)
    exact absurd (hdiv.split_eq.symm.trans hsplit) (by simp)
  | notCalled hdiv₀ hcall =>
    obtain ⟨rfl, rfl⟩ := hdiv.unique hdiv₀
    obtain ⟨w₁', hcall', hw₁⟩ := hcall.exists_agrees hdivided hpackage
    exact ⟨_, w₁', .notCalled hdiv' hcall', hw₁, .failed hcall.notExit⟩
  | unstored hdiv₀ hcall hkeep =>
    obtain ⟨rfl, rfl⟩ := hdiv.unique hdiv₀
    obtain ⟨w₁', w₂', hcall', hkeep', hw₂⟩ := exists_agrees_kept hcall hkeep hdivided hpackage
    exact ⟨_, w₂', .unstored hdiv' hcall' hkeep', hw₂, .failed hkeep.not_storable.1⟩
  | failed hdiv₀ hcall hkeep hstatus hdefer =>
    obtain ⟨rfl, rfl⟩ := hdiv.unique hdiv₀
    obtain ⟨w₁', w₂', hcall', hkeep', hw₂⟩ := exists_agrees_kept hcall hkeep hdivided hpackage
    exact ⟨_, _, .failed hdiv' hcall' hkeep' hstatus hdefer, hw₂.record _ _,
      .exited (sameExit_exitFault d _ _ _)⟩
  | unplaced hdiv₀ hcall hkeep hjudge hpath hassign =>
    obtain ⟨rfl, rfl⟩ := hdiv.unique hdiv₀
    obtain ⟨w₁', w₂', hcall', hkeep', hw₂⟩ := exists_agrees_kept hcall hkeep hdivided hpackage
    rw [hw₂.supply] at hassign
    exact ⟨_, _, .unplaced hdiv' hcall' hkeep' hjudge hpath hassign, agrees_judged hw₂ d _ _ _,
      .failed (notExit_failure (fun _ _ => by simp) _)⟩
  | @returned _ _ i w₁ w₂ functionPath a hdiv₀ hcall hkeep hjudge hpath hassign =>
    obtain ⟨rfl, rfl⟩ := hdiv.unique hdiv₀
    obtain ⟨w₁', w₂', hcall', hkeep', hw₂⟩ := exists_agrees_kept hcall hkeep hdivided hpackage
    have hplaced := fresh_placed hcall hkeep hassign
    rw [hw₂.supply] at hassign
    exact ⟨_, _, .returned hdiv' hcall' hkeep' hjudge hpath hassign,
      ((agrees_judged hw₂ d i _ _).withSupply _).edit _ _,
      .returned (sameReturn_finish d i _ _ hplaced)⟩

/-- **Noninterference.** What is out of scope has no effect on anything but itself: with parts in
scope that are alike the same processes are started, the same files are written, and both runs end
alike. -/
theorem noninterference {scope scope' : Path} {s s' : Scope.Split}
    {res res' : Except Failure Filtered} (hw : w.Agrees w') (hdiv : Divides d rs scope s)
    (hdiv' : Divides d rs' scope' s')
    (halike : Alike (d.config.toList ++ s.inside) (d.config.toList ++ s'.inside))
    (h : (apply inv child d rs).exec w = (res, w₁))
    (h' : (apply inv child d rs').exec w' = (res', w₁')) :
    w₁.Agrees w₁' ∧ SameEnd w.supply s.outside s'.outside res res' := by
  obtain rfl := Except.ok.inj (hdiv.scope_eq.symm.trans hdiv'.scope_eq)
  have hpackage := Envelope.encode_pack halike inv.settings.keepReaderAnnotations w.supply w'.supply
  -- the second run can take the course of the first, and it takes only one
  obtain ⟨res₀, w₀, hcourse, hagrees, hend⟩ :=
    (exec_apply.1 h).exists_sameEnd hw hdiv hdiv' hpackage
  obtain ⟨rfl, rfl⟩ := Prod.mk.inj ((exec_apply.2 hcourse).symm.trans h')
  exact ⟨hagrees, hend⟩

/-- The places of a collection with the same resource in scope, made of other objects and behind
another resource. -/
def otherPlaces : List Resource := [Scope.located 20 "ops/c.yaml", Scope.located 30 "apps/a.yaml"]

theorem divides_twoPlaces : Divides belowApps twoPlaces "apps".toList
    ⟨[Scope.located 4 "apps/a.yaml"], [Scope.located 7 "web/b.yaml"]⟩ := ⟨by decide, by rfl⟩

theorem divides_otherPlaces : Divides belowApps otherPlaces "apps".toList
    ⟨[Scope.located 30 "apps/a.yaml"], [Scope.located 20 "ops/c.yaml"]⟩ := ⟨by decide, by rfl⟩

theorem alike_places : Alike (belowApps.config.toList ++ [Scope.located 4 "apps/a.yaml"])
    (belowApps.config.toList ++ [Scope.located 30 "apps/a.yaml"]) :=
  ⟨.same, .cons ⟨.same, rfl, rfl⟩ (.cons ⟨.moved 26, rfl, rfl⟩ .nil)⟩

/-- The function is kept from a resource in one directory, and from one in another. -/
theorem noninterference_of_elsewhere :
    Divides belowApps twoPlaces "apps".toList
        ⟨[Scope.located 4 "apps/a.yaml"], [Scope.located 7 "web/b.yaml"]⟩ ∧
      Divides belowApps otherPlaces "apps".toList
        ⟨[Scope.located 30 "apps/a.yaml"], [Scope.located 20 "ops/c.yaml"]⟩ ∧
      Alike (belowApps.config.toList ++ [Scope.located 4 "apps/a.yaml"])
        (belowApps.config.toList ++ [Scope.located 30 "apps/a.yaml"]) ∧
      ∃ res res' w₁ w₁',
        (apply usual (fun _ => .ended 1 [123, 125]) belowApps twoPlaces).exec
          { blank with supply := 40 } = (res, w₁) ∧
        (apply usual (fun _ => .ended 1 [123, 125]) belowApps otherPlaces).exec
          { blank with supply := 40 } = (res', w₁') ∧
        w₁.Agrees w₁' ∧
        SameEnd 40 [Scope.located 7 "web/b.yaml"] [Scope.located 20 "ops/c.yaml"] res res' := by
  obtain ⟨res, w₁, hcourse⟩ := exists_course usual (fun _ => .ended 1 [123, 125]) belowApps twoPlaces
    { blank with supply := 40 }
  obtain ⟨res', w₁', hcourse'⟩ := exists_course usual (fun _ => .ended 1 [123, 125]) belowApps
    otherPlaces { blank with supply := 40 }
  have h := exec_apply.2 hcourse
  have h' := exec_apply.2 hcourse'
  have hend := noninterference ⟨rfl, rfl, rfl⟩ divides_twoPlaces divides_otherPlaces alike_places h h'
  exact ⟨divides_twoPlaces, divides_otherPlaces, alike_places, res, res', w₁, w₁', h, h', hend⟩

/-! ### Tuples in common -/

/-- A resource that holds a list with a tuple of plain atoms. -/
def holding (first tuple : ObjectId) : Resource :=
  ⟨first, [(.text "k", .list (first + 1) [.tuple tuple [.text "a", .int 1]])]⟩

/-- Two resources that hold one tuple. -/
def oneTuple : List Resource := [holding 1 3, holding 4 3]

/-- Two resources that say the same, but hold a tuple each. -/
def twoTuples : List Resource := [holding 1 3, holding 4 6]

theorem encode_ne_of_tuples :
    (usual.package (executable false) oneTuple 10).encode.toOption ≠
      (usual.package (executable false) twoTuples 10).encode.toOption := by
  decide +kernel

/-- **A function can tell what resources share**: each of the resources is alike in both
collections, and none is out of scope, but the texts that are sent differ. -/
theorem told_apart_by_tuple :
    Divides (executable false) oneTuple Scope.global ⟨oneTuple, []⟩ ∧
      Divides (executable false) twoTuples Scope.global ⟨twoTuples, []⟩ ∧
      List.Forall₂ (fun r r' => Alike [r] [r']) oneTuple twoTuples ∧
      ∃ res res' w₁ w₁',
        (apply usual (fun _ => .ended 0 []) (executable false) oneTuple).exec
          { blank with supply := 10 } = (res, w₁) ∧
        (apply usual (fun _ => .ended 0 []) (executable false) twoTuples).exec
          { blank with supply := 10 } = (res', w₁') ∧
        w₁.calls ≠ w₁'.calls := by
  have hdiv : Divides (executable false) oneTuple Scope.global ⟨oneTuple, []⟩ := ⟨rfl, rfl⟩
  have hdiv' : Divides (executable false) twoTuples Scope.global ⟨twoTuples, []⟩ := ⟨rfl, rfl⟩
  have halike : List.Forall₂ (fun r r' => Alike [r] [r']) oneTuple twoTuples := by
    refine .cons ⟨.same, .cons ⟨.same, rfl, rfl⟩ .nil⟩ (.cons ⟨.double, .cons ⟨?_, ?_, ?_⟩ .nil⟩ .nil)
    -- the tuple of the second resource gets its own name, all else keeps its names
    · exact ⟨id, Function.injective_id, .double, id⟩
    · rfl
    · rfl
  obtain ⟨res, w₁, hcourse⟩ := exists_course usual (fun _ => .ended 0 []) (executable false) oneTuple
    { blank with supply := 10 }
  obtain ⟨res', w₁', hcourse'⟩ := exists_course usual (fun _ => .ended 0 []) (executable false)
    twoTuples { blank with supply := 10 }
  have h := exec_apply.2 hcourse
  have h' := exec_apply.2 hcourse'
  refine ⟨hdiv, hdiv', halike, res, res', w₁, w₁', h, h', fun hcalls => ?_⟩
  obtain ⟨payload, hpayload⟩ : ∃ payload,
      (usual.package (executable false) oneTuple 10).encode = .ok payload := ⟨_, rfl⟩
  obtain ⟨payload', hpayload'⟩ : ∃ payload,
      (usual.package (executable false) twoTuples 10).encode = .ok payload := ⟨_, rfl⟩
  rw [calls_of_apply (w := { blank with supply := 10 }) hdiv (command_executable false) hpayload h,
    calls_of_apply (w := { blank with supply := 10 }) hdiv' (command_executable false) hpayload' h']
    at hcalls
  have hrequest := List.singleton_inj.1 (List.append_cancel_left hcalls)
  have hsame : payload = payload' := congrArg Request.input hrequest
  refine encode_ne_of_tuples ?_
  rw [hpayload, hpayload', hsame]

end Filter

end ScopedFn
