import ScopedFn.Filter
import ScopedFn.Proofs.Run.Calls

/-!
# The courses of applying a function

Applying a function to a collection ends in one of seven ways: no scope, no partition, a call that
fails, results that cannot be stored, a status that counts as a failure, output that cannot be
given a provenance, or a collection.

* `Filter.Course` : these ways, with the world that each of them leaves;
* `Filter.exec_apply` : applying a function ends in one of these ways and in no other.
-/

set_option autoImplicit false

namespace ScopedFn

namespace Filter

variable {inv : Invoker} {child : Child} {d : Descriptor} {rs : List Resource} {w w' : World}
  {scope : Path} {s : Scope.Split}

/-- The scope of a function, and how it divides a collection. -/
structure Divides (d : Descriptor) (rs : List Resource) (scope : Path) (s : Scope.Split) : Prop where
  /-- The scope is told. -/
  scope_eq : Scope.functionScope d.config = .ok scope
  /-- The collection is divided by it. -/
  split_eq : Scope.split scope rs d.globalScope = .ok s

/-- What is done with the results of a function: they are stored if they have a file, and
recorded. -/
inductive Keeps (d : Descriptor) (w : World) :
    Option Resource → Except Failure Unit → World → Prop
  /-- There are no results. -/
  | nothing : Keeps d w none (.ok ()) w
  /-- They have no file. -/
  | recorded {results : Resource} (hfile : ∀ file, d.resultsFile = some file → file = "") :
      Keeps d w (some results) (.ok ()) (w.record (resultsRecord d results))
  /-- They cannot be stored. -/
  | unstored {results : Resource} {file : String} {failure : Failure}
      (hfile : d.resultsFile = some file) (hne : file ≠ "")
      (hstored : storedIn w.files results file = .error failure) :
      Keeps d w (some results) (.error failure) w
  /-- They are stored. -/
  | stored {results : Resource} {file name : String} {files : Files}
      (hfile : d.resultsFile = some file) (hne : file ≠ "")
      (hstored : storedIn w.files results file = .ok (name, files)) :
      Keeps d w (some results) (.ok ())
        ({ w with files := files }.record (resultsRecord d results))

/-- The failure that is allowed. -/
def allowed (d : Descriptor) (i : Invocation) (outside : List Resource) : Option ExitFault :=
  if i.succeeded then none else some (exitFault d i outside)

/-- The world after a failure was allowed, if there was one. -/
def judged (d : Descriptor) (i : Invocation) (outside : List Resource) (w : World) : World :=
  if i.succeeded then w else w.record (deferralRecord d (exitFault d i outside))

theorem judged_supply (d : Descriptor) (i : Invocation) (outside : List Resource) (w : World) :
    (judged d i outside w).supply = w.supply := by
  unfold judged
  split <;> rfl

theorem judged_calls (d : Descriptor) (i : Invocation) (outside : List Resource) (w : World) :
    (judged d i outside w).calls = w.calls := by
  unfold judged
  split <;> rfl

theorem judged_edits (d : Descriptor) (i : Invocation) (outside : List Resource) (w : World) :
    (judged d i outside w).edits = w.edits := by
  unfold judged
  split <;> rfl

/-- The world before a call. -/
def divided (d : Descriptor) (scope : Path) (s : Scope.Split) (w : World) : World :=
  w.record (scopeRecord d scope s)

/-- The ways in which applying a function ends. -/
inductive Course (inv : Invoker) (child : Child) (d : Descriptor) (rs : List Resource) (w : World) :
    Except Failure Filtered → World → Prop
  /-- The scope cannot be told. -/
  | noScope {cause : OrNoText MetaFault} (hscope : Scope.functionScope d.config = .error cause) :
      Course inv child d rs w (.error (cause.failure .scope)) w
  /-- The collection cannot be divided. -/
  | noSplit {scope : Path} {cause : OrNoText Scope.SplitFault}
      (hscope : Scope.functionScope d.config = .ok scope)
      (hsplit : Scope.split scope rs d.globalScope = .error cause) :
      Course inv child d rs w (.error (cause.failure fun f => .partition f.position f.fault)) w
  /-- The call fails. -/
  | notCalled {scope : Path} {s : Scope.Split} {failure : Failure} {w₁ : World}
      (hdiv : Divides d rs scope s)
      (hcall : Invoker.Calls inv child d s.inside (divided d scope s w) (.error failure) w₁) :
      Course inv child d rs w (.error failure) w₁
  /-- The results cannot be stored. -/
  | unstored {scope : Path} {s : Scope.Split} {i : Invocation} {failure : Failure} {w₁ w₂ : World}
      (hdiv : Divides d rs scope s)
      (hcall : Invoker.Calls inv child d s.inside (divided d scope s w) (.ok i) w₁)
      (hkeep : Keeps d (w₁.record (callRecord d i)) i.results (.error failure) w₂) :
      Course inv child d rs w (.error failure) w₂
  /-- The status counts as a failure. -/
  | failed {scope : Path} {s : Scope.Split} {i : Invocation} {w₁ w₂ : World}
      (hdiv : Divides d rs scope s)
      (hcall : Invoker.Calls inv child d s.inside (divided d scope s w) (.ok i) w₁)
      (hkeep : Keeps d (w₁.record (callRecord d i)) i.results (.ok ()) w₂)
      (hstatus : i.succeeded = false) (hdefer : d.deferFailure = false) :
      Course inv child d rs w (.error (.fault (.exit (exitFault d i s.outside))))
        (w₂.record (failureRecord d (exitFault d i s.outside)))
  /-- The output cannot be given a provenance. -/
  | unplaced {scope : Path} {s : Scope.Split} {i : Invocation} {w₁ w₂ : World}
      {functionPath : Option String} {cause : OrNoText MetaFault}
      (hdiv : Divides d rs scope s)
      (hcall : Invoker.Calls inv child d s.inside (divided d scope s w) (.ok i) w₁)
      (hkeep : Keeps d (w₁.record (callRecord d i)) i.results (.ok ()) w₂)
      (hjudge : i.succeeded = true ∨ d.deferFailure = true)
      (hpath : d.functionPath = .ok functionPath)
      (hassign : Provenance.assign scope functionPath i.resources w₂.supply = .error cause) :
      Course inv child d rs w (.error (cause.failure .metadata)) (judged d i s.outside w₂)
  /-- A collection is given. -/
  | returned {scope : Path} {s : Scope.Split} {i : Invocation} {w₁ w₂ : World}
      {functionPath : Option String} {a : Provenance.Assignment}
      (hdiv : Divides d rs scope s)
      (hcall : Invoker.Calls inv child d s.inside (divided d scope s w) (.ok i) w₁)
      (hkeep : Keeps d (w₁.record (callRecord d i)) i.results (.ok ()) w₂)
      (hjudge : i.succeeded = true ∨ d.deferFailure = true)
      (hpath : d.functionPath = .ok functionPath)
      (hassign : Provenance.assign scope functionPath i.resources w₂.supply = .ok a) :
      Course inv child d rs w (.ok (finish scope s.outside i (allowed d i s.outside) a))
        ({ judged d i s.outside w₂ with supply := a.supply }.edit a.edits)

/-! ### The parts of the course -/

theorem Divides.unique {scope' : Path} {s' : Scope.Split} (h : Divides d rs scope s)
    (h' : Divides d rs scope' s') : scope = scope' ∧ s = s' := by
  obtain rfl := Except.ok.inj (h.scope_eq.symm.trans h'.scope_eq)
  exact ⟨rfl, Except.ok.inj (h.split_eq.symm.trans h'.split_eq)⟩

theorem Divides.exec_divide (h : Divides d rs scope s) (w : World) :
    (divide d rs).exec w = (.ok (scope, s), divided d scope s w) := by
  simp only [divide, Run.exec_bind, h.scope_eq, h.split_eq, Run.exec_orFailure_ok, Run.exec_record]
  rfl

/-- A function whose scope is told has a path, or none, that can be read. -/
theorem exists_functionPath (h : Scope.functionScope d.config = .ok scope) :
    ∃ functionPath, d.functionPath = .ok functionPath := by
  rw [Descriptor.functionPath]
  cases hc : d.config with
  | none => exact ⟨_, rfl⟩
  | some config =>
    cases hm : config.getMeta with
    | error fault => simp [Scope.functionScope, hc, hm, bind, Except.bind] at h
    | ok m => exact ⟨m.path?, by simp [hm, Except.map]⟩

variable {i : Invocation} {results : Option Resource}

theorem storeResults_exec (r : Resource) (file : String) (w : World) :
    (storeResults r file).exec w =
      match storedIn w.files r file with
      | .ok (name, files) => (.ok name, { w with files := files })
      | .error failure => (.error failure, w) := by
  rw [storeResults, Run.exec_bind_ok (Run.exec_get w), Run.exec_bind, Run.exec_ofExcept]
  rcases storedIn w.files r file with failure | ⟨name, files⟩ <;> rfl

theorem Keeps.exec_eq {res : Except Failure Unit} (h : Keeps d w results res w') :
    (keepResults d results).exec w = (res, w') := by
  cases h with
  | nothing => rfl
  | recorded hfile =>
    cases hd : d.resultsFile with
    | none =>
      rw [keepResults, hd]
      rfl
    | some file =>
      obtain rfl := hfile file hd
      rw [keepResults, hd]
      rfl
  | unstored hfile hne hstored =>
    simp only [keepResults, hfile, Run.exec_bind, storeResults_exec, hstored]
  | stored hfile hne hstored =>
    simp only [keepResults, hfile, Run.exec_bind, storeResults_exec, hstored]
    rfl

theorem Keeps.calls_eq {res : Except Failure Unit} (h : Keeps d w results res w') :
    w'.calls = w.calls := by
  cases h <;> rfl

theorem Keeps.supply_eq {res : Except Failure Unit} (h : Keeps d w results res w') :
    w'.supply = w.supply := by
  cases h <;> rfl

theorem Keeps.edits_eq {res : Except Failure Unit} (h : Keeps d w results res w') :
    w'.edits = w.edits := by
  cases h <;> rfl

theorem exists_keeps (d : Descriptor) (results : Option Resource) (w : World) :
    ∃ res w', Keeps d w results res w' := by
  cases results with
  | none => exact ⟨_, _, .nothing⟩
  | some r =>
    cases hfile : d.resultsFile with
    | none => exact ⟨_, _, .recorded fun file h => by simp [hfile] at h⟩
    | some file =>
      by_cases hne : file = ""
      · exact ⟨_, _, .recorded fun file' h => by simpa [hfile, hne, eq_comm] using h⟩
      · rcases hstored : storedIn w.files r file with failure | ⟨name, files⟩
        · exact ⟨_, _, .unstored hfile hne hstored⟩
        · exact ⟨_, _, .stored hfile hne hstored⟩

theorem exec_judge_failed {outside : List Resource} (hstatus : i.succeeded = false)
    (hdefer : d.deferFailure = false) (w : World) :
    (judge d i outside).exec w = (.error (.fault (.exit (exitFault d i outside))),
      w.record (failureRecord d (exitFault d i outside))) := by
  simp [judge, hstatus, hdefer, Run.exec_bind]

theorem exec_judge_allowed {outside : List Resource}
    (hjudge : i.succeeded = true ∨ d.deferFailure = true) (w : World) :
    (judge d i outside).exec w = (.ok (allowed d i outside), judged d i outside w) := by
  by_cases hstatus : i.succeeded = true
  · simp [judge, allowed, judged, hstatus]
  · have hdefer := hjudge.resolve_left hstatus
    simp only [judge, allowed, judged, hstatus, hdefer, Bool.false_eq_true, Bool.not_true, ↓reduceIte,
      Run.exec_bind, Run.exec_record, Run.exec_pure]

theorem exec_call_error {failure : Failure} (hcall : Invoker.Calls inv child d rs w (.error failure) w') :
    (call inv child d rs).exec w = (.error failure, w') :=
  Run.exec_bind_error hcall.exec_eq

theorem exec_call {w₁ : World} {res : Except Failure Unit}
    (hcall : Invoker.Calls inv child d rs w (.ok i) w₁)
    (hkeep : Keeps d (w₁.record (callRecord d i)) i.results res w') :
    (call inv child d rs).exec w = (res.map fun _ => i, w') := by
  rw [call, Run.exec_bind_ok hcall.exec_eq, Run.exec_bind_ok (Run.exec_record _ _), Run.exec_bind,
    hkeep.exec_eq]
  cases res <;> rfl

theorem exec_annotate {functionPath : Option String} {output : List Resource}
    (hpath : d.functionPath = .ok functionPath) :
    (annotate scope d output).exec w =
      match Provenance.assign scope functionPath output w.supply with
      | .ok a => (.ok a, { w with supply := a.supply }.edit a.edits)
      | .error cause => (.error (cause.failure .metadata), w) := by
  rw [annotate, hpath, Run.exec_bind_ok (Run.exec_orFailure_ok _ _ _), Run.exec_bind_ok (Run.exec_get w)]
  rcases Provenance.assign scope functionPath output w.supply with fault | a <;> rfl

/-! ### The whole course -/

variable {res : Except Failure Filtered}

/-- Each course determines the whole. -/
theorem Course.exec_eq (h : Course inv child d rs w res w') :
    (apply inv child d rs).exec w = (res, w') := by
  cases h with
  | noScope hscope => simp [apply, divide, Run.exec_bind, hscope]
  | noSplit hscope hsplit => simp [apply, divide, Run.exec_bind, hscope, hsplit]
  | notCalled hdiv hcall =>
    rw [apply, Run.exec_bind_ok (hdiv.exec_divide w)]
    exact Run.exec_bind_error (exec_call_error hcall)
  | unstored hdiv hcall hkeep =>
    rw [apply, Run.exec_bind_ok (hdiv.exec_divide w)]
    exact Run.exec_bind_error (exec_call hcall hkeep)
  | failed hdiv hcall hkeep hstatus hdefer =>
    rw [apply, Run.exec_bind_ok (hdiv.exec_divide w)]
    dsimp only
    rw [Run.exec_bind_ok (exec_call hcall hkeep)]
    exact Run.exec_bind_error (exec_judge_failed hstatus hdefer _)
  | unplaced hdiv hcall hkeep hjudge hpath hassign =>
    rw [apply, Run.exec_bind_ok (hdiv.exec_divide w)]
    dsimp only
    rw [Run.exec_bind_ok (exec_call hcall hkeep), Run.exec_bind_ok (exec_judge_allowed hjudge _),
      Run.exec_bind, exec_annotate hpath]
    simp only [judged_supply, hassign]
  | returned hdiv hcall hkeep hjudge hpath hassign =>
    rw [apply, Run.exec_bind_ok (hdiv.exec_divide w)]
    dsimp only
    rw [Run.exec_bind_ok (exec_call hcall hkeep), Run.exec_bind_ok (exec_judge_allowed hjudge _),
      Run.exec_bind, exec_annotate hpath]
    simp only [judged_supply, hassign]
    rfl

/-- Applying a function takes some course. -/
theorem exists_course (inv : Invoker) (child : Child) (d : Descriptor) (rs : List Resource)
    (w : World) : ∃ res w', Course inv child d rs w res w' := by
  -- step by step, each of which ends the run or leads to the next one
  cases hscope : Scope.functionScope d.config with
  | error cause => exact ⟨_, _, .noScope hscope⟩
  | ok scope =>
  cases hsplit : Scope.split scope rs d.globalScope with
  | error cause => exact ⟨_, _, .noSplit hscope hsplit⟩
  | ok s =>
  have hdiv : Divides d rs scope s := ⟨hscope, hsplit⟩
  obtain ⟨called, w₁, hcall⟩ := Invoker.exists_calls inv child d s.inside (divided d scope s w)
  cases called with
  | error failure => exact ⟨_, _, .notCalled hdiv hcall⟩
  | ok i =>
  obtain ⟨kept, w₂, hkeep⟩ := exists_keeps d i.results (w₁.record (callRecord d i))
  cases kept with
  | error failure => exact ⟨_, _, .unstored hdiv hcall hkeep⟩
  | ok =>
  by_cases hjudge : i.succeeded = true ∨ d.deferFailure = true
  · obtain ⟨functionPath, hpath⟩ := exists_functionPath hscope
    cases hassign : Provenance.assign scope functionPath i.resources w₂.supply with
    | error cause => exact ⟨_, _, .unplaced hdiv hcall hkeep hjudge hpath hassign⟩
    | ok a => exact ⟨_, _, .returned hdiv hcall hkeep hjudge hpath hassign⟩
  · obtain ⟨hstatus, hdefer⟩ := not_or.1 hjudge
    exact ⟨_, _, .failed hdiv hcall hkeep (by simpa using hstatus) (by simpa using hdefer)⟩

/-- **The courses of applying a function.** -/
theorem exec_apply : (apply inv child d rs).exec w = (res, w') ↔ Course inv child d rs w res w' := by
  refine ⟨fun h => ?_, Course.exec_eq⟩
  obtain ⟨res₀, w₀, hcourse⟩ := exists_course inv child d rs w
  obtain ⟨rfl, rfl⟩ := Prod.mk.inj (h.symm.trans hcourse.exec_eq)
  exact hcourse

/-- With a scope, a partition, a command and a text to send, a process is started, or the attempt is
made. -/
theorem calls_of_apply {command : List String} {payload : String} (hdiv : Divides d rs scope s)
    (hcommand : inv.command d inv.environment = .ok command)
    (hpayload : (inv.package d s.inside w.supply).encode = .ok payload)
    (h : (apply inv child d rs).exec w = (res, w')) :
    w'.calls = w.calls ++ [inv.request command payload] := by
  have hcourse := exec_apply.1 h
  cases hcourse with
  | noScope hscope => exact absurd (hdiv.scope_eq.symm.trans hscope) (by simp)
  | noSplit hscope hsplit =>
    obtain rfl := Except.ok.inj (hdiv.scope_eq.symm.trans hscope)
    exact absurd (hdiv.split_eq.symm.trans hsplit) (by simp)
  | notCalled hdiv' hcall =>
    obtain ⟨rfl, rfl⟩ := hdiv.unique hdiv'
    exact hcall.calls_eq hcommand hpayload
  | unstored hdiv' hcall hkeep =>
    obtain ⟨rfl, rfl⟩ := hdiv.unique hdiv'
    rw [hkeep.calls_eq]
    exact hcall.calls_eq hcommand hpayload
  | failed hdiv' hcall hkeep =>
    obtain ⟨rfl, rfl⟩ := hdiv.unique hdiv'
    rw [World.record_calls, hkeep.calls_eq]
    exact hcall.calls_eq hcommand hpayload
  | unplaced hdiv' hcall hkeep =>
    obtain ⟨rfl, rfl⟩ := hdiv.unique hdiv'
    rw [judged_calls, hkeep.calls_eq]
    exact hcall.calls_eq hcommand hpayload
  | returned hdiv' hcall hkeep =>
    obtain ⟨rfl, rfl⟩ := hdiv.unique hdiv'
    rw [World.edit_calls, judged_calls, hkeep.calls_eq]
    exact hcall.calls_eq hcommand hpayload

end Filter

end ScopedFn
