import ScopedFn.Proofs.Filter.Frame
import ScopedFn.Proofs.RunLog

/-!
# The record of a run of functions

Functions are applied one after the other and share one record. What each application adds to it is
told by how far it got: the scope and the partition, the answer of the process, and the decision
about a status other than zero. Whatever fails behind an event leaves that event standing.

* `Filter.Application` : an application of a function, as it took place;
* `Filter.Stage` : how far an application gets, and the messages of its events;
* `Filter.Footprint`, `Filter.Application.Leaves` : what an application leaves behind;
* `Filter.exists_footprint` : the step, one application;
* `Filter.audit_trail` : the run, any number of applications.
-/

set_option autoImplicit false

namespace ScopedFn

namespace Filter

/-- Where results cannot be stored, nothing has changed. -/
theorem Keeps.eq_of_error {d : Descriptor} {results : Option Resource} {failure : Failure}
    {w w' : World} (h : Keeps d w results (.error failure) w') : w' = w := by
  cases h
  rfl

/-! ### Answers -/

/-- A process was started between two worlds, it ended with that status, and its output was read. -/
def Answers (child : Child) (w w' : World) (status : Int) (decoded : Envelope.Decoded) : Prop :=
  ∃ req output supply, w'.calls = w.calls ++ [req] ∧ child req = .ended status output ∧
    Invoker.readOutput status output w.supply = .ok (decoded, supply)

section

variable {inv : Invoker} {child : Child} {d : Descriptor} {rs : List Resource} {w w' w₁ : World}
  {scope : Path} {s : Scope.Split} {i : Invocation} {status : Int} {decoded : Envelope.Decoded}

theorem not_answers_of_calls_eq (h : w'.calls = w.calls) : ¬ Answers child w w' status decoded := by
  rintro ⟨req, output, supply, hcalls, -⟩
  exact absurd (List.self_eq_append_right.1 (h.symm.trans hcalls)) (by simp)

variable (hcalls : w'.calls = w₁.calls)

include hcalls

/-- A call that fails gives no answer. -/
theorem not_answers_of_call {failure : Failure}
    (hcall : Invoker.Calls inv child d rs (divided d scope s w) (.error failure) w₁) :
    ¬ Answers child w w' status decoded := by
  rintro ⟨req, output, supply, hsent, hchild, hread⟩
  obtain ⟨failure', hread', -⟩ | ⟨_, _, _, -, hres, -⟩ :=
    hcall.of_ended (hcalls.symm.trans hsent) hchild
  · exact absurd (hread.symm.trans hread') (by simp)
  · simp at hres

variable (hcall : Invoker.Calls inv child d rs (divided d scope s w) (.ok i) w₁)

include hcall

/-- The answer is the one that the call gave. -/
theorem Answers.eq_of_call (h : Answers child w w' status decoded) :
    status = i.status ∧ decoded.resources = i.resources ∧ decoded.results = i.results := by
  obtain ⟨req, output, supply, hsent, hchild, hread⟩ := h
  obtain ⟨decoded', payload, hread', rfl⟩ := hcall.ok_of_ended (hcalls.symm.trans hsent) hchild
  obtain rfl := congrArg Prod.fst (Except.ok.inj (hread.symm.trans hread'))
  exact ⟨rfl, rfl, rfl⟩

theorem exists_answers : ∃ decoded, Answers child w w' i.status decoded ∧
    decoded.resources = i.resources ∧ decoded.results = i.results := by
  cases hcall with
  | answered hcommand hpayload hchild hread =>
    exact ⟨_, ⟨_, _, _, hcalls, hchild, hread⟩, rfl, rfl⟩

end

/-! ### Applications -/

/-- How far the application of a function gets, as its events tell. -/
inductive Stage where
  /-- The scope is not told, or the collection not divided. -/
  | undivided
  /-- The collection is divided, but no process ended with an output that can be read. -/
  | divided
  /-- A process ended with an output that can be read, and no failure is reported. -/
  | answered
  /-- The status counts as a failure. -/
  | failed
  /-- The status is a failure that is allowed. -/
  | deferred
  deriving DecidableEq

/-- The messages of the events, first to last. -/
def Stage.messages : Stage → List String
  | undivided => []
  | divided => ["function scope resolved"]
  | answered => ["function scope resolved", "function invoked"]
  | failed => ["function scope resolved", "function invoked", "function failed"]
  | deferred => ["function scope resolved", "function invoked", "function failure deferred"]

theorem Stage.messages_injective : Function.Injective Stage.messages := by
  intro s t h
  cases s <;> cases t <;> first | rfl | simp [messages] at h

/-- An application of a function, as it took place. -/
structure Application where
  /-- How the function is called. -/
  invoker : Invoker
  /-- The program that runs. -/
  child : Child
  /-- The function. -/
  descriptor : Descriptor
  /-- The collection. -/
  resources : List Resource
  /-- The world before. -/
  before : World
  /-- What the application gives. -/
  result : Except Failure Filtered
  /-- The world after. -/
  after : World
  /-- This is what the application does. -/
  ran : (apply invoker child descriptor resources).exec before = (result, after)

/-- The application of a function in a world. -/
def Application.run (invoker : Invoker) (child : Child) (descriptor : Descriptor)
    (resources : List Resource) (before : World) : Application :=
  ⟨invoker, child, descriptor, resources, before, _, _, rfl⟩

/-- What an application leaves behind. -/
structure Footprint where
  /-- The function. -/
  function : String
  /-- The events it adds, first to last. -/
  events : List Details
  /-- The warnings it adds, first to last. -/
  warnings : List String
  /-- The keys of the artifacts it sets. -/
  artifacts : List String
  /-- The processes that it starts or tries to start. -/
  attempts : List Request

namespace Application

variable (a : Application)

/-- The scope is told and the collection divided. -/
def Divided : Prop := ∃ scope s, Divides a.descriptor a.resources scope s

/-- The command and the envelope for the resources in scope can be made. -/
def Sendable : Prop := ∃ scope s command payload, Divides a.descriptor a.resources scope s ∧
  a.invoker.command a.descriptor a.invoker.environment = .ok command ∧
  (a.invoker.package a.descriptor s.inside a.before.supply).encode = .ok payload

/-- A process was started, it ended with that status, and its output was read. -/
def Answered (status : Int) (decoded : Envelope.Decoded) : Prop :=
  Answers a.child a.before a.after status decoded

/-- The failure of the function is raised. -/
def Fails : Prop := ∃ e, a.result = .error (.fault (.exit e))

/-- The function answered with a status other than zero, it may fail, and its results, if there are
any, could be stored. -/
def Defers (status : Int) : Prop := ∃ decoded, a.Answered status decoded ∧ status ≠ 0 ∧
  a.descriptor.deferFailure = true ∧ Storable a.descriptor a.before.files decoded.results

/-- The function answered with results, and they could be stored. -/
def HasResults : Prop := ∃ status decoded, a.Answered status decoded ∧ decoded.results ≠ none ∧
  Storable a.descriptor a.before.files decoded.results

/-- The application gets exactly that far. -/
def At : Stage → Prop
  | .undivided => ¬ a.Divided
  | .divided => a.Divided ∧ ¬ ∃ status decoded, a.Answered status decoded
  | .answered => (∃ status decoded, a.Answered status decoded) ∧ ¬ a.Fails ∧
    ¬ ∃ status, a.Defers status
  | .failed => a.Fails
  | .deferred => ∃ status, a.Defers status

/-- What must be left behind by an application. -/
structure Leaves (runId : String) (t : Footprint) : Prop where
  /-- It is the footprint of this function. -/
  function : t.function = a.descriptor.identity
  /-- Every event tells the run and the function. -/
  named : ∀ event ∈ t.events, RunLog.fieldOf "run_id" event = some (.text runId) ∧
    RunLog.fieldOf "step_id" event = some (.text a.descriptor.identity)
  /-- The messages tell how far the application gets. -/
  messages : ∀ stage, a.At stage ↔
    t.events.map (RunLog.fieldOf "message") = stage.messages.map (some <| .text ·)
  /-- The event of the partition counts every resource once. -/
  counted : ∀ event ∈ t.events,
    RunLog.fieldOf "message" event = some (.text "function scope resolved") →
    ∃ inside outside : ℕ, RunLog.fieldOf "in_scope" event = some (.int inside) ∧
      RunLog.fieldOf "out_of_scope" event = some (.int outside) ∧
      inside + outside = a.resources.length
  /-- A failure that is allowed is warned of, with its status. -/
  warned : ∀ status, a.Defers status → t.warnings =
    ["function " ++ a.descriptor.identity ++ " exited with status " ++ toString status]
  /-- Nothing else is. -/
  unwarned : (¬ ∃ status, a.Defers status) → t.warnings = []
  /-- Results that are kept become an artifact. -/
  recorded : a.HasResults → t.artifacts = [a.descriptor.identity ++ ".results"]
  /-- Nothing else does. -/
  unrecorded : ¬ a.HasResults → t.artifacts = []
  /-- The processes that were started or tried. -/
  calls : a.after.calls = a.before.calls ++ t.attempts
  /-- A process is started if there is something to send. -/
  sent : a.Sendable → ∃ req, t.attempts = [req]
  /-- Otherwise none is. -/
  unsent : ¬ a.Sendable → t.attempts = []

end Application

/-- A record that has grown by what applications left behind, and in no other way but by edits of
the artifacts. -/
structure Grows (ts : List Footprint) (l l' : RunLog) : Prop where
  /-- It is the record of the same run. -/
  runId : l'.runId = l.runId
  /-- The events are only added to. -/
  events : l'.events = l.events ++ ts.flatMap (·.events)
  /-- So are the warnings of each function. -/
  warnings : ∀ function, l'.warningsOf? function = RunLog.added (l.warningsOf? function)
    ((ts.filter (·.function == function)).flatMap (·.warnings))
  /-- And so are the artifacts. -/
  artifacts : ∀ key, l'.hasArtifact key = true ↔
    l.hasArtifact key = true ∨ key ∈ ts.flatMap (·.artifacts)

/-! ### How far an application gets -/

namespace Application

variable {a : Application}

/-- What is known of the stage of an application. -/
structure Reaches (a : Application) (stage : Stage) : Prop where
  /-- Whether the collection is divided. -/
  divided : a.Divided ↔ stage ≠ .undivided
  /-- Whether the function answered. -/
  answered : (∃ status decoded, a.Answered status decoded) ↔ stage ≠ .undivided ∧ stage ≠ .divided
  /-- Whether a failure is raised. -/
  fails : a.Fails ↔ stage = .failed
  /-- Whether a failure is allowed. -/
  defers : (∃ status, a.Defers status) ↔ stage = .deferred

/-- An application gets to one stage only. -/
theorem Reaches.at_iff {stage : Stage} (h : a.Reaches stage) (t : Stage) : a.At t ↔ t = stage := by
  cases t <;> cases stage <;> simp [At, h.divided, h.answered, h.fails, h.defers]

theorem not_defers_of_not_answered (h : ¬ ∃ status decoded, a.Answered status decoded) :
    ¬ ∃ status, a.Defers status := fun ⟨status, decoded, hanswered, _⟩ =>
  h ⟨status, decoded, hanswered⟩

theorem not_hasResults_of_not_answered (h : ¬ ∃ status decoded, a.Answered status decoded) :
    ¬ a.HasResults := fun ⟨status, decoded, hanswered, _⟩ => h ⟨status, decoded, hanswered⟩

theorem not_fails_of_notExit {failure : Failure} (h : failure.NotExit)
    (hres : a.result = .error failure) : ¬ a.Fails :=
  fun ⟨e, he⟩ => h e (Except.error.inj (hres.symm.trans he))

variable {scope : Path} {s : Scope.Split} {i : Invocation} {w₁ : World}

section

variable (hcalls : a.after.calls = w₁.calls)

include hcalls

variable (hcall : Invoker.Calls a.invoker a.child a.descriptor s.inside
  (Filter.divided a.descriptor scope s a.before) (.ok i) w₁)

include hcall

theorem defers_iff (status : Int) : a.Defers status ↔ status = i.status ∧ i.succeeded = false ∧
    a.descriptor.deferFailure = true ∧ Storable a.descriptor a.before.files i.results := by
  constructor
  · rintro ⟨decoded, hanswered, hne, hdefer, hstorable⟩
    obtain ⟨rfl, -, hresults⟩ := hanswered.eq_of_call hcalls hcall
    exact ⟨rfl, by simpa [Invocation.succeeded] using hne, hdefer, hresults ▸ hstorable⟩
  · rintro ⟨rfl, hne, hdefer, hstorable⟩
    obtain ⟨decoded, hanswered, -, hresults⟩ := exists_answers hcalls hcall
    have hstatus : i.status ≠ 0 := by simpa [Invocation.succeeded] using hne
    exact ⟨decoded, hanswered, hstatus, hdefer, hresults ▸ hstorable⟩

theorem hasResults_iff :
    a.HasResults ↔ i.results ≠ none ∧ Storable a.descriptor a.before.files i.results := by
  constructor
  · rintro ⟨status, decoded, hanswered, hne, hstorable⟩
    rw [← (hanswered.eq_of_call hcalls hcall).2.2]
    exact ⟨hne, hstorable⟩
  · rintro ⟨hne, hstorable⟩
    obtain ⟨decoded, hanswered, -, hresults⟩ := exists_answers hcalls hcall
    exact ⟨_, decoded, hanswered, hresults ▸ hne, hresults ▸ hstorable⟩

end

/-! ### What is sent -/

/-- The processes that an application starts or tries to start. -/
structure Attempts (a : Application) (attempts : List Request) : Prop where
  /-- They come behind those of before. -/
  calls : a.after.calls = a.before.calls ++ attempts
  /-- There is one if there is something to send. -/
  sent : a.Sendable → ∃ req, attempts = [req]
  /-- Otherwise there is none. -/
  unsent : ¬ a.Sendable → attempts = []

theorem attempts_nil (hcalls : a.after.calls = a.before.calls) (h : ¬ a.Sendable) : a.Attempts [] :=
  ⟨by rw [hcalls, List.append_nil], fun hsend => absurd hsend h, fun _ => rfl⟩

theorem exists_attempts {called : Except Failure Invocation}
    (hdiv : Divides a.descriptor a.resources scope s)
    (hcall : Invoker.Calls a.invoker a.child a.descriptor s.inside
      (Filter.divided a.descriptor scope s a.before) called w₁)
    (hcalls : a.after.calls = w₁.calls) : ∃ attempts, a.Attempts attempts := by
  have hone : ∀ {command : List String} {payload : String},
      a.invoker.command a.descriptor a.invoker.environment = .ok command →
      (a.invoker.package a.descriptor s.inside a.before.supply).encode = .ok payload →
      a.Attempts [a.invoker.request command payload] := fun hcommand hpayload =>
    ⟨hcalls.trans (hcall.calls_eq hcommand hpayload), fun _ => ⟨_, rfl⟩,
      fun hsend => absurd ⟨scope, s, _, _, hdiv, hcommand, hpayload⟩ hsend⟩
  cases hcall with
  | noCommand hcommand =>
    refine ⟨[], attempts_nil hcalls ?_⟩
    rintro ⟨_, _, _, _, _, hcommand', _⟩
    exact absurd (hcommand.symm.trans hcommand') (by simp)
  | noPayload hcommand hpayload =>
    refine ⟨[], attempts_nil hcalls ?_⟩
    rintro ⟨_, _, _, _, hdiv', _, hpayload'⟩
    obtain ⟨rfl, rfl⟩ := hdiv.unique hdiv'
    exact absurd (hpayload.symm.trans hpayload') (by simp)
  | refused hcommand hpayload | unreadable hcommand hpayload | answered hcommand hpayload =>
    exact ⟨_, hone hcommand hpayload⟩

/-! ### What is recorded -/

theorem text_injective : Function.Injective fun m => some (Value.text m) := fun m m' h => by
  simpa using h

/-- What is said of every event of an application. -/
structure EventOf (a : Application) (runId : String) (event : Details) : Prop where
  /-- It tells the run. -/
  run : RunLog.fieldOf "run_id" event = some (.text runId)
  /-- It tells the function. -/
  function : RunLog.fieldOf "step_id" event = some (.text a.descriptor.identity)
  /-- If it is the event of the partition, it counts every resource once. -/
  counted : RunLog.fieldOf "message" event = some (.text "function scope resolved") →
    ∃ inside outside : ℕ, RunLog.fieldOf "in_scope" event = some (.int inside) ∧
      RunLog.fieldOf "out_of_scope" event = some (.int outside) ∧
      inside + outside = a.resources.length

/-- What one part of an application adds to a record: events with these messages, these warnings of
the function, and artifacts with these keys. -/
structure Adds (a : Application) (messages warnings artifacts : List String) (l l' : RunLog) :
    Prop where
  /-- It is the record of the same run. -/
  runId : l'.runId = l.runId
  /-- The events come behind those of before. -/
  events : ∃ es, l'.events = l.events ++ es ∧ (∀ e ∈ es, a.EventOf l.runId e) ∧
    es.map (RunLog.fieldOf "message") = messages.map (some <| .text ·)
  /-- No other function gets a warning. -/
  warnings : ∀ function, l'.warningsOf? function = RunLog.added (l.warningsOf? function)
    (if function = a.descriptor.identity then warnings else [])
  /-- No artifact is lost. -/
  artifacts : ∀ key, l'.hasArtifact key = true ↔ l.hasArtifact key = true ∨ key ∈ artifacts

theorem Adds.trans {ms ms' ws ws' ks ks' : List String} {l l' l'' : RunLog}
    (h : a.Adds ms ws ks l l') (h' : a.Adds ms' ws' ks' l' l'') :
    a.Adds (ms ++ ms') (ws ++ ws') (ks ++ ks') l l'' where
  runId := h'.runId.trans h.runId
  events := by
    obtain ⟨es, hes, hall, hmessages⟩ := h.events
    obtain ⟨es', hes', hall', hmessages'⟩ := h'.events
    rw [h.runId] at hall'
    refine ⟨es ++ es', by rw [hes', hes, List.append_assoc],
      List.forall_mem_append.2 ⟨hall, hall'⟩, ?_⟩
    rw [List.map_append, List.map_append, hmessages, hmessages']
  warnings function := by
    rw [h'.warnings, h.warnings, ← RunLog.added_append]
    split <;> rfl
  artifacts key := by
    rw [h'.artifacts, h.artifacts, List.mem_append, or_assoc]

/-- What changes neither events nor warnings, and of the artifacts only what they hold. -/
theorem adds_nothing {l l' : RunLog} (hrun : l'.runId = l.runId) (hevents : l'.events = l.events)
    (hwarnings : l'.warnings = l.warnings) (hkeys : ∀ key, l'.hasArtifact key = l.hasArtifact key) :
    a.Adds [] [] [] l l' where
  runId := hrun
  events := ⟨[], by rw [hevents, List.append_nil], nofun, rfl⟩
  warnings function := by simp [RunLog.added, RunLog.warningsOf?, hwarnings]
  artifacts key := by simp [hkeys]

theorem adds_editAll (es : List Edit) (l : RunLog) : a.Adds [] [] [] l (l.editAll es) :=
  adds_nothing rfl rfl rfl fun _ => RunLog.editAll_hasArtifact _ _

variable {message level : String} {extra : Details} {l : RunLog}

/-- An event is added. Its further fields do not hide the run, the function and the message. -/
theorem adds_log (hextra : ∀ name ∈ ["run_id", "step_id", "message"], name ∉ extra.map (·.1))
    (hcounted : message = "function scope resolved" →
      ∃ inside outside : ℕ,
        RunLog.fieldOf "in_scope" (l.event a.descriptor.identity level message extra) =
          some (.int inside) ∧
        RunLog.fieldOf "out_of_scope" (l.event a.descriptor.identity level message extra) =
          some (.int outside) ∧
        inside + outside = a.resources.length) :
    a.Adds [message] [] [] l (l.log a.descriptor.identity level message extra) where
  runId := rfl
  events := by
    have hmessage : RunLog.fieldOf "message" (l.event a.descriptor.identity level message extra) =
        some (.text message) := RunLog.fieldOf_event (hextra _ (by simp))
    refine ⟨_, RunLog.log_events, fun e he => ?_, congrArg (fun v => [v]) hmessage⟩
    obtain rfl := List.mem_singleton.1 he
    refine ⟨RunLog.fieldOf_event (hextra _ (by simp)), RunLog.fieldOf_event (hextra _ (by simp)),
      fun hscope => hcounted ?_⟩
    exact text_injective (hmessage.symm.trans hscope)
  warnings function := by simp [RunLog.added]
  artifacts key := by simp

theorem adds_warn (l : RunLog) :
    a.Adds [] [message] [] l (l.warn a.descriptor.identity message) where
  runId := rfl
  events := ⟨[], (List.append_nil _).symm, nofun, rfl⟩
  warnings function := RunLog.warn_warningsOf? function
  artifacts key := by simp

theorem adds_scopeRecord (hdiv : Divides a.descriptor a.resources scope s) (l : RunLog) :
    a.Adds ["function scope resolved"] [] [] l (scopeRecord a.descriptor scope s l) := by
  refine adds_log (by simp) fun _ => ⟨s.inside.length, s.outside.length, rfl, rfl, ?_⟩
  rw [← List.length_append]
  exact (Scope.perm_of_split hdiv.split_eq).length_eq

theorem adds_callRecord (i : Invocation) (l : RunLog) :
    a.Adds ["function invoked"] [] [] l (callRecord a.descriptor i l) :=
  adds_log (by simp [Config.PayloadMeta.toDetails]) (by simp)

theorem adds_resultsRecord (results : Resource) (l : RunLog) :
    a.Adds [] [] [a.descriptor.identity ++ ".results"] l
      (resultsRecord a.descriptor results l) where
  runId := rfl
  events := ⟨[], (List.append_nil _).symm, nofun, rfl⟩
  warnings function := by simp [RunLog.added, resultsRecord]
  artifacts key := by
    rw [resultsRecord, RunLog.setArtifact_hasArtifact, Bool.or_eq_true, beq_iff_eq,
      List.mem_singleton, @eq_comm _ key]

theorem adds_failureRecord (e : ExitFault) (l : RunLog) :
    a.Adds ["function failed"] [] [] l (failureRecord a.descriptor e l) :=
  adds_log (by simp [exitDetails]) (by simp)

theorem adds_deferralRecord (e : ExitFault) (l : RunLog) :
    a.Adds ["function failure deferred"] [e.message] [] l (deferralRecord a.descriptor e l) :=
  (adds_log (by simp [exitDetails]) (by simp)).trans (adds_warn _)

/-- What one part of an application adds to the record that is kept. -/
def AddsIn (a : Application) (messages warnings artifacts : List String) (w w' : World) : Prop :=
  ∀ l, w.log = some l → ∃ l', w'.log = some l' ∧ a.Adds messages warnings artifacts l l'

theorem AddsIn.trans {ms ms' ws ws' ks ks' : List String} {w w' w'' : World}
    (h : a.AddsIn ms ws ks w w') (h' : a.AddsIn ms' ws' ks' w' w'') :
    a.AddsIn (ms ++ ms') (ws ++ ws') (ks ++ ks') w w'' := by
  intro l hl
  obtain ⟨l', hl', hadds⟩ := h l hl
  obtain ⟨l'', hl'', hadds'⟩ := h' l' hl'
  exact ⟨l'', hl'', hadds.trans hadds'⟩

theorem addsIn_of_log_eq {w w' : World} (h : w'.log = w.log) : a.AddsIn [] [] [] w w' :=
  fun l hl => ⟨l, h.trans hl, adds_nothing rfl rfl rfl fun _ => rfl⟩

theorem addsIn_record {ms ws ks : List String} {f : RunLog → RunLog}
    (h : ∀ l, a.Adds ms ws ks l (f l)) (w : World) : a.AddsIn ms ws ks w (w.record f) :=
  fun l hl => ⟨f l, by rw [World.record, hl]; rfl, h l⟩

theorem addsIn_edit (es : List Edit) (w : World) : a.AddsIn [] [] [] w (w.edit es) :=
  addsIn_record (adds_editAll es) w

theorem addsIn_calls {inv : Invoker} {child : Child} {d : Descriptor} {rs : List Resource}
    {w w' : World} {called : Except Failure Invocation}
    (h : Invoker.Calls inv child d rs w called w') : a.AddsIn [] [] [] w w' := by
  cases h with
  | noCommand => exact addsIn_of_log_eq rfl
  | noPayload | refused | unreadable | answered => exact addsIn_edit _ w

/-- The key of the artifact that results become. -/
def resultKeys (a : Application) (results : Option Resource) : List String :=
  if results.isSome then [a.descriptor.identity ++ ".results"] else []

theorem addsIn_keeps {results : Option Resource} {w w' : World}
    (h : Keeps a.descriptor w results (.ok ()) w') :
    a.AddsIn [] [] (a.resultKeys results) w w' := by
  cases h with
  | nothing => exact addsIn_of_log_eq rfl
  | recorded => exact addsIn_record (adds_resultsRecord _) w
  | stored => exact addsIn_record (adds_resultsRecord _) { w with files := _ }

/-- The message of the event of an allowed failure, if there was one. -/
def deferralMessages (i : Invocation) : List String :=
  if i.succeeded then [] else ["function failure deferred"]

/-- The warning of an allowed failure, if there was one. -/
def deferralWarnings (a : Application) (i : Invocation) : List String :=
  if i.succeeded then []
  else ["function " ++ a.descriptor.identity ++ " exited with status " ++ toString i.status]

theorem addsIn_judged (i : Invocation) (outside : List Resource) (w : World) :
    a.AddsIn (deferralMessages i) (a.deferralWarnings i) [] w
      (judged a.descriptor i outside w) := by
  by_cases h : i.succeeded = true
  · simp only [judged, deferralMessages, deferralWarnings, h, ↓reduceIte]
    exact addsIn_of_log_eq rfl
  · simp only [judged, deferralMessages, deferralWarnings, h, Bool.false_eq_true, ↓reduceIte]
    exact addsIn_record (adds_deferralRecord (exitFault a.descriptor i outside)) w

/-- What is added up to the call. -/
theorem addsIn_called {called : Except Failure Invocation}
    (hdiv : Divides a.descriptor a.resources scope s)
    (hcall : Invoker.Calls a.invoker a.child a.descriptor s.inside
      (Filter.divided a.descriptor scope s a.before) called w₁) :
    a.AddsIn Stage.divided.messages [] [] a.before w₁ :=
  (addsIn_record (adds_scopeRecord hdiv) _).trans (addsIn_calls hcall)

/-- What is added up to the event of the call. -/
theorem addsIn_answered (hdiv : Divides a.descriptor a.resources scope s)
    (hcall : Invoker.Calls a.invoker a.child a.descriptor s.inside
      (Filter.divided a.descriptor scope s a.before) (.ok i) w₁) :
    a.AddsIn Stage.answered.messages [] [] a.before (w₁.record (callRecord a.descriptor i)) :=
  (addsIn_called hdiv hcall).trans (addsIn_record (adds_callRecord i) _)

/-! ### One application -/

/-- Where the stage is known, and what is added and sent, the footprint is known. -/
theorem exists_leaves (stage : Stage) {warnings artifacts : List String} {attempts : List Request}
    (hreach : a.Reaches stage) (hadds : a.AddsIn stage.messages warnings artifacts a.before a.after)
    (hattempts : a.Attempts attempts)
    (hwarned : ∀ status, a.Defers status → warnings =
      ["function " ++ a.descriptor.identity ++ " exited with status " ++ toString status])
    (hunwarned : (¬ ∃ status, a.Defers status) → warnings = [])
    (hrecorded : a.HasResults → artifacts = [a.descriptor.identity ++ ".results"])
    (hunrecorded : ¬ a.HasResults → artifacts = []) (hl : a.before.log = some l) :
    ∃ l' t, a.after.log = some l' ∧ Grows [t] l l' ∧ a.Leaves l.runId t := by
  obtain ⟨l', hl', hadds⟩ := hadds l hl
  obtain ⟨es, hes, hall, hmessages⟩ := hadds.events
  refine ⟨l', ⟨a.descriptor.identity, es, warnings, artifacts, attempts⟩, hl', ?_, ?_⟩
  · refine ⟨hadds.runId, by simpa using hes, fun function => ?_, fun key => ?_⟩
    · rw [hadds.warnings]
      by_cases h : function = a.descriptor.identity
      · simp [h]
      · simp [h, Ne.symm h]
    · simpa using hadds.artifacts key
  · refine ⟨rfl, fun e he => ⟨(hall e he).run, (hall e he).function⟩, fun t => ?_,
      fun e he => (hall e he).counted, hwarned, hunwarned, hrecorded, hunrecorded, hattempts.calls,
      hattempts.sent, hattempts.unsent⟩
    rw [hreach.at_iff, hmessages, (List.map_injective_iff.2 text_injective).eq_iff,
      Stage.messages_injective.eq_iff, eq_comm]

/-- Before there is an answer, nothing is warned of and no results are kept. -/
theorem exists_leaves_of_not_answered (stage : Stage) {attempts : List Request}
    (hreach : a.Reaches stage) (hnot : ¬ ∃ status decoded, a.Answered status decoded)
    (hadds : a.AddsIn stage.messages [] [] a.before a.after) (hattempts : a.Attempts attempts)
    (hl : a.before.log = some l) :
    ∃ l' t, a.after.log = some l' ∧ Grows [t] l l' ∧ a.Leaves l.runId t :=
  exists_leaves stage hreach hadds hattempts
    (fun status hdefers => absurd ⟨status, hdefers⟩ (not_defers_of_not_answered hnot))
    (fun _ => rfl) (fun h => absurd h (not_hasResults_of_not_answered hnot)) (fun _ => rfl) hl

theorem exists_leaves_of_not_divided (hnot : ¬ a.Divided) (hafter : a.after = a.before)
    (hfails : ¬ a.Fails) (hl : a.before.log = some l) :
    ∃ l' t, a.after.log = some l' ∧ Grows [t] l l' ∧ a.Leaves l.runId t := by
  have hanswered : ¬ ∃ status decoded, a.Answered status decoded := fun ⟨_, _, h⟩ =>
    not_answers_of_calls_eq (congrArg World.calls hafter) h
  refine exists_leaves_of_not_answered .undivided ?_ hanswered
    (addsIn_of_log_eq (congrArg World.log hafter))
    (attempts_nil (congrArg World.calls hafter)
      fun ⟨scope, s, _, _, hdiv, _⟩ => hnot ⟨scope, s, hdiv⟩) hl
  exact ⟨by simp [hnot], by simp [hanswered], by simp [hfails],
    by simp [not_defers_of_not_answered hanswered]⟩

section

variable (hdiv : Divides a.descriptor a.resources scope s)
  (hcall : Invoker.Calls a.invoker a.child a.descriptor s.inside
    (Filter.divided a.descriptor scope s a.before) (.ok i) w₁)
  (hcalls : a.after.calls = w₁.calls)

include hdiv hcall hcalls

/-- Results that cannot be stored end the application behind the event of the call. -/
theorem exists_leaves_of_not_storable
    (hnot : ¬ Storable a.descriptor a.before.files i.results)
    (hlog : a.after.log = (w₁.record (callRecord a.descriptor i)).log) (hfails : ¬ a.Fails)
    (hl : a.before.log = some l) :
    ∃ l' t, a.after.log = some l' ∧ Grows [t] l l' ∧ a.Leaves l.runId t := by
  obtain ⟨attempts, hattempts⟩ := exists_attempts hdiv hcall hcalls
  obtain ⟨decoded, hanswered, -⟩ := exists_answers hcalls hcall
  have hdefers : ¬ ∃ status, a.Defers status := fun ⟨status, h⟩ =>
    hnot ((defers_iff hcalls hcall status).1 h).2.2.2
  have hresults : ¬ a.HasResults := fun h => hnot ((hasResults_iff hcalls hcall).1 h).2
  refine exists_leaves .answered ?_
    ((addsIn_answered hdiv hcall).trans (addsIn_of_log_eq hlog)) hattempts
    (fun status h => absurd ⟨status, h⟩ hdefers) (fun _ => rfl) (fun h => absurd h hresults)
    (fun _ => rfl) hl
  exact ⟨iff_of_true ⟨scope, s, hdiv⟩ (by simp), iff_of_true ⟨_, _, hanswered⟩ (by simp),
    iff_of_false hfails (by simp), iff_of_false hdefers (by simp)⟩

variable {w₂ : World}
  (hkeep : Keeps a.descriptor (w₁.record (callRecord a.descriptor i)) i.results (.ok ()) w₂)

include hkeep

/-- Behind results that are kept, the status decides. -/
theorem exists_leaves_of_keeps (stage : Stage) {messages warnings : List String}
    (hadds : a.AddsIn messages warnings [] w₂ a.after)
    (hmessages : stage.messages = Stage.answered.messages ++ messages)
    (hfails : a.Fails ↔ stage = .failed)
    (hdefers : i.succeeded = false ∧ a.descriptor.deferFailure = true ↔ stage = .deferred)
    (hwarned : warnings = if stage = .deferred then
      ["function " ++ a.descriptor.identity ++ " exited with status " ++ toString i.status] else [])
    (hl : a.before.log = some l) :
    ∃ l' t, a.after.log = some l' ∧ Grows [t] l l' ∧ a.Leaves l.runId t := by
  obtain ⟨attempts, hattempts⟩ := exists_attempts hdiv hcall hcalls
  obtain ⟨decoded, hanswered, -⟩ := exists_answers hcalls hcall
  have hstorable : Storable a.descriptor a.before.files i.results := by
    have h := hkeep.storable
    rwa [World.record_files, hcall.files_eq] at h
  have hstatus : ∀ status, a.Defers status ↔ status = i.status ∧ stage = .deferred := by
    intro status
    rw [defers_iff hcalls hcall, ← hdefers]
    simp [hstorable]
  have hall : a.AddsIn stage.messages warnings (a.resultKeys i.results) a.before a.after := by
    rw [hmessages]
    simpa using ((addsIn_answered hdiv hcall).trans (addsIn_keeps hkeep)).trans hadds
  refine exists_leaves stage ?_ hall hattempts (fun status h => ?_) (fun h => ?_) (fun h => ?_)
    (fun h => ?_) hl
  · refine ⟨iff_of_true ⟨scope, s, hdiv⟩ ?_, iff_of_true ⟨_, _, hanswered⟩ ?_, hfails, ?_⟩
    · rintro rfl
      simp [Stage.messages] at hmessages
    · constructor <;> rintro rfl <;> simp [Stage.messages] at hmessages
    · simp [hstatus]
  · obtain ⟨rfl, hdeferred⟩ := (hstatus status).1 h
    rw [hwarned, if_pos hdeferred]
  · rw [hwarned, if_neg fun hdeferred => h ⟨_, (hstatus _).2 ⟨rfl, hdeferred⟩⟩]
  · rw [resultKeys, if_pos (Option.isSome_iff_ne_none.2 ((hasResults_iff hcalls hcall).1 h).1)]
  · have hnone : ¬ i.results.isSome := fun hsome =>
      h ((hasResults_iff hcalls hcall).2 ⟨Option.isSome_iff_ne_none.1 hsome, hstorable⟩)
    rw [resultKeys, if_neg hnone]

/-- A failure that is allowed does not end the application, whatever becomes of the output. -/
theorem exists_leaves_of_judged (hjudge : i.succeeded = true ∨ a.descriptor.deferFailure = true)
    (hafter : a.AddsIn [] [] [] (judged a.descriptor i s.outside w₂) a.after) (hfails : ¬ a.Fails)
    (hl : a.before.log = some l) :
    ∃ l' t, a.after.log = some l' ∧ Grows [t] l l' ∧ a.Leaves l.runId t := by
  have hadds := (addsIn_judged i s.outside w₂).trans hafter
  by_cases hstatus : i.succeeded = true
  · refine exists_leaves_of_keeps hdiv hcall hcalls hkeep .answered hadds ?_ ?_ ?_ ?_ hl
    · simp [deferralMessages, hstatus]
    · simpa using hfails
    · simp [hstatus]
    · simp [deferralWarnings, hstatus]
  · refine exists_leaves_of_keeps hdiv hcall hcalls hkeep .deferred hadds ?_ ?_ ?_ ?_ hl
    · simp [deferralMessages, hstatus, Stage.messages]
    · simpa using hfails
    · simp [hstatus, hjudge.resolve_left hstatus]
    · simp [deferralWarnings, hstatus]

end

/-- **One application.** What it leaves in the record is told by how far it gets. -/
theorem exists_footprint (a : Application) (hl : a.before.log = some l) :
    ∃ l' t, a.after.log = some l' ∧ Grows [t] l l' ∧ a.Leaves l.runId t := by
  have hcourse := exec_apply.1 a.ran
  obtain ⟨res, hres⟩ : ∃ res, a.result = res := ⟨_, rfl⟩
  obtain ⟨w', hafter⟩ : ∃ w', a.after = w' := ⟨_, rfl⟩
  rw [hres, hafter] at hcourse
  cases hcourse with
  | noScope hscope =>
    refine exists_leaves_of_not_divided ?_ hafter (not_fails_of_notExit (notExit_failure (fun _ _ => by simp) _) hres) hl
    rintro ⟨scope, s, hdiv⟩
    exact absurd (hdiv.scope_eq.symm.trans hscope) (by simp)
  | noSplit hscope hsplit =>
    refine exists_leaves_of_not_divided ?_ hafter (not_fails_of_notExit (notExit_failure (fun _ _ => by simp) _) hres) hl
    rintro ⟨scope, s, hdiv⟩
    obtain rfl := Except.ok.inj (hdiv.scope_eq.symm.trans hscope)
    exact absurd (hdiv.split_eq.symm.trans hsplit) (by simp)
  | notCalled hdiv hcall =>
    have hcalls := congrArg World.calls hafter
    obtain ⟨attempts, hattempts⟩ := exists_attempts hdiv hcall hcalls
    have hanswered : ¬ ∃ status decoded, a.Answered status decoded := fun ⟨_, _, h⟩ =>
      not_answers_of_call hcalls hcall h
    refine exists_leaves_of_not_answered .divided ?_ hanswered
      ((addsIn_called hdiv hcall).trans (addsIn_of_log_eq (congrArg World.log hafter))) hattempts hl
    exact ⟨iff_of_true ⟨_, _, hdiv⟩ (by simp), iff_of_false hanswered (by simp),
      iff_of_false (not_fails_of_notExit hcall.notExit hres) (by simp),
      iff_of_false (not_defers_of_not_answered hanswered) (by simp)⟩
  | unstored hdiv hcall hkeep =>
    have hcalls := (congrArg World.calls hafter).trans hkeep.calls_eq
    obtain ⟨hnotExit, hnot⟩ := hkeep.not_storable
    rw [World.record_files, hcall.files_eq] at hnot
    refine exists_leaves_of_not_storable hdiv hcall hcalls hnot ?_
      (not_fails_of_notExit hnotExit hres) hl
    rw [hafter, hkeep.eq_of_error]
  | failed hdiv hcall hkeep hstatus hdefer =>
    have hcalls := (congrArg World.calls hafter).trans hkeep.calls_eq
    refine exists_leaves_of_keeps hdiv hcall hcalls hkeep .failed
      (hafter ▸ addsIn_record (adds_failureRecord _) _) rfl ?_ ?_ ?_ hl
    · exact iff_of_true ⟨_, hres⟩ rfl
    · simp [hdefer]
    · simp
  | unplaced hdiv hcall hkeep hjudge hpath hassign =>
    have hcalls := (congrArg World.calls hafter).trans ((judged_calls _ _ _ _).trans hkeep.calls_eq)
    exact exists_leaves_of_judged hdiv hcall hcalls hkeep hjudge
      (addsIn_of_log_eq (congrArg World.log hafter))
      (not_fails_of_notExit (notExit_failure (fun _ _ => by simp) _) hres) hl
  | @returned scope s i w₁ w₂ functionPath assignment hdiv hcall hkeep hjudge hpath hassign =>
    have hcalls := (congrArg World.calls hafter).trans ((judged_calls _ _ _ _).trans hkeep.calls_eq)
    refine exists_leaves_of_judged hdiv hcall hcalls hkeep hjudge ?_ ?_ hl
    · rw [hafter]
      exact (addsIn_of_log_eq rfl).trans (addsIn_edit assignment.edits _)
    · rintro ⟨e, he⟩
      exact absurd (hres.symm.trans he) (by simp)

end Application

/-! ### Any number of applications -/

/-- Applications that took place one after the other, each of them with the record that the one
before left. All else may have changed in between. -/
inductive Sequence : Option RunLog → List Application → Option RunLog → Prop
  /-- No application. -/
  | nil (log : Option RunLog) : Sequence log [] log
  /-- One application and those behind it. -/
  | cons {log log' : Option RunLog} {a : Application} {as : List Application}
      (hbefore : a.before.log = log) (hrest : Sequence a.after.log as log') :
      Sequence log (a :: as) log'

theorem grows_nil (l : RunLog) : Grows [] l l where
  runId := rfl
  events := (List.append_nil _).symm
  warnings function := rfl
  artifacts key := by simp

theorem Grows.trans {ts ts' : List Footprint} {l l' l'' : RunLog} (h : Grows ts l l')
    (h' : Grows ts' l' l'') : Grows (ts ++ ts') l l'' where
  runId := h'.runId.trans h.runId
  events := by rw [h'.events, h.events, List.flatMap_append, List.append_assoc]
  warnings function := by
    rw [h'.warnings, h.warnings, ← RunLog.added_append, List.filter_append, List.flatMap_append]
  artifacts key := by
    rw [h'.artifacts, h.artifacts, List.flatMap_append, List.mem_append, or_assoc]

/-- **The audit trail of a run.** Whatever the functions do, the record grows by one footprint for
each application, in order, and each footprint tells how far its application got. -/
theorem audit_trail {l : RunLog} {as : List Application} {log : Option RunLog}
    (h : Sequence (some l) as log) :
    ∃ l' ts, log = some l' ∧ Grows ts l l' ∧
      List.Forall₂ (fun a t => a.Leaves l.runId t) as ts := by
  induction as generalizing l with
  | nil =>
    cases h
    exact ⟨l, [], rfl, grows_nil l, .nil⟩
  | cons a as ih =>
    obtain - | ⟨hbefore, hrest⟩ := h
    obtain ⟨l₁, t, hafter, hgrows, hleaves⟩ := a.exists_footprint hbefore
    obtain ⟨l', ts, hlog, hgrows', hall⟩ := ih (hafter ▸ hrest)
    rw [hgrows.runId] at hall
    exact ⟨l', t :: ts, hlog, hgrows.trans hgrows', .cons hleaves hall⟩

/-- A function that fails, in a world where nothing but the record is left of what was before. -/
def failing (deferFailure : Bool) (output : List UInt8) (log : Option RunLog) : Application :=
  .run usual (fun _ => .ended 3 output) (executable deferFailure) [] { blank with log }

theorem failing_defers (log : Option RunLog) : (failing true [123, 125] log).Defers 3 := by
  obtain ⟨payload, hpayload⟩ := exists_payload true
  have hread : Invoker.readOutput 3 [123, 125] blank.supply = .ok (⟨[⟨1, []⟩], none, none⟩, 2) := by
    decide +kernel
  have hcalls := calls_of_apply (w := { blank with log }) (divides_executable true)
    (command_executable true) hpayload (failing true [123, 125] log).ran
  exact ⟨_, ⟨_, _, _, hcalls, rfl, hread⟩, by decide, rfl, nofun⟩

/-- A function that may fail does so, and one behind it writes what is no document. -/
def twoFailures : List Application :=
  let first := failing true [123, 125] (some (RunLog.start "r" "t"))
  [first, failing false [91] first.after.log]

theorem audit_of_twoFailures : (∃ a ∈ twoFailures, a.Defers 3) ∧
    ∃ log, Sequence (some (RunLog.start "r" "t")) twoFailures log ∧
      ∃ l' ts, log = some l' ∧ Grows ts (RunLog.start "r" "t") l' ∧
        List.Forall₂ (fun a t => a.Leaves "r" t) twoFailures ts :=
  have h : Sequence (some (RunLog.start "r" "t")) twoFailures _ := .cons rfl (.cons rfl (.nil _))
  ⟨⟨_, List.mem_cons_self, failing_defers _⟩, _, h, audit_trail h⟩

end Filter

end ScopedFn
