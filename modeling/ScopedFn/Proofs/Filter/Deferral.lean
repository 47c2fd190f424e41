import ScopedFn.Proofs.Filter.Audit
import ScopedFn.Proofs.Provenance.Written

/-!
# Failures that are allowed

A function that may fail differs from one that may not in what is made of a status other than zero:
the failure is told with the collection, and not in its place. Up to that decision both take the
same course. Behind it the output is given a provenance, which is written into the objects of the
output. So the results are told as they were decoded only if they do not hold these objects. And
metadata with a part that is given as no text stops the assignment with no fault to report.

* `Outcome.Consistent` : an outcome tells a failure in all its parts or in none;
* `Filter.OnlyReported` : two runs that differ in how a failure is told, and in nothing else;
* `Filter.onlyReported_iff` : a function that may fail and one that may not give such runs iff no
  result is written over and no part of metadata is in the way;
* `Filter.results_written_over` : a function that shares a map between its output and its results.
-/

set_option autoImplicit false

namespace ScopedFn

/-- The function as one that may fail, or as one that may not. -/
def Descriptor.deferring (d : Descriptor) (b : Bool) : Descriptor := { d with deferFailure := b }

/-- The outcome tells a failure in all its parts or in none. -/
structure Outcome.Consistent (o : Outcome) : Prop where
  /-- A failure is marked as allowed. -/
  deferred : o.deferred = o.failed
  /-- It is kept. -/
  exit : o.exit.isSome = o.failed
  /-- What is kept can be raised. -/
  raised : ∀ e, o.raise = .error (.exit e) ↔ o.exit = some e
  /-- Without a failure, nothing can. -/
  silent : o.raise = .ok () ↔ o.failed = false

namespace Filter

open Resource (IsFirstUnreadable not_isFirstUnreadable_of_read)

variable {inv : Invoker} {child : Child} {d : Descriptor} {rs : List Resource} {w w' : World}
  {scope : Path} {s : Scope.Split} {i : Invocation}

/-! ### Outcomes -/

theorem isSome_allowed (d : Descriptor) (i : Invocation) (outside : List Resource) :
    (allowed d i outside).isSome = (i.status != 0) := by
  unfold allowed Invocation.succeeded
  by_cases h : i.status = 0 <;> simp [h]

theorem consistent_finish (d : Descriptor) (outside : List Resource) (a : Provenance.Assignment) :
    (finish scope outside i (allowed d i outside) a).outcome.Consistent := by
  have hsome := isSome_allowed d i outside
  have hexit : (finish scope outside i (allowed d i outside) a).outcome.exit.isSome =
      (i.status != 0) := (Option.isSome_map ..).trans hsome
  refine ⟨hsome, hexit, fun e => ?_, ?_⟩
  · unfold Outcome.raise
    cases (finish scope outside i (allowed d i outside) a).outcome.exit <;> simp
  · rw [Outcome.failed, show (finish scope outside i (allowed d i outside) a).outcome.status =
      i.status from rfl, ← hexit]
    unfold Outcome.raise
    cases (finish scope outside i (allowed d i outside) a).outcome.exit <;> simp

/-- Every collection comes with an outcome that is consistent. -/
theorem consistent_of_apply {f : Filtered} (h : (apply inv child d rs).exec w = (.ok f, w')) :
    f.outcome.Consistent := by
  have hcourse := exec_apply.1 h
  cases hcourse with
  | returned => exact consistent_finish d _ _

/-! ### The same up to the decision -/

theorem Divides.deferring (b : Bool) (h : Divides d rs scope s) :
    Divides (d.deferring b) rs scope s := ⟨h.scope_eq, h.split_eq⟩

/-- Whether a failure is allowed has no effect on a call. -/
theorem calls_deferring {res : Except Failure Invocation} (b : Bool)
    (h : Invoker.Calls inv child d rs w res w') :
    Invoker.Calls inv child (d.deferring b) rs w res w' := by
  cases h with
  | noCommand hcommand => exact .noCommand hcommand
  | noPayload hcommand hpayload => exact .noPayload hcommand hpayload
  | refused hcommand hpayload hchild => exact .refused hcommand hpayload hchild
  | unreadable hcommand hpayload hchild hread => exact .unreadable hcommand hpayload hchild hread
  | answered hcommand hpayload hchild hread => exact .answered hcommand hpayload hchild hread

theorem Keeps.deferring {results : Option Resource} {res : Except Failure Unit} (b : Bool)
    (h : Keeps d w results res w') : Keeps (d.deferring b) w results res w' := by
  cases h with
  | nothing => exact .nothing
  | recorded hfile => exact .recorded hfile
  | unstored hfile hne hstored => exact .unstored hfile hne hstored
  | stored hfile hne hstored => exact .stored hfile hne hstored

/-- The function answered with a status other than zero, and its results, if there are any, could be
stored: what is left is to decide about the status. -/
structure Failing (child : Child) (d : Descriptor) (w w' : World) (status : Int)
    (decoded : Envelope.Decoded) : Prop where
  /-- The function answered. -/
  answers : Answers child w w' status decoded
  /-- It failed. -/
  status_ne : status ≠ 0
  /-- The results are kept. -/
  storable : Storable d w.files decoded.results

/-- A course up to the decision about a status other than zero. -/
structure Undecided (inv : Invoker) (child : Child) (d : Descriptor) (rs : List Resource) (w : World)
    (scope : Path) (s : Scope.Split) (i : Invocation) (w₂ : World) : Prop where
  /-- The collection is divided. -/
  divides : Divides d rs scope s
  /-- The function is called, and its results are kept. -/
  keeps : ∃ w₁, Invoker.Calls inv child d s.inside (divided d scope s w) (.ok i) w₁ ∧
    Keeps d (w₁.record (callRecord d i)) i.results (.ok ()) w₂
  /-- It failed. -/
  failed : i.succeeded = false

variable {w₂ : World} {status : Int} {decoded : Envelope.Decoded}

theorem Undecided.deferring (b : Bool) (h : Undecided inv child d rs w scope s i w₂) :
    Undecided inv child (d.deferring b) rs w scope s i w₂ := by
  obtain ⟨w₁, hcall, hkeep⟩ := h.keeps
  exact ⟨h.divides.deferring b, ⟨w₁, calls_deferring b hcall, hkeep.deferring b⟩, h.failed⟩

/-- The answer about which is to be decided. -/
theorem Undecided.eq_of_answers (h : Undecided inv child d rs w scope s i w₂)
    (hcalls : w'.calls = w₂.calls) (hanswers : Answers child w w' status decoded) :
    i.status = status ∧ i.resources = decoded.resources ∧ i.results = decoded.results ∧
      ∃ output, Invoker.readOutput status output w.supply = .ok (decoded, w₂.supply) := by
  obtain ⟨w₁, hcall, hkeep⟩ := h.keeps
  obtain ⟨req, output, supply, hsent, hchild, hread⟩ := hanswers
  obtain ⟨decoded', payload, hread', rfl⟩ :=
    hcall.ok_of_ended ((hcalls.trans hkeep.calls_eq).symm.trans hsent) hchild
  obtain rfl := congrArg Prod.fst (Except.ok.inj (hread.symm.trans hread'))
  exact ⟨rfl, rfl, rfl, output, hkeep.supply_eq.symm ▸ hread'⟩

theorem Undecided.exists_failing (h : Undecided inv child d rs w scope s i w₂)
    (hcalls : w'.calls = w₂.calls) : ∃ decoded, Failing child d w w' i.status decoded := by
  obtain ⟨w₁, hcall, hkeep⟩ := h.keeps
  have hcalls' : w'.calls = w₁.calls := hcalls.trans hkeep.calls_eq
  obtain ⟨decoded, hanswers, -, hresults⟩ := exists_answers hcalls' hcall
  have hstorable := hkeep.storable
  rw [World.record_files, hcall.files_eq] at hstorable
  exact ⟨decoded, hanswers, by simpa [Invocation.succeeded] using h.failed, hresults ▸ hstorable⟩

/-- A function that ended well has no failure about which to decide. -/
theorem not_failing_of_succeeded {w₁ : World}
    (hcall : Invoker.Calls inv child d s.inside (divided d scope s w) (.ok i) w₁)
    (hcalls : w'.calls = w₁.calls) (hstatus : i.succeeded = true) :
    ¬ ∃ status decoded, Failing child d w w' status decoded := by
  rintro ⟨status, decoded, hfailing⟩
  refine hfailing.status_ne ?_
  rw [(hfailing.answers.eq_of_call hcalls hcall).1]
  simpa [Invocation.succeeded] using hstatus

theorem judged_of_succeeded (h : i.succeeded = true) (d : Descriptor) (outside : List Resource)
    (w : World) : judged d i outside w = w := if_pos h

theorem allowed_of_succeeded (h : i.succeeded = true) (d : Descriptor) (outside : List Resource) :
    allowed d i outside = none := if_pos h

theorem judged_files (d : Descriptor) (i : Invocation) (outside : List Resource) (w : World) :
    (judged d i outside w).files = w.files := by
  unfold judged
  split <;> rfl

/-- Unless there is a failure to be told, a function that may fail takes the same course. -/
theorem Course.deferring_or_undecided {res : Except Failure Filtered}
    (h : Course inv child d rs w res w') (hdefer : d.deferFailure = false) :
    (Course inv child (d.deferring true) rs w res w' ∧
        ¬ ∃ status decoded, Failing child d w w' status decoded) ∨
      ∃ scope s i w₂, Undecided inv child d rs w scope s i w₂ ∧
        res = .error (.fault (.exit (exitFault d i s.outside))) ∧ w'.calls = w₂.calls ∧
        w'.files = w₂.files ∧ w'.supply = w₂.supply := by
  cases h with
  | noScope hscope =>
    exact .inl ⟨.noScope hscope, fun ⟨_, _, h⟩ => not_answers_of_calls_eq rfl h.answers⟩
  | noSplit hscope hsplit =>
    exact .inl ⟨.noSplit hscope hsplit, fun ⟨_, _, h⟩ => not_answers_of_calls_eq rfl h.answers⟩
  | notCalled hdiv hcall =>
    refine .inl ⟨.notCalled (hdiv.deferring true) (calls_deferring true hcall), ?_⟩
    exact fun ⟨_, _, h⟩ => not_answers_of_call rfl hcall h.answers
  | @unstored scope s i failure w₁ w₂ hdiv hcall hkeep =>
    refine .inl ⟨.unstored (hdiv.deferring true) (calls_deferring true hcall)
      (hkeep.deferring true), ?_⟩
    rintro ⟨status, decoded, hfailing⟩
    obtain ⟨-, hnot⟩ := hkeep.not_storable
    rw [World.record_files, hcall.files_eq] at hnot
    have hcalls : w'.calls = w₁.calls := hkeep.calls_eq
    exact hnot ((hfailing.answers.eq_of_call hcalls hcall).2.2 ▸ hfailing.storable)
  | failed hdiv hcall hkeep hstatus =>
    exact .inr ⟨_, _, _, _, ⟨hdiv, ⟨_, hcall, hkeep⟩, hstatus⟩, rfl, rfl, rfl, rfl⟩
  | @unplaced scope s i w₁ w₂ functionPath fault hdiv hcall hkeep hjudge hpath hassign =>
    have hstatus := hjudge.resolve_right (by simp [hdefer])
    have hcalls : (judged d i s.outside w₂).calls = w₁.calls :=
      (judged_calls ..).trans hkeep.calls_eq
    refine .inl ⟨?_, not_failing_of_succeeded hcall hcalls hstatus⟩
    rw [judged_of_succeeded hstatus, ← judged_of_succeeded hstatus (d.deferring true) s.outside w₂]
    exact .unplaced (hdiv.deferring true) (calls_deferring true hcall) (hkeep.deferring true)
      (.inl hstatus) hpath hassign
  | @returned scope s i w₁ w₂ functionPath a hdiv hcall hkeep hjudge hpath hassign =>
    have hstatus := hjudge.resolve_right (by simp [hdefer])
    have hcalls : (judged d i s.outside w₂).calls = w₁.calls :=
      (judged_calls ..).trans hkeep.calls_eq
    refine .inl ⟨?_, not_failing_of_succeeded hcall hcalls hstatus⟩
    rw [judged_of_succeeded hstatus, ← judged_of_succeeded hstatus (d.deferring true) s.outside w₂,
      allowed_of_succeeded hstatus, ← allowed_of_succeeded hstatus (d.deferring true) s.outside]
    exact .returned (hdiv.deferring true) (calls_deferring true hcall) (hkeep.deferring true)
      (.inl hstatus) hpath hassign

/-- A function that may fail goes on with the output. -/
theorem Undecided.course {functionPath : Option String}
    (h : Undecided inv child d rs w scope s i w₂) (hdefer : d.deferFailure = true)
    (hpath : d.functionPath = .ok functionPath) :
    match Provenance.assign scope functionPath i.resources w₂.supply with
    | .error cause =>
      Course inv child d rs w (.error (cause.failure .metadata)) (judged d i s.outside w₂)
    | .ok a =>
      Course inv child d rs w (.ok (finish scope s.outside i (allowed d i s.outside) a))
        ({ judged d i s.outside w₂ with supply := a.supply }.edit a.edits) := by
  obtain ⟨w₁, hcall, hkeep⟩ := h.keeps
  cases hassign : Provenance.assign scope functionPath i.resources w₂.supply with
  | error cause => exact .unplaced h.divides hcall hkeep (.inr hdefer) hpath hassign
  | ok a => exact .returned h.divides hcall hkeep (.inr hdefer) hpath hassign

/-! ### How a failure is told -/

/-- The failure of a function, with what it wrote and what passed by. -/
def failureOf (d : Descriptor) (status : Int) (output outside : List Resource)
    (results : Option Resource) : ExitFault := ⟨d.identity, status, output ++ outside, results⟩

/-- What a failure that is allowed comes to, by the provenance that the output is given: the fault of
the provenance, or the collection, with the results as they were decoded and with the failure. -/
inductive Allows (d : Descriptor) (status : Int) (results : Option Resource)
    (outside : List Resource) :
    Except (OrNoText MetaFault) Provenance.Assignment → Except Failure Filtered → Prop
  /-- The output cannot be given a provenance. -/
  | unplaced (fault : MetaFault) :
      Allows d status results outside (.error (.fault fault)) (.error (.fault (.metadata fault)))
  /-- The collection, with the output as it is in the failure. -/
  | returned {a : Provenance.Assignment} {f : Filtered}
      (hresources : f.resources = a.resources ++ outside) (hresults : f.results = results)
      (hstatus : f.outcome.status = status)
      (hexit : f.outcome.exit = some (failureOf d status a.resources outside results)) :
      Allows d status results outside (.ok a) (.ok f)

theorem Allows.results_eq {results : Option Resource} {outside : List Resource}
    {assigned : Except (OrNoText MetaFault) Provenance.Assignment} {f : Filtered}
    (h : Allows d status results outside assigned (.ok f)) : f.results = results := by
  cases h with
  | returned hresources hresults => exact hresults

/-- The runs of a function that may not fail and of the same function as one that may. They differ in
how a failure is told, and in nothing else. -/
structure OnlyReported (child : Child) (d : Descriptor) (rs : List Resource) (w : World)
    (res res' : Except Failure Filtered) (w₁ w₂ : World) : Prop where
  /-- The same processes are started. -/
  calls : w₂.calls = w₁.calls
  /-- The same files are left. -/
  files : w₂.files = w₁.files
  /-- If it does not come to the decision about a failure, both runs end alike. -/
  same : (¬ ∃ status decoded, Failing child d w w₁ status decoded) → res' = res ∧ w₂ = w₁
  /-- If it does, one raises what the function wrote and what passed by, the other returns it. -/
  told : ∀ status decoded, Failing child d w w₁ status decoded →
    ∃ scope s functionPath, Divides d rs scope s ∧ d.functionPath = .ok functionPath ∧
      res = .error (.fault (.exit
        (failureOf d status decoded.resources s.outside decoded.results))) ∧
      Allows d status decoded.results s.outside
        (Provenance.assign scope functionPath decoded.resources w₁.supply) res'
  /-- Every outcome is consistent. -/
  consistent : ∀ f, res = .ok f ∨ res' = .ok f → f.outcome.Consistent

/-- No map that is edited for a new resource stands in the results. -/
def SparesResults (decoded : Envelope.Decoded) : Prop :=
  ∀ results, decoded.results = some results →
    ∀ r ∈ decoded.resources, Provenance.IsNew r → r.place ∉ results.toValue.objects

/-- Nothing of what was decoded is in the way of telling it. -/
structure Tellable (decoded : Envelope.Decoded) : Prop where
  /-- The first resource whose metadata cannot be read is not one with a part that is given as no
  text. -/
  given : ¬∃ position cause, IsFirstUnreadable decoded.resources position (.noText cause)
  /-- If the metadata can be read, the results are spared. -/
  spared : (∀ r ∈ decoded.resources, ∃ m, r.getMeta = .ok m) → SparesResults decoded

theorem Tellable.congr {decoded' : Envelope.Decoded} (h : Tellable decoded)
    (hresources : decoded.resources = decoded'.resources) (hresults : decoded.results = decoded'.results) :
    Tellable decoded' :=
  ⟨hresources ▸ h.given, fun hmetas results hsome r hr => h.spared (hresources ▸ hmetas) results
    (hresults.trans hsome) r (hresources ▸ hr)⟩

/-- What is decoded can be told if it comes upon metadata with a fault of its own first. -/
theorem tellable_of_isFirstUnreadable {position : ℕ} {fault : MetaFault}
    (h : IsFirstUnreadable decoded.resources position (.fault fault)) : Tellable decoded where
  given := by
    rintro ⟨position', cause, h'⟩
    cases h.cause_unique h'
  spared hmetas := by
    -- the metadata can be read after all
    obtain ⟨r, hr, hmeta⟩ := h.1
    obtain ⟨m, hm⟩ := hmetas r (List.mem_of_getElem? hr)
    cases hm.symm.trans hmeta

/-- The results of a function survive the provenance of its output iff they are spared. -/
theorem results_eq_iff {output : List UInt8} {supply supply' : Supply}
    {functionPath : Option String} {a : Provenance.Assignment}
    (hread : Invoker.readOutput status output supply = .ok (decoded, supply'))
    (hpos : noObject < supply)
    (hassign : Provenance.assign scope functionPath decoded.resources supply' = .ok a) :
    decoded.results.map (·.editAll a.edits) = decoded.results ↔ SparesResults decoded := by
  unfold Invoker.readOutput at hread
  split at hread
  · cases hread
  obtain ⟨hcoherent, hbound⟩ := Envelope.coherent_written hread hpos
  rw [Envelope.Decoded.written] at hcoherent hbound
  rw [SparesResults]
  cases hresults : decoded.results with
  | none => simp
  | some results =>
    rw [hresults] at hcoherent hbound
    rw [Option.map_some, Option.some_inj,
      Provenance.editAll_eq_self_iff hassign hbound hcoherent]
    simp

variable {res res' : Except Failure Filtered} {w₁ : World}

/-- Where it comes to no decision about a failure, nothing differs. -/
theorem onlyReported_of_same (h : (apply inv child d rs).exec w = (res, w₁))
    (hnot : ¬ ∃ status decoded, Failing child d w w₁ status decoded) :
    OnlyReported child d rs w res res w₁ w₁ where
  calls := rfl
  files := rfl
  same _ := ⟨rfl, rfl⟩
  told status decoded hfailing := absurd ⟨status, decoded, hfailing⟩ hnot
  consistent f hf := by
    obtain rfl := hf.elim id id
    exact consistent_of_apply h

section

variable (h : Undecided inv child d rs w scope s i w₂) {functionPath : Option String}

include h

/-- It is to be decided about one answer. -/
theorem Undecided.exists_decided (hcalls : w₁.calls = w₂.calls) : ∃ decoded,
    i.resources = decoded.resources ∧ i.results = decoded.results ∧
      (∃ output, Invoker.readOutput i.status output w.supply = .ok (decoded, w₂.supply)) ∧
      ((∀ status decoded', Failing child d w w₁ status decoded' → Tellable decoded') ↔
        Tellable decoded) := by
  obtain ⟨decoded, hfailing⟩ := h.exists_failing hcalls
  obtain ⟨-, hresources, hresults, hread⟩ := h.eq_of_answers hcalls hfailing.answers
  refine ⟨decoded, hresources, hresults, hread, fun hall => hall _ _ hfailing,
    fun htell status decoded' hfailing' => ?_⟩
  obtain ⟨-, hresources', hresults', -⟩ := h.eq_of_answers hcalls hfailing'.answers
  exact htell.congr (hresources.symm.trans hresources') (hresults.symm.trans hresults')

/-- What the failure holds when the output has a provenance. -/
theorem Undecided.exit_finish (hknown : w.Knows (d.config.toList ++ rs)) {a : Provenance.Assignment}
    (hassign : Provenance.assign scope functionPath i.resources w₂.supply = .ok a) :
    (allowed d i s.outside).map (editExit a.edits) = some (failureOf d i.status a.resources s.outside
      (i.results.map (·.editAll a.edits))) := by
  obtain ⟨w₁, hcall, hkeep⟩ := h.keeps
  have hfresh := fresh_placed hcall hkeep hassign
  have huntouched := untouched_of_fresh hknown hfresh
  have houtside : s.outside.map (·.editAll a.edits) = s.outside :=
    (List.map_congr_left fun r hr => huntouched.resources r
      ((Scope.outside_sublist h.divides.split_eq).subset hr)).trans (List.map_id _)
  rw [allowed, h.failed, if_neg (by decide), Option.map_some, editExit, exitFault, failureOf,
    List.map_append, houtside, ← Provenance.assign_resources hassign]

variable (hcalls : w₁.calls = w₂.calls) (hfiles : w₁.files = w₂.files)
  (hsupply : w₁.supply = w₂.supply)

include hcalls hfiles hsupply

/-- The runs differ in how the failure is told iff what is returned is what the failure comes to. -/
theorem Undecided.onlyReported_iff_allows (hpath : d.functionPath = .ok functionPath)
    (hcalls' : w'.calls = w₂.calls) (hfiles' : w'.files = w₂.files)
    (hconsistent : ∀ f, res' = .ok f → f.outcome.Consistent) :
    OnlyReported child d rs w (.error (.fault (.exit (exitFault d i s.outside)))) res' w₁ w' ↔
      Allows d i.status i.results s.outside
        (Provenance.assign scope functionPath i.resources w₂.supply) res' := by
  constructor
  · intro honly
    obtain ⟨decoded, hfailing⟩ := h.exists_failing hcalls
    obtain ⟨-, hresources, hresults, -⟩ := h.eq_of_answers hcalls hfailing.answers
    obtain ⟨scope', s', functionPath', hdiv', hpath', -, hallows⟩ := honly.told _ _ hfailing
    obtain ⟨rfl, rfl⟩ := h.divides.unique hdiv'
    obtain rfl := Except.ok.inj (hpath.symm.trans hpath')
    rwa [← hresources, ← hresults, hsupply] at hallows
  · intro hallows
    refine ⟨hcalls'.trans hcalls.symm, hfiles'.trans hfiles.symm,
      fun hnot => absurd ⟨i.status, h.exists_failing hcalls⟩ hnot, fun status decoded hfailing => ?_,
      fun f hf => hconsistent f (hf.resolve_left nofun)⟩
    obtain ⟨rfl, hresources, hresults, -⟩ := h.eq_of_answers hcalls hfailing.answers
    rw [← hresources, ← hresults, hsupply]
    exact ⟨scope, s, functionPath, h.divides, hpath, rfl, hallows⟩

variable (hknown : w.Knows (d.config.toList ++ rs)) (hpos : noObject < w.supply)
  (h' : (apply inv child (d.deferring true) rs).exec w = (res', w'))

include hknown hpos h'

/-- Where it comes to the decision, all depends on what was decoded. -/
theorem Undecided.tellable_iff :
    OnlyReported child d rs w (.error (.fault (.exit (exitFault d i s.outside)))) res' w₁ w' ↔
      ∀ status decoded, Failing child d w w₁ status decoded → Tellable decoded := by
  obtain ⟨functionPath, hpath⟩ := exists_functionPath h.divides.scope_eq
  obtain ⟨decoded, hresources, hresults, ⟨output, hread⟩, hdecided⟩ := h.exists_decided hcalls
  have hcourse := (h.deferring true).course rfl hpath
  have hconsistent : ∀ f, res' = .ok f → f.outcome.Consistent := by
    rintro f rfl
    exact consistent_of_apply h'
  rw [hdecided]
  cases hassign : Provenance.assign scope functionPath i.resources w₂.supply with
  | error cause =>
    rw [hassign] at hcourse
    obtain ⟨rfl, rfl⟩ := Prod.mk.inj (h'.symm.trans (exec_apply.2 hcourse))
    refine (h.onlyReported_iff_allows hcalls hfiles hsupply hpath ?_ ?_ hconsistent).trans ?_
    · exact judged_calls ..
    · exact judged_files ..
    rw [hassign]
    obtain ⟨position, hfirst⟩ := Provenance.assign_eq_error_iff.1 hassign
    rw [hresources] at hfirst
    cases cause with
    | fault fault => exact iff_of_true (.unplaced fault) (tellable_of_isFirstUnreadable hfirst)
    | noText cause => exact iff_of_false nofun fun htell => htell.given ⟨position, cause, hfirst⟩
  | ok a =>
    rw [hassign] at hcourse
    obtain ⟨rfl, rfl⟩ := Prod.mk.inj (h'.symm.trans (exec_apply.2 hcourse))
    refine (h.onlyReported_iff_allows hcalls hfiles hsupply hpath ?_ ?_ hconsistent).trans ?_
    · exact judged_calls ..
    · exact judged_files ..
    rw [hassign]
    have hexit := h.exit_finish hknown hassign
    have hmetas := Provenance.exists_assign_iff.1 ⟨a, hassign⟩
    rw [hresources] at hassign hmetas
    have hsame := results_eq_iff hread hpos hassign
    rw [← hresults] at hsame
    constructor
    · intro hallows
      exact ⟨not_isFirstUnreadable_of_read hmetas, fun _ => hsame.1 hallows.results_eq⟩
    · intro htell
      have hspared := hsame.2 (htell.spared hmetas)
      rw [hspared] at hexit
      exact .returned rfl hspared rfl hexit

end

/-- **Allowing a failure changes how it is told, and nothing else,** exactly if what was decoded can
be told: no map that is edited for a new resource stands in the results, and no part of metadata that
is given as no text is in the way. -/
theorem onlyReported_iff (hdefer : d.deferFailure = false)
    (hknown : w.Knows (d.config.toList ++ rs)) (hpos : noObject < w.supply)
    (h : (apply inv child d rs).exec w = (res, w₁))
    (h' : (apply inv child (d.deferring true) rs).exec w = (res', w')) :
    OnlyReported child d rs w res res' w₁ w' ↔
      ∀ status decoded, Failing child d w w₁ status decoded → Tellable decoded := by
  obtain ⟨hcourse, hnot⟩ | ⟨scope, s, i, w₂, hundecided, rfl, hcalls, hfiles, hsupply⟩ :=
    (exec_apply.1 h).deferring_or_undecided hdefer
  · obtain ⟨rfl, rfl⟩ := Prod.mk.inj (h'.symm.trans (exec_apply.2 hcourse))
    exact iff_of_true (onlyReported_of_same h hnot) fun status decoded hfailing =>
      absurd ⟨status, decoded, hfailing⟩ hnot
  · exact hundecided.tellable_iff hcalls hfiles hsupply hknown hpos h'

/-! ### A function that writes results and fails -/

/-- A function that writes a text and fails. -/
def failsWith (text : String) : Child := fun _ => .ended 3 text.toUTF8.toList

/-- What is read of that text. -/
def readFailing (text : String) : Except Failure (Envelope.Decoded × Supply) :=
  Invoker.readOutput 3 text.toUTF8.toList blank.supply

/-- The run of such a function, which may fail or not, on no resources. -/
def runFailing (text : String) (b : Bool) : Except Failure Filtered × World :=
  (apply usual (failsWith text) (executable b) []).exec blank

theorem exec_runFailing (text : String) (b : Bool) :
    (apply usual (failsWith text) ((executable false).deferring b) []).exec blank =
      ((runFailing text b).1, (runFailing text b).2) := rfl

theorem failing_runFailing {text : String} {supply : Supply}
    (hread : readFailing text = .ok (decoded, supply)) :
    Failing (failsWith text) (executable false) blank (runFailing text false).2 3 decoded := by
  obtain ⟨payload, hpayload⟩ := exists_payload false
  have hcalls := calls_of_apply (divides_executable false) (command_executable false) hpayload
    (exec_runFailing text false)
  exact ⟨⟨_, _, _, hcalls, rfl, hread⟩, by decide, nofun⟩

/-- A resource, and results of their own. -/
def apart : String :=
  "kind: ResourceList\napiVersion: config.kubernetes.io/v1\nitems:\n- kind: A\nresults:\n- message: m\n"

/-- A resource that is its own result. -/
def ownResult : String :=
  "kind: ResourceList\napiVersion: config.kubernetes.io/v1\nitems:\n- &r {kind: A}\nresults: *r\n"

theorem tellable_of_failing_apart {w₁ : World}
    (h : Failing (failsWith apart) (executable false) blank w₁ status decoded) :
    Tellable decoded := by
  obtain ⟨req, output, supply, -, hchild, hread⟩ := h.answers
  obtain ⟨rfl, rfl⟩ := Reaction.ended.inj hchild
  have hall : (readFailing apart).toOption.all fun read => read.1.resources.all fun r =>
      r.getMeta.toOption.isSome && read.1.results.all fun q =>
        decide (r.place ∉ q.toValue.objects) := by
    decide +kernel
  rw [readFailing, hread] at hall
  have hall : ∀ r ∈ decoded.resources, r.getMeta.toOption.isSome = true ∧
      (decoded.results.all fun q => decide (r.place ∉ q.toValue.objects)) = true := fun r hr =>
    (Bool.and_eq_true _ _).mp (List.all_eq_true.1 hall r hr)
  refine ⟨not_isFirstUnreadable_of_read fun r hr => ?_, fun _ results hresults r hr _ => ?_⟩
  · obtain ⟨m, hm⟩ := Option.isSome_iff_exists.1 (hall r hr).1
    exact ⟨m, Result.ok_of_toOption hm⟩
  · have hspared := (hall r hr).2
    rw [hresults] at hspared
    exact of_decide_eq_true hspared

/-- Results of their own are told as they are. -/
theorem onlyReported_apart :
    (executable false).deferFailure = false ∧
      blank.Knows ((executable false).config.toList ++ []) ∧ noObject < blank.supply ∧
      (∃ decoded, Failing (failsWith apart) (executable false) blank (runFailing apart false).2 3
        decoded) ∧
      OnlyReported (failsWith apart) (executable false) [] blank (runFailing apart false).1
        (runFailing apart true).1 (runFailing apart false).2 (runFailing apart true).2 := by
  have hread : (readFailing apart).toOption.isSome := by decide +kernel
  obtain ⟨⟨decoded, supply⟩, hread⟩ := Option.isSome_iff_exists.1 hread
  have hknown : blank.Knows ((executable false).config.toList ++ []) := nofun
  refine ⟨rfl, hknown, by decide, ⟨decoded, failing_runFailing (Result.ok_of_toOption hread)⟩, ?_⟩
  exact (onlyReported_iff rfl hknown (by decide) (exec_runFailing apart false)
    (exec_runFailing apart true)).2 fun status decoded hfailing => tellable_of_failing_apart hfailing

/-- **Results that are written over.** The function shares a map between its output and its results,
so a failure that is allowed tells results with the path that the output was given. -/
theorem results_written_over : ∃ decoded f,
    Failing (failsWith ownResult) (executable false) blank (runFailing ownResult false).2 3 decoded ∧
      (runFailing ownResult true).1 = .ok f ∧ decoded.results.bind Provenance.pathOf? = none ∧
      f.results.bind Provenance.pathOf? = some "a_.yaml" ∧
      ¬ OnlyReported (failsWith ownResult) (executable false) [] blank (runFailing ownResult false).1
        (runFailing ownResult true).1 (runFailing ownResult false).2 (runFailing ownResult true).2 := by
  have hread : (readFailing ownResult).toOption.map (·.1.results.bind Provenance.pathOf?) =
      some none := by
    decide +kernel
  have hreturned : (runFailing ownResult true).1.toOption.map (·.results.bind Provenance.pathOf?) =
      some (some "a_.yaml") := by
    decide +kernel
  obtain ⟨⟨decoded, supply⟩, hread, hdecoded⟩ := Option.map_eq_some_iff.1 hread
  obtain ⟨f, hf, hpath⟩ := Option.map_eq_some_iff.1 hreturned
  have hf := Result.ok_of_toOption hf
  have hfailing := failing_runFailing (Result.ok_of_toOption hread)
  refine ⟨decoded, f, hfailing, hf, hdecoded, hpath, fun honly => ?_⟩
  obtain ⟨_, _, _, _, _, _, hallows⟩ := honly.told 3 decoded hfailing
  rw [hf] at hallows
  rw [hallows.results_eq] at hpath
  exact absurd (hpath.symm.trans hdecoded) (by simp)

end Filter

end ScopedFn
