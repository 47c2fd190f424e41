import ScopedFn.Proofs.Provenance.Assign
import ScopedFn.Proofs.Run.Course
import ScopedFn.Proofs.Value.Decidable

/-!
# What becomes of a failing function

A status other than zero is raised as the failure of the function, or kept with the collection if
the function may fail. Between the end of the process and this decision stand the reading of its
output and the storing of its results, and behind it stands the provenance of new resources. Each
of these steps can fail, and then tells nothing of the status.

* `Filter.ExitKept` : the status is raised or kept;
* `Filter.exitKept_iff` : this is so iff the output can be used;
* `Filter.exit_lost_of_malformed` : a function that fails with an output that is no document.
-/

set_option autoImplicit false

namespace ScopedFn

/-- The failure is not the end of a function with a status. -/
def Failure.NotExit (failure : Failure) : Prop := ∀ e, failure ≠ .fault (.exit e)

/-- Whatever fails, it is not for the status of a function. -/
def NeverExit {α : Type} (x : Except Failure α) : Prop := ∀ failure, x = .error failure → failure.NotExit

section

variable {α β : Type} {x : Except Failure α} {f : α → Except Failure β}

theorem neverExit_ok (a : α) : NeverExit (.ok a) := fun _ h => by cases h

theorem neverExit_error {failure : Failure} (h : failure.NotExit) :
    NeverExit (.error failure : Except Failure α) := fun _ heq => by cases heq; exact h

theorem NeverExit.bind (hx : NeverExit x) (hf : ∀ a, NeverExit (f a)) : NeverExit (x >>= f) := by
  cases x with
  | ok a => exact hf a
  | error failure => exact neverExit_error (hx failure rfl)

theorem NeverExit.map {g : α → β} (hx : NeverExit x) : NeverExit (x.map g) := by
  cases x with
  | ok a => exact neverExit_ok _
  | error failure => exact neverExit_error (hx failure rfl)

theorem notExit_ofDocument {describe : Yaml.Fault → Fault} (h : ∀ f e, describe f ≠ .exit e)
    (f : Yaml.Fault) : (Failure.ofDocument describe f).NotExit := by
  intro e heq
  cases f <;> simp [Failure.ofDocument, h] at heq

end

namespace Envelope

theorem neverExit_asResource (part : String) (v : Value) : NeverExit (asResource part v) := by
  unfold asResource
  split
  · exact neverExit_ok _
  · exact neverExit_error fun e heq => by simp at heq

theorem neverExit_asResources (part : String) (skipNull : Bool) (n : ℕ) (vs : List Value) :
    NeverExit (asResources part skipNull n vs) := by
  induction vs generalizing n with
  | nil => exact neverExit_ok _
  | cons v vs ih =>
    unfold asResources
    split
    · exact ih _
    · exact (neverExit_asResource _ _).bind fun r => (ih _).bind fun rs => neverExit_ok _

theorem neverExit_isEnvelope (v : Value) : NeverExit (isEnvelope v) := by
  unfold isEnvelope isVersion
  repeat' split
  all_goals first | exact neverExit_ok _ | exact neverExit_error fun e heq => by simp at heq

theorem neverExit_noneIsEnvelope (count n : ℕ) (vs : List Value) :
    NeverExit (noneIsEnvelope count n vs) := by
  induction vs generalizing n with
  | nil => exact neverExit_ok _
  | cons v vs ih =>
    unfold noneIsEnvelope
    refine (neverExit_isEnvelope v).bind fun found => ?_
    split
    · exact neverExit_error fun e heq => by simp at heq
    · exact ih _

theorem neverExit_itemsOf (v : Value) : NeverExit (itemsOf v) := by
  unfold itemsOf
  split
  · split
    · exact neverExit_ok _
    · exact neverExit_error fun e heq => by simp at heq
  · exact neverExit_ok _

theorem neverExit_asResults (v : Value) : NeverExit (asResults v) := by
  unfold asResults
  split
  · exact neverExit_ok _
  · exact neverExit_ok _
  · exact (neverExit_asResource _ _).map

theorem neverExit_contents (es : MapEntries) : NeverExit (contents es) := by
  unfold contents
  refine (neverExit_itemsOf _).bind fun items => ?_
  refine (neverExit_asResources _ _ _ _).bind fun resources => ?_
  refine (neverExit_asResults _).bind fun results => ?_
  split
  · exact neverExit_ok _
  · exact (neverExit_asResource _ _).map.bind fun config => neverExit_ok _

theorem neverExit_ofDocuments (docs : List Value) : NeverExit (ofDocuments docs) := by
  unfold ofDocuments
  split
  · refine (neverExit_isEnvelope _).bind fun found => ?_
    split
    · exact neverExit_contents _
    · exact neverExit_ok _
  · have hrest : NeverExit (do return ⟨← asResources "document" false 0 docs, none, none⟩ :
        Except Failure Decoded) :=
      (neverExit_asResources _ _ _ _).bind fun resources => neverExit_ok _
    split
    · exact (neverExit_noneIsEnvelope _ _ _).bind fun _ => hrest
    · exact hrest

theorem neverExit_encode (p : Package) : NeverExit p.encode := by
  unfold Package.encode
  split
  · exact neverExit_ok _
  · exact neverExit_error (notExit_ofDocument (fun f e => by simp) _)

end Envelope

/-- The reading of an output fails for no status. -/
theorem Invoker.neverExit_readOutput (status : Int) (output : List UInt8) (supply : Supply) :
    NeverExit (readOutput status output supply) := by
  unfold readOutput outputText
  split
  · rename_i failure htext
    split at htext
    · simp at htext
    · exact neverExit_error fun e heq => by simp [← Except.error.inj htext] at heq
  · rename_i text _
    unfold Envelope.decode
    simp only [StateT.run]
    split
    · exact neverExit_error (notExit_ofDocument (fun f e => by simp) _)
    · exact (Envelope.neverExit_ofDocuments _).bind fun decoded => neverExit_ok _

theorem neverExit_storedIn (files : Files) (results : Resource) (file : String) :
    NeverExit (storedIn files results file) := by
  unfold storedIn
  dsimp only
  split
  · exact neverExit_error fun e heq => by simp at heq
  · split
    · exact neverExit_error fun e heq => by simp at heq
    · split
      · exact neverExit_error fun e heq => by simp at heq
      · exact neverExit_ok _

namespace Filter

variable {inv : Invoker} {child : Child} {d : Descriptor} {rs : List Resource} {w w' : World}

/-- The status is raised as the failure of the function, or kept with the collection. -/
def ExitKept (status : Int) : Except Failure Filtered → Prop
  | .error failure => ∃ e, failure = .fault (.exit e) ∧ e.status = status
  | .ok f => f.outcome.status = status ∧ ∃ e, f.outcome.exit = some e ∧ e.status = status

/-- The results can be stored, if there are any and they have a file. -/
def Storable (d : Descriptor) (files : Files) (results : Option Resource) : Prop :=
  ∀ r file, results = some r → d.resultsFile = some file → file ≠ "" →
    ∃ stored, storedIn files r file = .ok stored

/-- The output of a function that ended with a status can be used in a world: it can be read, its
results can be stored, and if the function may fail, the metadata of its resources can be read. -/
def Usable (d : Descriptor) (w : World) (status : Int) (output : List UInt8) : Prop :=
  ∃ decoded supply, Invoker.readOutput status output w.supply = .ok (decoded, supply) ∧
    Storable d w.files decoded.results ∧
    (d.deferFailure = true → ∀ r ∈ decoded.resources, ∃ m, r.getMeta = .ok m)

theorem not_exitKept_error {status : Int} {failure : Failure} (h : failure.NotExit) :
    ¬ ExitKept status (.error failure) := fun ⟨e, heq, _⟩ => h e heq

theorem not_usable_of_unreadable {status : Int} {output : List UInt8} {failure : Failure}
    (h : Invoker.readOutput status output w.supply = .error failure) :
    ¬ Usable d w status output := by
  rintro ⟨decoded, supply, hread, -⟩
  exact absurd (h.symm.trans hread) (by simp)

/-- With an output that can be read, using it means to store its results and to place its
resources. -/
theorem usable_iff {status : Int} {output : List UInt8} {decoded : Envelope.Decoded}
    {supply : Supply} (h : Invoker.readOutput status output w.supply = .ok (decoded, supply)) :
    Usable d w status output ↔
      Storable d w.files decoded.results ∧
      (d.deferFailure = true → ∀ r ∈ decoded.resources, ∃ m, r.getMeta = .ok m) := by
  refine ⟨?_, fun husable => ⟨decoded, supply, h, husable⟩⟩
  rintro ⟨decoded', supply', hread, husable⟩
  obtain ⟨rfl, rfl⟩ := Prod.mk.inj (Except.ok.inj (h.symm.trans hread))
  exact husable

theorem Keeps.storable {results : Option Resource} (h : Keeps d w results (.ok ()) w') :
    Storable d w.files results := by
  intro r file hr hfile hne
  cases h with
  | nothing => simp at hr
  | recorded hnofile => exact absurd (hnofile file hfile) hne
  | stored hfile' _ hstored =>
    obtain rfl := Option.some.inj (hfile.symm.trans hfile')
    obtain rfl := Option.some.inj hr
    exact ⟨_, hstored⟩

theorem Keeps.not_storable {results : Option Resource} {failure : Failure}
    (h : Keeps d w results (.error failure) w') :
    failure.NotExit ∧ ¬ Storable d w.files results := by
  cases h with
  | unstored hfile hne hstored =>
    refine ⟨neverExit_storedIn _ _ _ _ hstored, fun hall => ?_⟩
    obtain ⟨stored, hok⟩ := hall _ _ rfl hfile hne
    exact absurd (hstored.symm.trans hok) (by simp)

variable {res : Except Failure Filtered} {req : Request} {status : Int} {output : List UInt8}

theorem notExit_failure {ε : Type} {describe : ε → Fault} (h : ∀ fault e, describe fault ≠ .exit e)
    (cause : OrNoText ε) (e : ExitFault) : cause.failure describe ≠ .fault (.exit e) := by
  cases cause with
  | fault fault => exact fun heq => h fault e (Failure.fault.inj heq)
  | noText cause => nofun

/-- **The end of a failing function is raised or kept iff its output can be used.** -/
theorem exitKept_iff (happly : (apply inv child d rs).exec w = (res, w'))
    (hcalls : w'.calls = w.calls ++ [req]) (hchild : child req = .ended status output)
    (hstatus : status ≠ 0) : ExitKept status res ↔ Usable d w status output := by
  have hcourse := exec_apply.1 happly
  cases hcourse with
  | noScope | noSplit => exact absurd (List.self_eq_append_right.1 hcalls) (by simp)
  | notCalled hdiv hcall =>
    obtain ⟨failure, hread, heq⟩ | ⟨_, _, _, _, heq, _⟩ := hcall.of_ended hcalls hchild
    · obtain rfl := Except.error.inj heq
      exact iff_of_false (not_exitKept_error (Invoker.neverExit_readOutput _ _ _ _ hread))
        (not_usable_of_unreadable hread)
    · simp at heq
  | unstored hdiv hcall hkeep =>
    rw [hkeep.calls_eq] at hcalls
    obtain ⟨decoded, payload, hread, rfl⟩ := hcall.ok_of_ended hcalls hchild
    -- nothing is written before the results are, so the files are those of the start
    obtain ⟨hnotExit, hnot⟩ := hkeep.not_storable
    rw [World.record_files, hcall.files_eq] at hnot
    exact iff_of_false (not_exitKept_error hnotExit) fun h => hnot ((usable_iff hread).1 h).1
  | failed hdiv hcall hkeep hfailed hdefer =>
    rw [World.record_calls, hkeep.calls_eq] at hcalls
    obtain ⟨decoded, payload, hread, rfl⟩ := hcall.ok_of_ended hcalls hchild
    have hstorable := hkeep.storable
    rw [World.record_files, hcall.files_eq] at hstorable
    exact iff_of_true ⟨_, rfl, rfl⟩ ((usable_iff hread).2 ⟨hstorable, by simp [hdefer]⟩)
  | unplaced hdiv hcall hkeep hjudge hpath hassign =>
    rw [judged_calls, hkeep.calls_eq] at hcalls
    obtain ⟨decoded, payload, hread, rfl⟩ := hcall.ok_of_ended hcalls hchild
    -- the failure was allowed, so it is the metadata that cannot be read
    have hdefer := hjudge.resolve_left (by simpa [Invocation.succeeded] using hstatus)
    refine iff_of_false (not_exitKept_error (notExit_failure (fun _ _ => by simp) _)) fun h => ?_
    obtain ⟨a, ha⟩ := Provenance.exists_assign_iff.2 (((usable_iff hread).1 h).2 hdefer)
    exact absurd (hassign.symm.trans ha) (by simp)
  | returned hdiv hcall hkeep hjudge hpath hassign =>
    rw [World.edit_calls, judged_calls, hkeep.calls_eq] at hcalls
    obtain ⟨decoded, payload, hread, rfl⟩ := hcall.ok_of_ended hcalls hchild
    have hfailed : ¬ (status == 0) = true := by simpa using hstatus
    have hstorable := hkeep.storable
    rw [World.record_files, hcall.files_eq] at hstorable
    refine iff_of_true ⟨rfl, ?_⟩ ((usable_iff hread).2 ⟨hstorable, fun _ => ?_⟩)
    · simp [finish, allowed, Invocation.succeeded, hfailed, editExit, exitFault]
    · exact Provenance.exists_assign_iff.1 ⟨_, hassign⟩

/-! ### A function that fails -/

/-- A world in which nothing has happened. -/
def blank : World := ⟨1, Files.empty, [], none, []⟩

/-- An executable without configuration, which may fail or not. -/
def executable (deferFailure : Bool) : Descriptor :=
  { Descriptor.empty with execPath := "/bin/fn", deferFailure }

/-- The usual way to call functions. -/
def usual : Invoker := ⟨Config.Settings.default, [], []⟩

theorem divides_executable (deferFailure : Bool) :
    Divides (executable deferFailure) [] Scope.global ⟨[], []⟩ := ⟨rfl, rfl⟩

theorem command_executable (deferFailure : Bool) :
    usual.command (executable deferFailure) usual.environment = .ok ["/bin/fn"] := rfl

theorem exists_payload (deferFailure : Bool) :
    ∃ payload, (usual.package (executable deferFailure) [] blank.supply).encode = .ok payload :=
  ⟨_, rfl⟩

/-- The function may fail, does so, and writes a resource without metadata. -/
theorem exitKept_of_nameless : ∃ res w' req,
    (apply usual (fun _ => .ended 3 [123, 125]) (executable true) []).exec blank = (res, w') ∧
      w'.calls = blank.calls ++ [req] ∧ ExitKept 3 res := by
  obtain ⟨payload, hpayload⟩ := exists_payload true
  obtain ⟨res, w', hcourse⟩ :=
    exists_course usual (fun _ => .ended 3 [123, 125]) (executable true) [] blank
  have happly := exec_apply.2 hcourse
  have hcalls := calls_of_apply (divides_executable true) (command_executable true) hpayload happly
  have hread : Invoker.readOutput 3 [123, 125] blank.supply =
      .ok (⟨[⟨1, []⟩], none, none⟩, 2) := by
    decide +kernel
  refine ⟨res, w', _, happly, hcalls, (exitKept_iff happly hcalls rfl (by decide)).2 ?_⟩
  refine (usable_iff hread).2 ⟨fun r file hr => by simp at hr, fun _ r hr => ?_⟩
  obtain rfl := List.mem_singleton.1 hr
  exact ⟨_, rfl⟩

/-- **The end of a failing function is lost** where its output is no document: what is raised
tells no status. -/
theorem exit_lost_of_malformed : ∃ w' req,
    (apply usual (fun _ => .ended 3 [91]) (executable false) []).exec blank =
      (.error (.fault (.decode (.invalidOutput .malformed))), w') ∧
      w'.calls = blank.calls ++ [req] ∧
      ¬ ExitKept 3 (.error (.fault (.decode (.invalidOutput .malformed)))) := by
  obtain ⟨payload, hpayload⟩ := exists_payload false
  have hread : Invoker.readOutput 3 [91] blank.supply =
      .error (.fault (.decode (.invalidOutput .malformed))) := by
    decide +kernel
  have hcourse : Course usual (fun _ => .ended 3 [91]) (executable false) [] blank _ _ :=
    .notCalled (divides_executable false)
      (.unreadable (command_executable false) hpayload rfl hread)
  exact ⟨_, _, exec_apply.2 hcourse, rfl, not_exitKept_error fun e => by simp⟩

end Filter

end ScopedFn
