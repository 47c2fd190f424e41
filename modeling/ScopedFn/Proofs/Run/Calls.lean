import ScopedFn.Proofs.Run.Step

/-!
# The courses of a call

A call of a function ends in one of five ways. Each of them is told by what the parts of the call
give: the command, the text that is sent, the reaction of the process and the reading of what it
wrote.

* `Invoker.Calls` : the ways in which a call ends, with the world it leaves;
* `Invoker.exec_invoke` : a call ends in one of these ways and, as nothing is left open, in no
  other.
-/

set_option autoImplicit false

namespace ScopedFn

namespace Invoker

variable {inv : Invoker} {child : Child} {d : Descriptor} {rs : List Resource} {w w' : World}

/-- The world in which the text of a package is made. -/
def packed (inv : Invoker) (d : Descriptor) (rs : List Resource) (w : World) : World :=
  w.edit (inv.package d rs w.supply).edits

/-- The request that a package is sent with. -/
def request (inv : Invoker) (command : List String) (payload : String) : Request :=
  ⟨command, inv.environment, payload⟩

/-- The ways in which a call of a function ends. -/
inductive Calls (inv : Invoker) (child : Child) (d : Descriptor) (rs : List Resource) (w : World) :
    Except Failure Invocation → World → Prop
  /-- There is nothing to run. -/
  | noCommand {fault : SpecFault} (hcommand : inv.command d inv.environment = .error fault) :
      Calls inv child d rs w (.error (.fault (.spec fault))) w
  /-- The resources cannot be written. -/
  | noPayload {command : List String} {failure : Failure}
      (hcommand : inv.command d inv.environment = .ok command)
      (hpayload : (inv.package d rs w.supply).encode = .error failure) :
      Calls inv child d rs w (.error failure) (inv.packed d rs w)
  /-- The process cannot be started. -/
  | refused {command : List String} {payload reason : String}
      (hcommand : inv.command d inv.environment = .ok command)
      (hpayload : (inv.package d rs w.supply).encode = .ok payload)
      (hchild : child (inv.request command payload) = .refused reason) :
      Calls inv child d rs w (.error (.fault (.spawn (command.headD "") reason)))
        ((inv.packed d rs w).call (inv.request command payload))
  /-- What the process wrote cannot be read. -/
  | unreadable {command : List String} {payload : String} {status : Int} {output : List UInt8}
      {failure : Failure}
      (hcommand : inv.command d inv.environment = .ok command)
      (hpayload : (inv.package d rs w.supply).encode = .ok payload)
      (hchild : child (inv.request command payload) = .ended status output)
      (hread : readOutput status output w.supply = .error failure) :
      Calls inv child d rs w (.error failure)
        ((inv.packed d rs w).call (inv.request command payload))
  /-- The process ended, and what it wrote is read. -/
  | answered {command : List String} {payload : String} {status : Int} {output : List UInt8}
      {decoded : Envelope.Decoded} {supply : Supply}
      (hcommand : inv.command d inv.environment = .ok command)
      (hpayload : (inv.package d rs w.supply).encode = .ok payload)
      (hchild : child (inv.request command payload) = .ended status output)
      (hread : readOutput status output w.supply = .ok (decoded, supply)) :
      Calls inv child d rs w
        (.ok ⟨decoded.resources, decoded.results, status, Config.PayloadMeta.ofText payload⟩)
        { (inv.packed d rs w).call (inv.request command payload) with supply := supply }

variable {res : Except Failure Invocation}

theorem exec_invoke_of_command {command : List String}
    (hcommand : inv.command d inv.environment = .ok command) :
    (inv.invoke child d rs).exec w =
      (do
        let payload ← Run.ofExcept (inv.package d rs w.supply).encode
        modify (World.call (inv.request command payload))
        match child (inv.request command payload) with
        | .refused reason => throw (.fault (.spawn (command.headD "") reason))
        | .ended status output =>
          let decoded ← Run.withSupply (readOutput status output)
          return ⟨decoded.resources, decoded.results, status,
            Config.PayloadMeta.ofText payload⟩ : Run Invocation).exec (inv.packed d rs w) := by
  rw [invoke, hcommand]
  rfl

/-- Each course determines the call. -/
theorem Calls.exec_eq (h : Calls inv child d rs w res w') :
    (inv.invoke child d rs).exec w = (res, w') := by
  cases h with
  | noCommand hcommand => simp [invoke, Run.exec_bind, hcommand]
  | noPayload hcommand hpayload =>
    rw [exec_invoke_of_command hcommand, hpayload]
    rfl
  | refused hcommand hpayload hchild =>
    rw [exec_invoke_of_command hcommand, hpayload, Run.exec_bind_ok (Run.exec_ofExcept _ _),
      Run.exec_bind_ok (Run.exec_modify _ _), hchild]
    rfl
  | unreadable hcommand hpayload hchild hread =>
    rw [exec_invoke_of_command hcommand, hpayload, Run.exec_bind_ok (Run.exec_ofExcept _ _),
      Run.exec_bind_ok (Run.exec_modify _ _), hchild]
    exact Run.exec_bind_error (Run.exec_withSupply_error hread)
  | answered hcommand hpayload hchild hread =>
    rw [exec_invoke_of_command hcommand, hpayload, Run.exec_bind_ok (Run.exec_ofExcept _ _),
      Run.exec_bind_ok (Run.exec_modify _ _), hchild]
    exact Run.exec_bind_ok (Run.exec_withSupply_ok hread)

/-- A call takes some course. -/
theorem exists_calls (inv : Invoker) (child : Child) (d : Descriptor) (rs : List Resource)
    (w : World) : ∃ res w', Calls inv child d rs w res w' := by
  cases hcommand : inv.command d inv.environment with
  | error fault => exact ⟨_, _, .noCommand hcommand⟩
  | ok command =>
    cases hpayload : (inv.package d rs w.supply).encode with
    | error failure => exact ⟨_, _, .noPayload hcommand hpayload⟩
    | ok payload =>
      cases hchild : child (inv.request command payload) with
      | refused reason => exact ⟨_, _, .refused hcommand hpayload hchild⟩
      | ended status output =>
        rcases hread : readOutput status output w.supply with failure | ⟨decoded, supply⟩
        · exact ⟨_, _, .unreadable hcommand hpayload hchild hread⟩
        · exact ⟨_, _, .answered hcommand hpayload hchild hread⟩

/-- **The courses of a call.** -/
theorem exec_invoke : (inv.invoke child d rs).exec w = (res, w') ↔ Calls inv child d rs w res w' := by
  refine ⟨fun h => ?_, Calls.exec_eq⟩
  obtain ⟨res₀, w₀, hcalls⟩ := exists_calls inv child d rs w
  obtain ⟨rfl, rfl⟩ := Prod.mk.inj (h.symm.trans hcalls.exec_eq)
  exact hcalls

/-! ### What a call changes -/

theorem Calls.files_eq (h : Calls inv child d rs w res w') : w'.files = w.files := by
  cases h <;> rfl

theorem Calls.exists_command {i : Invocation} (h : Calls inv child d rs w (.ok i) w') :
    ∃ command, inv.command d inv.environment = .ok command := by
  cases h with
  | answered hcommand => exact ⟨_, hcommand⟩

/-- With a command and a text to send, a process is started, or the attempt is made. -/
theorem Calls.calls_eq {command : List String} {payload : String} (h : Calls inv child d rs w res w')
    (hcommand : inv.command d inv.environment = .ok command)
    (hpayload : (inv.package d rs w.supply).encode = .ok payload) :
    w'.calls = w.calls ++ [inv.request command payload] := by
  cases h with
  | noCommand hcommand' => exact absurd (hcommand.symm.trans hcommand') (by simp)
  | noPayload _ hpayload' => exact absurd (hpayload.symm.trans hpayload') (by simp)
  | refused hcommand' hpayload' | unreadable hcommand' hpayload' | answered hcommand' hpayload' =>
    obtain rfl := Except.ok.inj (hcommand.symm.trans hcommand')
    obtain rfl := Except.ok.inj (hpayload.symm.trans hpayload')
    rfl

/-- A call that started a process which ended comes down to the reading of what it wrote. -/
theorem Calls.of_ended {req : Request} {status : Int} {output : List UInt8}
    (h : Calls inv child d rs w res w') (hcalls : w'.calls = w.calls ++ [req])
    (hchild : child req = .ended status output) :
    (∃ failure, readOutput status output w.supply = .error failure ∧ res = .error failure) ∨
      ∃ decoded supply payload, readOutput status output w.supply = .ok (decoded, supply) ∧
        res = .ok ⟨decoded.resources, decoded.results, status, payload⟩ ∧ w'.supply = supply := by
  cases h with
  | noCommand | noPayload => exact absurd (List.self_eq_append_right.1 hcalls) (by simp)
  | refused hcommand hpayload hrefused =>
    obtain rfl := List.singleton_inj.1 (List.append_cancel_left hcalls)
    exact absurd (hchild.symm.trans hrefused) (by simp)
  | unreadable hcommand hpayload hended hread =>
    obtain rfl := List.singleton_inj.1 (List.append_cancel_left hcalls)
    obtain ⟨rfl, rfl⟩ := Reaction.ended.inj (hchild.symm.trans hended)
    exact .inl ⟨_, hread, rfl⟩
  | answered hcommand hpayload hended hread =>
    obtain rfl := List.singleton_inj.1 (List.append_cancel_left hcalls)
    obtain ⟨rfl, rfl⟩ := Reaction.ended.inj (hchild.symm.trans hended)
    exact .inr ⟨_, _, _, hread, rfl, rfl⟩

/-- What a call gives comes from a process that was started and ended. -/
theorem Calls.ok_of_ended {i : Invocation} {req : Request} {status : Int} {output : List UInt8}
    (h : Calls inv child d rs w (.ok i) w') (hcalls : w'.calls = w.calls ++ [req])
    (hchild : child req = .ended status output) :
    ∃ decoded payload, readOutput status output w.supply = .ok (decoded, w'.supply) ∧
      i = ⟨decoded.resources, decoded.results, status, payload⟩ := by
  obtain ⟨failure, -, heq⟩ | ⟨decoded, supply, payload, hread, heq, rfl⟩ := h.of_ended hcalls hchild
  · simp at heq
  · exact ⟨decoded, payload, hread, Except.ok.inj heq⟩

end Invoker

end ScopedFn
