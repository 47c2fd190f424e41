import ScopedFn.Invocation

/-!
# Carrying out steps

What a step makes of a world, one law for each way to build a step. A step that fails keeps what
it changed before.

* `Run.exec` : the result of a step in a world, and the world after it.
-/

set_option autoImplicit false

namespace ScopedFn

namespace World

variable (f : RunLog → RunLog) (es : List Edit) (w : World)

@[simp] theorem record_supply : (w.record f).supply = w.supply := rfl

@[simp] theorem record_files : (w.record f).files = w.files := rfl

@[simp] theorem record_calls : (w.record f).calls = w.calls := rfl

@[simp] theorem record_edits : (w.record f).edits = w.edits := rfl

@[simp] theorem edit_supply : (w.edit es).supply = w.supply := rfl

@[simp] theorem edit_files : (w.edit es).files = w.files := rfl

@[simp] theorem edit_calls : (w.edit es).calls = w.calls := rfl

@[simp] theorem edit_edits : (w.edit es).edits = w.edits ++ es := rfl

end World

namespace Run

variable {α β ε : Type} {w : World}

/-- The result of a step in a world, and the world after it. -/
def exec (m : Run α) (w : World) : Except Failure α × World := m.run.run w

@[simp] theorem exec_pure (a : α) (w : World) : (pure a : Run α).exec w = (.ok a, w) := rfl

@[simp] theorem exec_throw (e : Failure) (w : World) : (throw e : Run α).exec w = (.error e, w) := rfl

@[simp] theorem exec_get (w : World) : (get : Run World).exec w = (.ok w, w) := rfl

@[simp] theorem exec_modify (f : World → World) (w : World) :
    (modify f : Run PUnit).exec w = (.ok ⟨⟩, f w) := rfl

@[simp] theorem exec_record (f : RunLog → RunLog) (w : World) :
    (record f).exec w = (.ok (), w.record f) := rfl

@[simp] theorem exec_edit (es : List Edit) (w : World) : (edit es).exec w = (.ok (), w.edit es) := rfl

/-- One step behind another is carried out unless the first one fails. -/
theorem exec_bind (m : Run α) (f : α → Run β) (w : World) :
    (m >>= f).exec w =
      match m.exec w with
      | (.ok a, w') => (f a).exec w'
      | (.error e, w') => (.error e, w') := by
  simp only [exec, ExceptT.run_bind, StateT.run_bind]
  rcases hm : m.run.run w with ⟨_ | a, w'⟩ <;> rfl

theorem exec_bind_ok {m : Run α} {f : α → Run β} {a : α} {w' : World} (h : m.exec w = (.ok a, w')) :
    (m >>= f).exec w = (f a).exec w' := by
  rw [exec_bind, h]

theorem exec_bind_error {m : Run α} {f : α → Run β} {e : Failure} {w' : World}
    (h : m.exec w = (.error e, w')) : (m >>= f).exec w = (.error e, w') := by
  rw [exec_bind, h]

@[simp] theorem exec_orFault_ok (describe : ε → Fault) (a : α) (w : World) :
    (orFault describe (.ok a)).exec w = (.ok a, w) := rfl

@[simp] theorem exec_orFault_error (describe : ε → Fault) (e : ε) (w : World) :
    (orFault describe (.error e : Except ε α)).exec w = (.error (.fault (describe e)), w) := rfl

@[simp] theorem exec_orFailure_ok (describe : ε → Fault) (a : α) (w : World) :
    (orFailure describe (.ok a)).exec w = (.ok a, w) := rfl

@[simp] theorem exec_orFailure_error (describe : ε → Fault) (e : OrNoText ε) (w : World) :
    (orFailure describe (.error e : Except (OrNoText ε) α)).exec w =
      (.error (e.failure describe), w) := rfl

@[simp] theorem exec_ofExcept (x : Except Failure α) (w : World) : (ofExcept x).exec w = (x, w) := by
  cases x <;> rfl

theorem exec_withSupply_ok {step : StateT Supply (Except Failure) α} {a : α} {supply : Supply}
    (h : step.run w.supply = .ok (a, supply)) :
    (withSupply step).exec w = (.ok a, { w with supply := supply }) := by
  rw [withSupply, exec_bind_ok (exec_get w), h]
  rfl

theorem exec_withSupply_error {step : StateT Supply (Except Failure) α} {e : Failure}
    (h : step.run w.supply = .error e) : (withSupply step).exec w = (.error e, w) := by
  rw [withSupply, exec_bind_ok (exec_get w), h]
  rfl

end Run

end ScopedFn
