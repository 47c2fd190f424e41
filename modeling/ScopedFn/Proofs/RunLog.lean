import ScopedFn.RunLog

/-!
# What records hold

An event is found again by its fields, a warning by the function that it is about.

* `RunLog.fieldOf` : a field of an event;
* `RunLog.fieldOf_event` : further fields of other names hide none of those that every event has;
* `RunLog.warningsOf?`, `RunLog.added` : the warnings of a function, and what new ones make of them.
-/

set_option autoImplicit false

namespace ScopedFn

namespace Entries

variable {α : Type}

/-- A key keeps its value if it is not among those that are set. -/
theorem find?_putAll_of_notMem {key : String} {new : List (String × α)}
    (h : key ∉ new.map (·.1)) (es : List (String × α)) :
    find? (· == ·) key (putAll (· == ·) es new) = find? (· == ·) key es := by
  induction new generalizing es with
  | nil => rfl
  | cons e new ih =>
    obtain ⟨hne, hnew⟩ := not_or.1 (mt List.mem_cons.2 h)
    have hother : ∀ k, (k == e.1) = true → (k == key) = false := fun k hk => by
      rw [eq_of_beq hk]
      exact beq_false_of_ne fun heq => hne heq.symm
    refine (ih hnew _).trans (find?_put_ne hother ?_ es)
    exact beq_false_of_ne fun heq => hne heq.symm

/-- Changing all values keeps the keys. -/
theorem has_map {β : Type} (f : α → β) (key : String) (es : List (String × α)) :
    has (· == ·) key (es.map fun e => (e.1, f e.2)) = has (· == ·) key es := by
  induction es with
  | nil => rfl
  | cons e es ih =>
    simp only [has] at ih
    by_cases hk : e.1 == key <;> simp [has, find?, hk, ih]

theorem has_put (key : String) (a : α) (es : List (String × α)) (k : String) :
    has (· == ·) k (put (· == ·) key a es) = (has (· == ·) k es || key == k) := by
  by_cases hk : key = k
  · subst hk
    simp [has, find?_put_self]
  · have hother : ∀ l, (l == key) = true → (l == k) = false := fun l hl => by
      rw [eq_of_beq hl]
      exact beq_false_of_ne hk
    simp [has, find?_put_ne hother (beq_false_of_ne hk), hk]

end Entries

namespace RunLog

variable {step level message : String} {extra : Details} {l : RunLog}

/-- A field of an event. -/
def fieldOf (name : String) (event : Details) : Option Value := Entries.find? (· == ·) name event

/-- The event that is recorded. -/
def event (step level message : String) (extra : Details) (l : RunLog) : Details :=
  Entries.putAll (· == ·)
    [("run_id", .text l.runId), ("step_id", .text step), ("level", .text level),
      ("message", .text message), ("timestamp", .text l.now)] extra

theorem log_events : (l.log step level message extra).events =
    l.events ++ [l.event step level message extra] := rfl

/-- Further fields of other names hide none of those that every event has. -/
theorem fieldOf_event {name : String} (h : name ∉ extra.map (·.1)) :
    fieldOf name (l.event step level message extra) =
      fieldOf name (l.event step level message []) :=
  Entries.find?_putAll_of_notMem h _

/-- The warnings of a function, if there is an entry for it. -/
def warningsOf? (step : String) (l : RunLog) : Option (List String) :=
  Entries.find? (· == ·) step l.warnings

/-- Warnings with new ones behind them; without new ones there need not be an entry. -/
def added (before : Option (List String)) (new : List String) : Option (List String) :=
  if new = [] then before else some (before.getD [] ++ new)

theorem added_append (before : Option (List String)) (new new' : List String) :
    added before (new ++ new') = added (added before new) new' := by
  rcases new with _ | ⟨m, new⟩
  · rfl
  · rcases new' with _ | ⟨m', new'⟩ <;> simp [added]

section

variable (es : List Edit) (key : String) (v : Value)

@[simp] theorem log_warningsOf? (function : String) :
    (l.log step level message extra).warningsOf? function = l.warningsOf? function := rfl

@[simp] theorem log_hasArtifact :
    (l.log step level message extra).hasArtifact key = l.hasArtifact key := rfl

@[simp] theorem warn_hasArtifact : (l.warn step message).hasArtifact key = l.hasArtifact key := rfl

@[simp] theorem editAll_hasArtifact : (l.editAll es).hasArtifact key = l.hasArtifact key :=
  Entries.has_map _ _ _

@[simp] theorem setArtifact_warningsOf? (function : String) :
    (l.setArtifact key v).warningsOf? function = l.warningsOf? function := rfl

theorem setArtifact_hasArtifact (other : String) :
    (l.setArtifact key v).hasArtifact other = (l.hasArtifact other || key == other) :=
  Entries.has_put _ _ _ _

end

/-- A warning comes behind those of its function, and no other function gets one. -/
theorem warn_warningsOf? (function : String) : (l.warn step message).warningsOf? function =
    added (l.warningsOf? function) (if function = step then [message] else []) := by
  by_cases h : function = step
  · subst h
    simp [warn, warningsOf?, added, Entries.find?_put_self]
  · have hother : ∀ k, (k == step) = true → (k == function) = false := fun k hk => by
      rw [eq_of_beq hk]
      exact beq_false_of_ne (Ne.symm h)
    simp [warn, warningsOf?, added, h, Entries.find?_put_ne hother (beq_false_of_ne (Ne.symm h))]

end RunLog

end ScopedFn
