import ScopedFn.Process.Basic

/-!
# Scripted processes

A process that follows a script: it writes fixed bytes, possibly its own input with some texts
replaced, and ends with a fixed status. The script that only repeats the input is the function
that leaves its resources as they are.
-/

set_option autoImplicit false

namespace ScopedFn

/-- Replaces a text wherever it occurs, from left to right. The empty text occurs around every
character. -/
def replaceAll (old new : List Char) (cs : List Char) : List Char :=
  match cs with
  | [] => if old = [] then new else []
  | c :: rest =>
    if old = [] then new ++ c :: replaceAll old new rest
    else if old.isPrefixOf (c :: rest) then new ++ replaceAll old new (rest.drop (old.length - 1))
    else c :: replaceAll old new rest
termination_by cs.length
decreasing_by all_goals (simp only [List.length_cons, List.length_drop]; omega)

/-- What a process does. -/
structure Script where
  /-- The reason for which it cannot be started, if it cannot. -/
  refusal : Option String
  /-- What it writes first. -/
  output : List UInt8
  /-- It writes its input next. -/
  echo : Bool
  /-- What it replaces in its input, one text after the other. -/
  replacements : List (String × String)
  /-- What it writes last. -/
  ending : String
  /-- The status it ends with. -/
  status : Int
  deriving Repr

namespace Script

/-- Repeats the input. -/
def identity : Script := ⟨none, [], true, [], "", 0⟩

/-- The input with all replacements. -/
def replaced (s : Script) (input : String) : String :=
  String.ofList (s.replacements.foldl
    (fun cs (old, new) => replaceAll old.toList new.toList cs) input.toList)

/-- The process that follows the script. -/
def child (s : Script) : Child := fun request =>
  match s.refusal with
  | some reason => .refused reason
  | none =>
    let repeated := if s.echo then (s.replaced request.input).toUTF8.toList else []
    .ended s.status (s.output ++ repeated ++ s.ending.toUTF8.toList)

end Script

end ScopedFn
