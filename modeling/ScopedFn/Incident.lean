import ScopedFn.Report

/-!
# Incidents

Errors that do not belong to running functions, such as those of the operating system. Operators
are told their text and the name of their kind, and that the work cannot go on.

* `Incident.name` and `Incident.text` are kind and text;
* `Incident.payload` is the form for operators.
-/

set_option autoImplicit false

namespace ScopedFn

/-- An error from elsewhere. -/
inductive Incident where
  /-- A key that is missing. -/
  | missingKey (key : Value)
  /-- An error of the operating system, by its number and text, with the file that it is about
  and the file that was to be made from it; null where none is named. -/
  | system (number text file target : Value)
  /-- Any other error, by the name of its kind and the values that it tells. -/
  | other (name : String) (values : List Value)

namespace Incident

/-- The names of the system errors that are a kind of their own, by number. -/
def systemNames : List (Atom × String) :=
  [(1, "PermissionError"), (2, "FileNotFoundError"), (3, "ProcessLookupError"),
    (4, "InterruptedError"), (10, "ChildProcessError"), (11, "BlockingIOError"),
    (13, "PermissionError"), (17, "FileExistsError"), (20, "NotADirectoryError"),
    (21, "IsADirectoryError"), (32, "BrokenPipeError"), (103, "ConnectionAbortedError"),
    (104, "ConnectionResetError"), (108, "BrokenPipeError"), (110, "TimeoutError"),
    (111, "ConnectionRefusedError"), (114, "BlockingIOError"), (115, "BlockingIOError")].map
    fun ((n : Int), name) => (.int n, name)

/-- The name of the kind of an error. -/
def name : Incident → String
  | missingKey _ => "KeyError"
  | system (.atom number) _ _ _ => (Entries.find? Atom.same number systemNames).getD "OSError"
  | system _ _ _ _ => "OSError"
  | other name _ => name

/-- The files of a system error behind its text. -/
def fileText (file target : Value) : Except TextFault String := do
  if file.isNull then return ""
  let named ← file.shownInside
  if target.isNull then return ": " ++ named
  return ": " ++ named ++ " -> " ++ (← target.shownInside)

/-- The text of an error: a missing key as it stands inside other values, of other values a single
one as itself and several in parentheses. -/
def text : Incident → Except TextFault String
  | missingKey key => key.shownInside
  | system number text file target => do
    return "[Errno " ++ (← number.shown) ++ "] " ++ (← text.shown) ++ (← fileText file target)
  | other _ [] => .ok ""
  | other _ [v] => v.shown
  | other _ vs => (Value.tuple noObject vs).shownInside

/-- What operators are told about an error. -/
def payload (i : Incident) : Except TextFault Payload := do
  let text ← i.text
  return {
    code := Family.general.code
    message := if text = "" then "Erro inesperado durante execução da função" else text
    details := [(.text "exception_class", .text i.name)]
    hint := some "Verifique o stderr da função e a configuração do descriptor"
    fatal := true }

end Incident

end ScopedFn
