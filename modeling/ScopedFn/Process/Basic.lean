import ScopedFn.Resource.Basic

/-!
# Processes

What is known of the process of a function: the request it is started with, and how it reacts.
A `Child` may react in any way to a request.
-/

set_option autoImplicit false

namespace ScopedFn

/-- What a process is started with. -/
structure Request where
  /-- The program and its arguments. -/
  command : List String
  /-- The variables. -/
  environment : TextMap
  /-- The whole text of the standard input. -/
  input : String
  deriving DecidableEq, Repr

/-- What becomes of a request. -/
inductive Reaction where
  /-- The process cannot be started. -/
  | refused (reason : String)
  /-- The process ended with a status, after it had written its output. -/
  | ended (status : Int) (output : List UInt8)
  deriving DecidableEq, Repr

/-- A program, by its reactions. -/
abbrev Child := Request → Reaction

end ScopedFn
