/-!
# Splitting text

`splitOn` cuts a text at every occurrence of a separator; a text without one is a single part.

* `not_mem_of_mem_splitOn` says that no part holds the separator.
-/

set_option autoImplicit false

namespace ScopedFn.Text

/-- The parts between separators; there is one part more than separators. -/
def splitOn (separator : Char) : List Char → List (List Char)
  | [] => [[]]
  | c :: cs =>
    if c = separator then [] :: splitOn separator cs
    else
      match splitOn separator cs with
      | [] => [[c]]
      | p :: ps => (c :: p) :: ps

variable {separator : Char}

/-- There is always a part. -/
theorem splitOn_ne_nil (cs : List Char) : splitOn separator cs ≠ [] := by
  cases cs with
  | nil => simp [splitOn]
  | cons c cs =>
    unfold splitOn
    split
    · simp
    · split <;> simp

/-- No part holds the separator. -/
theorem not_mem_of_mem_splitOn {cs part : List Char} (h : part ∈ splitOn separator cs) :
    separator ∉ part := by
  induction cs generalizing part with
  | nil => simp_all [splitOn]
  | cons c cs ih =>
    unfold splitOn at h
    split at h
    · rcases List.mem_cons.1 h with rfl | h
      · simp
      · exact ih h
    · next hc =>
      split at h
      · simp_all [Ne.symm hc]
      · next p ps hs =>
        rcases List.mem_cons.1 h with rfl | h
        · have : separator ∉ p := ih (by simp [hs])
          simp [this, Ne.symm hc]
        · exact ih (by simp [hs, h])

end ScopedFn.Text
