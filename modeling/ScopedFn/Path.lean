import ScopedFn.Text.Split

/-!
# Paths

Paths are texts whose segments are separated by `/`. All operations are lexical: nothing is
looked up in a file system.

* `splitLast` cuts a path behind its last separator; `dirname` and `basename` are its halves;
* `normalize` drops empty and `.` segments and lets `..` cancel the segment before it;
* `join` appends one path to another, an absolute one replacing it;
* `splitExtension` cuts off the extension of the last segment;
* `Lexical` is a path as a tidy list of segments, the form in which files are named.
-/

set_option autoImplicit false

namespace ScopedFn

/-- A path: its characters. -/
abbrev Path := List Char

namespace Path

/-- The segments between separators; a path has one segment more than separators. -/
def segments (cs : List Char) : List (List Char) := Text.splitOn '/' cs

/-- Segments with separators between them. -/
def joinSegments (ss : List (List Char)) : List Char := ['/'].intercalate ss

/-- The path of some leading separators and segments. -/
def ofSegments (root : Nat) (ss : List (List Char)) : Path :=
  List.replicate root '/' ++ joinSegments ss

/-- The path up to and with its last separator, and what follows it. -/
def splitLast (cs : Path) : Path × Path :=
  let tail := (cs.reverse.takeWhile (· != '/')).reverse
  (cs.take (cs.length - tail.length), tail)

/-- The path without the separators at its end. -/
def trimEnd (cs : Path) : Path := (cs.reverse.dropWhile (· == '/')).reverse

/-- The directory part: without trailing separators, unless it has nothing else. -/
def dirname (cs : Path) : Path :=
  let head := (splitLast cs).1
  if head.all (· == '/') then head else trimEnd head

/-- The last segment. -/
def basename (cs : Path) : Path := (splitLast cs).2

/-- The segment that stands for the parent directory. -/
def parentSegment : List Char := ['.', '.']

/-- How many leading separators a normal path keeps: two stay two, more become one. -/
def rootSlashes : Path → Nat
  | '/' :: '/' :: '/' :: _ => 1
  | '/' :: '/' :: _ => 2
  | '/' :: _ => 1
  | _ => 0

/-- Adds a segment to a normal list of segments, which is kept in reverse. -/
def pushSegment (rooted : Bool) (done : List (List Char)) (s : List Char) : List (List Char) :=
  if s = [] ∨ s = ['.'] then done
  else if s ≠ parentSegment then s :: done
  else
    match done with
    | [] => if rooted then [] else [s]
    | last :: before => if last = parentSegment then s :: last :: before else before

/-- The segments that remain after normalisation. -/
def normalSegments (cs : List Char) : List (List Char) :=
  ((segments cs).foldl (pushSegment (rootSlashes cs != 0)) []).reverse

/-- The normal form of a path; a path of no segments is `.`. -/
def normalize (cs : Path) : Path :=
  let path := ofSegments (rootSlashes cs) (normalSegments cs)
  if path = [] then ['.'] else path

/-- Appends a path to another; an absolute path replaces it. -/
def join (a b : Path) : Path :=
  if b.head? = some '/' then b
  else if a = [] ∨ a.getLast? = some '/' then a ++ b
  else a ++ '/' :: b

/-- Cuts the last segment before its last dot, if some character other than a dot stands before
that dot in the segment. -/
def splitExtension (cs : Path) : Path × Path :=
  let (head, name) := splitLast cs
  let extension := (name.reverse.takeWhile (· != '.')).reverse
  let stem := name.take (name.length - extension.length - 1)
  if extension.length < name.length ∧ stem.any (· != '.') then
    (head ++ stem, '.' :: extension)
  else (cs, [])

/-- A path as a tidy list of segments. -/
structure Lexical where
  /-- Zero for a relative path, otherwise one or two. -/
  root : Nat
  /-- The segments, none of them empty or `.`. -/
  parts : List (List Char)
  deriving DecidableEq, Repr

/-- The tidy form of a path; parent segments stay. -/
def Lexical.ofPath (cs : Path) : Lexical :=
  ⟨rootSlashes cs, (segments cs).filter fun s => s ≠ [] ∧ s ≠ ['.']⟩

/-- The text of a tidy path; the empty one is `.`. -/
def Lexical.text (p : Lexical) : Path :=
  let path := ofSegments p.root p.parts
  if path = [] then ['.'] else path

/-- The last segment, empty if there is none. -/
def Lexical.name (p : Lexical) : List Char := p.parts.getLast?.getD []

/-- The last dot of the name and what follows it, unless the dot is the first or the last
character of the name. -/
def Lexical.suffix (p : Lexical) : List Char :=
  let extension := (p.name.reverse.takeWhile (· != '.')).reverse
  if extension ≠ [] ∧ extension.length + 1 < p.name.length then '.' :: extension else []

end Path

end ScopedFn
