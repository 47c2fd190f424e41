import ScopedFn.Path
import ScopedFn.Resource.Basic

/-!
# Scope directories

A function sees the resources below one directory, its scope: the directory of the file that
declares it. A directory named `functions` stands for its parent, so that functions kept in it
see what lies around it.

* `resourceDir` is the directory that counts for a file;
* `functionScope` is the scope of a function, the global one for a function without a file;
* `isWithin` compares the texts of directories; the separator behind the scope sees to it that
  only whole segments count.
-/

set_option autoImplicit false

namespace ScopedFn.Scope

/-- The directory name that stands for the parent directory. -/
def reservedName : List Char := "functions".toList

/-- The scope that holds every resource. -/
def global : Path := []

/-- A directory, the current one being global. -/
def orGlobal (dir : Path) : Path := if dir = ['.'] ∨ dir = [] then global else dir

/-- The normal form of a file's directory. -/
def fileDir (path : Path) : Path := orGlobal path.dirname.normalize

/-- A directory with the reserved name gives way to its parent. -/
def liftReserved (dir : Path) : Path :=
  if dir.basename = reservedName then orGlobal dir.dirname else dir

/-- The directory that counts for a file. -/
def resourceDir (path : Path) : Path := liftReserved (fileDir path)

/-- The scope of a function that a resource configures. -/
def functionScope : Option Resource → Except (OrNoText MetaFault) Path
  | none => .ok global
  | some config => do
    let m ← config.getMeta
    match m.path? with
    | none => .ok global
    | some path => .ok (resourceDir path.toList)

/-- The directory is the scope or lies below it. -/
def isWithin (dir scope : Path) : Bool :=
  scope = global || dir = scope || (scope.trimEnd ++ ['/']).isPrefixOf dir

end ScopedFn.Scope
