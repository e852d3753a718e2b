import Subplans.Text.Scan

/-!
Files, as far as they are read and written.

A `Files` gives access to files by their paths in some monad `m`. That a file is missing is told apart from all
other faults.
-/

namespace Subplans

-- Why a file cannot be read, written or removed.
inductive FileError
  | missing
  | failed
deriving DecidableEq, Repr

structure Files (m : Type → Type) where
  read : (path : String) → m (Except FileError String)
  write : (path contents : String) → m (Except FileError Unit)
  remove : (path : String) → m (Except FileError Unit)
  -- Makes a directory, and those on the way to it, unless it is there.
  makeDirectory : (path : String) → m (Except FileError Unit)
  list : (directory : String) → m (Except FileError (List String))

namespace Files

-- The path of a file in a directory; one that starts at the root stands for itself.
def path (directory name : String) : String :=
  if name.toList.head? == some '/' then name else directory ++ "/" ++ name

-- The name of a file without its extension, and the extension: what stands after the last point, unless that is the
-- first character.
def splitExtension (name : String) : String × Option String :=
  match Text.cutLast? ['.'] name.toList with
  | none | some ([], _) => (name, none)
  | some (stem, extension) => (String.ofList stem, some (String.ofList extension))

-- The directory that a path leads into; none if it names no directory.
def parent? (path : String) : Option String :=
  (Text.cutLast? ['/'] path.toList).map fun (directory, _) => String.ofList directory

variable {m : Type → Type} [Monad m]

def read? (f : Files m) (path : String) : ExceptT FileError m (Option String) := do
  match ← ExceptT.lift (f.read path) with
  | .ok text => return some text
  | .error .missing => return none
  | .error e => throw e

def clear (f : Files m) (path : String) : ExceptT FileError m Unit := do
  match ← ExceptT.lift (f.remove path) with
  | .ok _ | .error .missing => return
  | .error e => throw e

def save (f : Files m) (path contents : String) : ExceptT FileError m Unit :=
  ExceptT.mk (f.write path contents)

end Files

end Subplans
