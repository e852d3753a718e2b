import Subplans.Files.Basic

/-!
Files with queries.
-/

namespace Subplans

structure QueryFile where
  name : String
  sql : String
deriving DecidableEq, Repr

namespace QueryFile

def extension : String := "sql"

-- The names of files with queries among some names, in order.
def sortedNames (names : List String) : List String :=
  (names.filter fun name => (Files.splitExtension name).2 == some extension).mergeSort fun a b => !decide (b < a)

-- The items at some positions, counted from one; all of them if no positions are given.
def select {α : Type} (selection : Option (List Nat)) (items : List α) : List α :=
  match selection with
  | none => items
  | some positions => (items.zipIdx.filter fun (_, i) => positions.contains (i + 1)).map Prod.fst

variable {m : Type → Type} [Monad m]

def read (files : Files m) (directory name : String) : ExceptT FileError m QueryFile := do
  let sql ← ExceptT.mk (files.read (directory ++ "/" ++ name))
  return { name := (Files.splitExtension name).1, sql }

def readAll (files : Files m) (directory : String) (selection : Option (List Nat)) :
    ExceptT FileError m (List QueryFile) := do
  let names ← ExceptT.mk (files.list directory)
  (select selection (sortedNames names)).mapM (read files directory)

end QueryFile

end Subplans
