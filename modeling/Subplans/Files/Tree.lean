import Subplans.Assoc
import Subplans.Files.Basic

/-!
Files in memory.

A `FileTree` holds directories and files by their paths from the root. It is read and written through
`FileTree.access`, in any state that holds one.
-/

namespace Subplans

structure FileTree where
  -- The directories but for the root.
  directories : List String := []
  files : List (String × String) := []
deriving Repr

namespace FileTree

-- The path of the root. The paths of all other directories end in a name.
def root : String := ""

-- The tree with some directories and files, of which the last with a path counts.
def ofFiles (directories : List String) (files : List (String × String)) : FileTree where
  directories
  files := files.foldl (fun files (path, contents) => Assoc.put path contents files) []

inductive Place
  | file (path : String)
  | directory (path : String)
  | vacant (path : String)

-- The directory that holds a file or directory; the root holds itself.
def parent (path : String) : String :=
  (Files.parent? path).getD root

def name (path : String) : String :=
  match Text.cutLast? ['/'] path.toList with
  | some (_, name) => String.ofList name
  | none => path

def follow (t : FileTree) (directory : String) : (names : List String) → Except FileError Place
  | [] => .ok (.directory directory)
  | name :: rest =>
    if name == "" || name == "." then follow t directory rest
    else if name == ".." then follow t (parent directory) rest
    else
      let path := directory ++ "/" ++ name
      if t.directories.contains path then follow t path rest
      else match (t.files.lookup path).isSome, rest with
        | true, [] => .ok (.file path)
        | true, _ :: _ => .error .failed
        | false, [] => .ok (.vacant path)
        | false, _ :: _ => .error .missing

def namesIn (path : String) : List String :=
  (Text.splitOn ['/'] path.toList).map String.ofList

def locate (t : FileTree) (path : String) : Except FileError Place :=
  t.follow root (namesIn path)

def read (t : FileTree) (path : String) : Except FileError String := do
  match ← t.locate path with
  | .file path => (t.files.lookup path).elim (.error .missing) .ok
  | .directory _ => .error .failed
  | .vacant _ => .error .missing

def write (t : FileTree) (path contents : String) : Except FileError FileTree := do
  match ← t.locate path with
  | .file path | .vacant path => .ok { t with files := Assoc.put path contents t.files }
  | .directory _ => .error .failed

def remove (t : FileTree) (path : String) : Except FileError FileTree := do
  match ← t.locate path with
  | .file path => .ok { t with files := t.files.filter (·.1 != path) }
  | .directory _ => .error .failed
  | .vacant _ => .error .missing

def makeDirectory (t : FileTree) (path : String) : Except FileError FileTree :=
  go t root (namesIn path)
where
  go (t : FileTree) (directory : String) : List String → Except FileError FileTree
    | [] => .ok t
    | name :: rest => do
      match ← t.follow directory [name] with
      | .directory path => go t path rest
      | .vacant path => go { t with directories := t.directories ++ [path] } path rest
      | .file _ => .error .failed

def filesIn (t : FileTree) (directory : String) : List (String × String) :=
  (t.files.filter fun (path, _) => parent path == directory).map fun (path, contents) => (name path, contents)

def list (t : FileTree) (path : String) : Except FileError (List String) := do
  match ← t.locate path with
  | .directory path =>
    .ok ((t.filesIn path).map Prod.fst ++ (t.directories.filter (parent · == path)).map name)
  | .file _ => .error .failed
  | .vacant _ => .error .missing

def access {σ : Type} (get : σ → FileTree) (set : FileTree → σ → σ) : Files (StateM σ) :=
  let change := fun (f : FileTree → Except FileError FileTree) => (do
    match f (get (← MonadState.get)) with
    | .ok t =>
      modify (set t)
      return .ok ()
    | .error e => return .error e : StateM σ (Except FileError Unit))
  { read := fun path => do return (get (← MonadState.get)).read path
    write := fun path contents => change (·.write path contents)
    remove := fun path => change (·.remove path)
    makeDirectory := fun path => change (·.makeDirectory path)
    list := fun path => do return (get (← MonadState.get)).list path }

end FileTree

end Subplans
