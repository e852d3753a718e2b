/-!
Trees of labels, drawn as text.

Every label stands on a line of its own, its children below it, each after a branch.
-/

namespace Subplans.Text

inductive Tree
  | node (label : String) (children : List Tree)

namespace Tree

def leaf (label : String) : Tree :=
  node label []

mutual

-- The lines of a tree, where `indent` stands before every line below the first.
def lines (indent : String) : Tree → List String
  | node label children => label :: branches indent children

-- The lines of trees next to each other; the last one has a corner for its branch.
def branches (indent : String) : List Tree → List String
  | [] => []
  | tree :: rest =>
    let last := rest.isEmpty
    let own := match lines (indent ++ (if last then "    " else "│   ")) tree with
      | [] => []
      | first :: more => (indent ++ (if last then "└── " else "├── ") ++ first) :: more
    own ++ branches indent rest

end

-- The drawn tree; every line ends with a newline.
def draw (t : Tree) : String :=
  String.join ((t.lines "").map (· ++ "\n"))

end Tree

end Subplans.Text
