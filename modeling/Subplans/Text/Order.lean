/-!
Sets of texts as lists in order.
-/

namespace Subplans.Text

-- Puts a text where it belongs in a list in order, unless it is there already.
def insertDistinct (s : String) : List String → List String
  | [] => [s]
  | t :: rest => if s == t then t :: rest else if s < t then s :: t :: rest else t :: insertDistinct s rest

def sortDistinct (texts : List String) : List String :=
  texts.foldl (fun sorted s => insertDistinct s sorted) []

theorem mem_insertDistinct {s t : String} {texts : List String} :
    t ∈ insertDistinct s texts ↔ t = s ∨ t ∈ texts := by
  induction texts with
  | nil => simp [insertDistinct]
  | cons u rest ih =>
    unfold insertDistinct
    split
    · rename_i h
      have : s = u := by simpa using h
      subst this
      simp
    · split
      · simp
      · simp only [List.mem_cons, ih]
        constructor
        · rintro (h | h | h) <;> simp [h]
        · rintro (h | h | h) <;> simp [h]

theorem mem_sortDistinct {t : String} {texts : List String} : t ∈ sortDistinct texts ↔ t ∈ texts := by
  have go : ∀ (texts sorted : List String),
      t ∈ texts.foldl (fun sorted s => insertDistinct s sorted) sorted ↔ t ∈ sorted ∨ t ∈ texts := by
    intro texts
    induction texts with
    | nil => simp
    | cons s rest ih =>
      intro sorted
      simp only [List.foldl_cons, ih, mem_insertDistinct, List.mem_cons]
      constructor
      · rintro ((h | h) | h) <;> simp [h]
      · rintro (h | h | h) <;> simp [h]
  simp [sortDistinct, go]

end Subplans.Text
