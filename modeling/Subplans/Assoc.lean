/-!
Association lists that hold each key once.
-/

namespace Subplans.Assoc

variable {α β : Type} [BEq α]

def put (key : α) (value : β) : List (α × β) → List (α × β)
  | [] => [(key, value)]
  | (k, v) :: rest => if k == key then (k, value) :: rest else (k, v) :: put key value rest

-- The entries with the value at one key changed by `f`, which is given the value so far.
def update (key : α) (f : Option β → β) : List (α × β) → List (α × β)
  | [] => [(key, f none)]
  | (k, v) :: rest => if k == key then (k, f (some v)) :: rest else (k, v) :: update key f rest

theorem lookup_put [LawfulBEq α] (key k : α) (value : β) (entries : List (α × β)) :
    (put key value entries).lookup k = if k == key then some value else entries.lookup k := by
  induction entries with
  | nil => by_cases h : k == key <;> simp [put, List.lookup_cons, h]
  | cons e rest ih =>
    obtain ⟨k', v⟩ := e
    by_cases hk : k' = key
    · subst hk
      by_cases h : k = k'
      · simp [put, h]
      · have : (k == k') = false := by simpa using h
        simp [put, List.lookup_cons, this]
    · have hk' : (k' == key) = false := by simpa using hk
      by_cases h : k = k'
      · subst h
        simp [put, hk']
      · have : (k == k') = false := by simpa using h
        simp [put, List.lookup_cons, hk', this, ih]

end Subplans.Assoc
