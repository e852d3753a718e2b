import Subplans.Json.Reader

/-!
Records in JSON.

A record has named fields. It is given as an object, in which unknown fields are passed over and
no known field may stand twice, or as an array of the fields' values in the order in which the record
declares them. `Record.required?`, `Record.optional?` and `Record.defaulting?` read one field.
-/

namespace Subplans.Json

structure Record where
  fields : List (String × Json)
  -- The values came in an array, which has to hold every field that has no default.
  positional : Bool

def record? (names : List String) : Json → Option Record
  | array items =>
    if items.length ≤ names.length then some ⟨names.zip items, true⟩ else none
  | object fields => do
    let fields ← fields.mapM fun (name, value) => name.map (·, value)
    let known := fields.filter fun (name, _) => names.contains name
    if (known.map Prod.fst).Nodup then some ⟨known, false⟩ else none
  | _ => none

namespace Record

variable {α : Type}

def required? (r : Record) (name : String) (read : Json → Option α) : Option α :=
  (r.fields.lookup name).bind read

-- A field that may be `null` or left out of an object.
def optional? (r : Record) (name : String) (read : Json → Option α) : Option (Option α) :=
  match r.fields.lookup name with
  | some value => nullable? read value
  | none => if r.positional then none else some none

def defaulting? (r : Record) (name : String) (default : α) (read : Json → Option α) : Option α :=
  match r.fields.lookup name with
  | some value => read value
  | none => some default

end Record

end Subplans.Json
