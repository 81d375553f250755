/-!
# JSON values

## Main definitions

* `Json` — the values.  Whole numbers are kept exactly, the others as
  floating-point numbers.
* `Json.get?` — the value of a key.
* `Json.string?` — a value as a text, if it is one.
* `Json.setField` — a field of an object whose fields are sorted by key.
-/

namespace Generics

/-- A JSON value. -/
inductive Json where
  | null
  | bool (b : Bool)
  | int (n : Int)
  | float (x : Float)
  | string (s : String)
  | array (items : List Json)
  /-- The fields in the order of their keys, each key at most once. -/
  | object (fields : List (String × Json))
  deriving Inhabited

namespace Json

/-- The value of a key.  Only objects have keys. -/
def get? (v : Json) (key : String) : Option Json :=
  match v with
  | object fields => fields.lookup key
  | _ => none

/-- The text that a value is. -/
def string? : Json → Option String
  | string s => some s
  | _ => none

/-- Fields in the order of their keys, with the value of one key set.  A value
that the key had before is dropped. -/
def setField (key : String) (value : Json) : List (String × Json) → List (String × Json)
  | [] => [(key, value)]
  | (k, v) :: rest =>
    if key < k then (key, value) :: (k, v) :: rest
    else if key = k then (key, value) :: rest
    else (k, v) :: setField key value rest

/-- The object with some fields; of several fields with one key the last stays. -/
def ofFields (fields : List (String × Json)) : Json :=
  object (fields.foldl (fun sorted (key, value) => setField key value sorted) [])

@[simp] theorem get?_object (fields : List (String × Json)) (key : String) :
    (object fields).get? key = fields.lookup key := rfl

end Json

end Generics
