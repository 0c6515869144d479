import Unalias.Text.Basic

/-! JSON values. The fields of an object keep the order in which their names first occur, and a
name that occurs again gives the field its last value. -/
namespace Unalias.Json

inductive Value
  | null
  | bool (b : Bool)
  | number (literal : Text)
  | string (t : Text)
  | array (items : List Value)
  | object (fields : List (Text × Value))

def setField (name : Text) (v : Value) : List (Text × Value) → List (Text × Value)
  | [] => [(name, v)]
  | (n, w) :: rest => if n = name then (n, v) :: rest else (n, w) :: setField name v rest

/-- The fields of an object whose members are written in the order given. -/
def fieldsOf (members : List (Text × Value)) : List (Text × Value) :=
  members.foldl (fun fields m => setField m.1 m.2 fields) []

namespace Value

def field? (name : Text) : Value → Option Value
  | .object fields => (fields.find? fun f => f.1 = name).map (·.2)
  | _ => none

def string? : Value → Option Text
  | .string t => some t
  | _ => none

end Value
end Unalias.Json
