import Integratio.Applicator.RequestParser

/-!
# Parsed JSON (`json.hpp`)

What `jsonConf` uses of `nlohmann::json`: `operator[]` with a key, the loop over the elements of a
value, the comparison with a text, and `get`. An object's members are in the order of their keys,
as in the `std::map` that holds them. `operator[]` makes `null` an object and inserts a missing key
with `null`; read again, the value is the same, so only what is read is modelled.

A `number_float` is finite, so it is a rational. `get<int>` of a float that no `int` holds is
undefined and taken to wrap.
-/

namespace Integratio

inductive Json
  | null
  | boolean (b : Bool)
  | number (n : Int)
  | float (q : Rat)
  | string (s : String)
  | array (elements : List Json)
  | object (members : List (String × Json))

namespace Json

/-- `type_error`: its number and its text. -/
structure TypeError where
  id : Nat
  what : String
  deriving DecidableEq, Repr

def typeName : Json → String
  | null => "null"
  | object _ => "object"
  | array _ => "array"
  | string _ => "string"
  | boolean _ => "boolean"
  | number _ | float _ => "number"

def typeError (id : Nat) (what : String) : TypeError :=
  ⟨id, "[json.exception.type_error." ++ toString id ++ "] " ++ what⟩

/-- `operator[]` with a key. -/
def index (j : Json) (key : String) : Except TypeError Json :=
  match j with
  | null => .ok null
  | object members => .ok ((members.lookup key).getD null)
  | j => .error (typeError 305 ("cannot use operator[] with " ++ j.typeName))

/-- What `for (auto& element : j)` goes through; a value that is no container is its only one. -/
def elements : Json → List Json
  | null => []
  | array elements => elements
  | object members => members.map (·.2)
  | j => [j]

/-- `j == s`. -/
def eqText (j : Json) (s : String) : Bool :=
  match j with
  | string s' => s' = s
  | _ => false

/-- `get<std::string>()`. -/
def getString : Json → Except TypeError String
  | string s => .ok s
  | j => .error (typeError 302 ("type must be string, but is " ++ j.typeName))

/-- `get<int>()`. -/
def getInt : Json → Except TypeError Int
  | number n => .ok (int32 n)
  | float q => .ok (int32 (q.num.tdiv q.den))
  | boolean b => .ok (if b then 1 else 0)
  | j => .error (typeError 302 ("type must be number, but is " ++ j.typeName))

end Json

end Integratio
