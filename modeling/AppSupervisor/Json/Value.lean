import Std.Data.TreeMap

namespace AppSupervisor

inductive Json.Number
  | int (value : Int)
  /-- A number with a fraction or an exponent, or too long for 64 bits: ± digits · 10 ^ exponent. -/
  | decimal (negative : Bool) (digits : Nat) (exponent : Int)
  deriving DecidableEq, Repr, Inhabited

inductive Json
  | null
  | bool (value : Bool)
  | number (value : Json.Number)
  | string (value : String)
  | array (items : List Json)
  | object (members : List (String × Json))
  deriving Inhabited

namespace Json

def putMember (key : String) (value : Json) : List (String × Json) → List (String × Json)
  | [] => [(key, value)]
  | (k, v) :: ms => if k = key then (key, value) :: ms else (k, v) :: putMember key value ms

def members? : Json → Option (List (String × Json))
  | object ms => some ms
  | _ => none

def get? (v : Json) (key : String) : Option Json := v.members?.bind (·.lookup key)

def string? : Json → Option String
  | string s => some s
  | _ => none

def array? : Json → Option (List Json)
  | array vs => some vs
  | _ => none

def int? : Json → Option Int
  | number (.int n) => some n
  | _ => none

def bool? : Json → Option Bool
  | bool b => some b
  | _ => none

def ofInt (n : Int) : Json := number (.int n)

/-- The object with these members in the order of their keys; of members with one key the last
counts. -/
def ofMembers (members : List (String × Json)) : Json :=
  object (Std.TreeMap.ofList members).toList

def ofTexts (ss : List String) : Json := array (ss.map string)

end Json
end AppSupervisor
