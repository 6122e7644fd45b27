import AppSupervisor.Json.Quoted
import AppSupervisor.Json.Value
import AppSupervisor.Text.Decimal

namespace AppSupervisor.Json

def commaSeparated : List (List Char) → List Char
  | [] => []
  | [cs] => cs
  | cs :: rest => cs ++ ',' :: commaSeparated rest

def printNumber : Number → List Char
  | .int n => decimalChars n
  | .decimal negative digits exponent =>
    (if negative then ['-'] else []) ++ decimalChars digits ++ 'e' :: decimalChars exponent

mutual

def print : Json → List Char
  | null => "null".toList
  | bool b => if b then "true".toList else "false".toList
  | number n => printNumber n
  | string s => quote s
  | array vs => '[' :: (commaSeparated (printElements vs) ++ [']'])
  | object ms => '\x7b' :: (commaSeparated (printMembers ms) ++ ['\x7d'])

def printElements : List Json → List (List Char)
  | [] => []
  | v :: vs => print v :: printElements vs

def printMembers : List (String × Json) → List (List Char)
  | [] => []
  | (k, v) :: ms => (quote k ++ ':' :: print v) :: printMembers ms

end

def render (v : Json) : String := String.ofList (print v)

end AppSupervisor.Json
