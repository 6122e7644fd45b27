import AppSupervisor.Json.Fault

namespace AppSupervisor.Json

def hexDigit? (c : Char) : Option Nat :=
  if c.isDigit then some (c.toNat - '0'.toNat)
  else if 'a' ≤ c && c ≤ 'f' then some (c.toNat - 'a'.toNat + 10)
  else if 'A' ≤ c && c ≤ 'F' then some (c.toNat - 'A'.toNat + 10)
  else none

def unit? (a b c d : Char) : Option Nat := do
  return ((← hexDigit? a) * 16 + (← hexDigit? b)) * 256 + (← hexDigit? c) * 16 + (← hexDigit? d)

def isLeadUnit (n : Nat) : Bool := 0xd800 ≤ n && n ≤ 0xdbff

def isTrailUnit (n : Nat) : Bool := 0xdc00 ≤ n && n ≤ 0xdfff

def pairChar (lead trail : Nat) : Char :=
  Char.ofNat (0x10000 + (lead - 0xd800) * 0x400 + (trail - 0xdc00))

def escaped? : Char → Option Char
  | '"' => some '"'
  | '\\' => some '\\'
  | '/' => some '/'
  | 'b' => some '\x08'
  | 'f' => some '\x0c'
  | 'n' => some '\n'
  | 'r' => some '\r'
  | 't' => some '\t'
  | _ => none

/-- Why four digits cannot be read from fewer than four characters: four bytes may still be there. -/
def shortUnit (cs : List Char) : Fault :=
  if (String.ofList cs).utf8ByteSize < 4 then .truncated else .malformed

def missingTrail : List Char → Fault
  | [] => .truncated
  | ['\\'] => .truncated
  | '\\' :: 'u' :: cs => shortUnit cs
  | _ => .malformed

def readQuotedFrom (done : List Char) : List Char → Except Fault (List Char × List Char)
  | [] => .error .truncated
  | '"' :: cs => .ok (done.reverse, cs)
  | '\\' :: cs =>
    match cs with
    | [] => .error .truncated
    | 'u' :: cs =>
      match cs with
      | a :: b :: c :: d :: cs =>
        match unit? a b c d with
        | none => .error .malformed
        | some n =>
          if isTrailUnit n then .error .malformed
          else if isLeadUnit n then
            match cs with
            | '\\' :: 'u' :: a :: b :: c :: d :: cs =>
              match unit? a b c d with
              | none => .error .malformed
              | some m =>
                if isTrailUnit m then readQuotedFrom (pairChar n m :: done) cs
                else .error .malformed
            | cs => .error (missingTrail cs)
          else readQuotedFrom (Char.ofNat n :: done) cs
      | cs => .error (shortUnit cs)
    | c :: cs =>
      match escaped? c with
      | some x => readQuotedFrom (x :: done) cs
      | none => .error .malformed
  | c :: cs => if c.toNat < 0x20 then .error .malformed else readQuotedFrom (c :: done) cs

def readQuoted : Reader String := fun cs => do
  let (s, cs) ← readQuotedFrom [] cs
  return (String.ofList s, cs)

def skipQuoted : List Char → Except Fault (List Char)
  | [] => .error .truncated
  | '"' :: cs => .ok cs
  | '\\' :: cs =>
    match cs with
    | [] => .error .truncated
    | 'u' :: cs =>
      match cs with
      | a :: b :: c :: d :: cs =>
        if (unit? a b c d).isSome then skipQuoted cs else .error .malformed
      | cs => .error (shortUnit cs)
    | c :: cs => if (escaped? c).isSome then skipQuoted cs else .error .malformed
  | c :: cs => if c.toNat < 0x20 then .error .malformed else skipQuoted cs

def hexChar (n : Nat) : Char := if n < 10 then Char.ofNat (48 + n) else Char.ofNat (87 + n)

/-- A character as it stands between quotes: quotes, backslashes and control characters are
escaped, everything else is itself. -/
def quoteChar (c : Char) : List Char :=
  match c with
  | '"' => ['\\', '"']
  | '\\' => ['\\', '\\']
  | '\x08' => ['\\', 'b']
  | '\x0c' => ['\\', 'f']
  | '\n' => ['\\', 'n']
  | '\r' => ['\\', 'r']
  | '\t' => ['\\', 't']
  | c =>
    if c.toNat < 0x20 then ['\\', 'u', '0', '0', hexChar (c.toNat / 16), hexChar (c.toNat % 16)]
    else [c]

def quote (s : String) : List Char := '"' :: (s.toList.flatMap quoteChar ++ ['"'])

end AppSupervisor.Json
