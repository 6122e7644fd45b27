import AppSupervisor.Json.Numeral
import AppSupervisor.Json.Quoted
import AppSupervisor.Json.Value

namespace AppSupervisor.Json

def maxDepth : Nat := 127

def readKeyword : List Char → List Char → Except Fault (List Char)
  | [], cs => .ok cs
  | _ :: _, [] => .error .truncated
  | k :: ks, c :: cs => if c = k then readKeyword ks cs else .error .malformed

/-- Why the value at the front of a text cannot be taken as the type wanted: the value is read as
far as needed to see what it is. -/
def mismatch (cs : List Char) : Fault :=
  let faultOf {α : Type} : Except Fault α → Fault
    | .error f => f
    | .ok _ => .mistyped
  match cs with
  | [] => .truncated
  | 'n' :: cs => faultOf (readKeyword "ull".toList cs)
  | 't' :: cs => faultOf (readKeyword "rue".toList cs)
  | 'f' :: cs => faultOf (readKeyword "alse".toList cs)
  | '"' :: cs => faultOf (readQuoted cs)
  | '[' :: _ | '\x7b' :: _ => .mistyped
  | c :: cs => if c = '-' || c.isDigit then faultOf (readNumber (c :: cs)) else .malformed

def nextElement (first : Bool) (cs : List Char) : Except Fault (Option (List Char)) :=
  match skipSpace cs with
  | [] => .error .truncated
  | ']' :: _ => .ok none
  | c :: cs =>
    if first then .ok (some (c :: cs))
    else if c = ',' then
      match skipSpace cs with
      | [] => .error .truncated
      | ']' :: _ => .error .malformed
      | cs => .ok (some cs)
    else .error .malformed

def closeArray (cs : List Char) : Except Fault (List Char) :=
  match skipSpace cs with
  | [] => .error .truncated
  | ']' :: cs => .ok cs
  | _ => .error .malformed

def nextMember (first : Bool) (cs : List Char) : Except Fault (Option (List Char)) :=
  match skipSpace cs with
  | [] => .error .truncated
  | '\x7d' :: _ => .ok none
  | c :: cs =>
    if first then
      if c = '"' then .ok (some cs) else .error .malformed
    else if c = ',' then
      match skipSpace cs with
      | [] => .error .truncated
      | '"' :: cs => .ok (some cs)
      | _ => .error .malformed
    else .error .malformed

def closeObject (cs : List Char) : Except Fault (List Char) :=
  match skipSpace cs with
  | [] => .error .truncated
  | '\x7d' :: cs => .ok cs
  | _ => .error .malformed

def readColon (cs : List Char) : Except Fault (List Char) :=
  match skipSpace cs with
  | [] => .error .truncated
  | ':' :: cs => .ok cs
  | _ => .error .malformed

def elementsFrom {α : Type} (item : Reader α) : Nat → Bool → List α → Reader (List α)
  | 0, _, _, _ => .error .truncated
  | n + 1, first, done, cs => do
    match ← nextElement first cs with
    | none => return (done.reverse, ← closeArray cs)
    | some cs =>
      let (x, cs) ← item cs
      elementsFrom item n false (x :: done) cs

/-- The elements of an array, behind its bracket. Each takes at least one character, so the length
of the text bounds the loop. -/
def elements {α : Type} (item : Reader α) : Reader (List α) := fun cs =>
  elementsFrom item (cs.length + 1) true [] cs

def membersFrom {κ σ : Type} (key : Reader κ) (member : σ → κ → Except Fault (Reader σ)) :
    Nat → Bool → σ → Reader σ
  | 0, _, _, _ => .error .truncated
  | n + 1, first, s, cs => do
    match ← nextMember first cs with
    | none => return (s, ← closeObject cs)
    | some cs =>
      let (k, cs) ← key cs
      let value ← member s k
      let (s, cs) ← value (← readColon cs)
      membersFrom key member n false s cs

def members {κ σ : Type} (key : Reader κ) (member : σ → κ → Except Fault (Reader σ)) (s : σ) :
    Reader σ := fun cs => membersFrom key member (cs.length + 1) true s cs

def readValue (depth : Nat) : Reader Json := fun cs =>
  match skipSpace cs with
  | [] => .error .truncated
  | 'n' :: cs => do return (.null, ← readKeyword "ull".toList cs)
  | 't' :: cs => do return (.bool true, ← readKeyword "rue".toList cs)
  | 'f' :: cs => do return (.bool false, ← readKeyword "alse".toList cs)
  | '"' :: cs => do
    let (s, cs) ← readQuoted cs
    return (.string s, cs)
  | '[' :: cs =>
    match depth with
    | 0 => .error .malformed
    | depth + 1 => do
      let (vs, cs) ← elements (readValue depth) cs
      return (.array vs, cs)
  | '\x7b' :: cs =>
    match depth with
    | 0 => .error .malformed
    | depth + 1 => do
      let (ms, cs) ← members readQuoted
        (fun ms k => .ok fun cs => do
          let (v, cs) ← readValue depth cs
          return (putMember k v ms, cs)) [] cs
      return (.object ms, cs)
  | c :: cs =>
    if c = '-' || c.isDigit then do
      let (n, cs) ← readNumber (c :: cs)
      return (.number n, cs)
    else .error .malformed

def skipValueWithin : Nat → Reader Unit
  | 0, _ => .error .truncated
  | n + 1, cs =>
    match skipSpace cs with
    | [] => .error .truncated
    | 'n' :: cs => do return ((), ← readKeyword "ull".toList cs)
    | 't' :: cs => do return ((), ← readKeyword "rue".toList cs)
    | 'f' :: cs => do return ((), ← readKeyword "alse".toList cs)
    | '"' :: cs => do return ((), ← skipQuoted cs)
    | '[' :: cs => do
      let (_, cs) ← elements (skipValueWithin n) cs
      return ((), cs)
    | '\x7b' :: cs =>
      members (fun cs => do return ((), ← skipQuoted cs)) (fun _ _ => .ok (skipValueWithin n)) () cs
    | c :: cs =>
      if c = '-' || c.isDigit then do return ((), ← skipNumber (c :: cs)) else .error .malformed

/-- Passes over a value. Each level of nesting takes a character, so the length of the text bounds
the depth. -/
def skipValue : Reader Unit := fun cs => skipValueWithin (cs.length + 1) cs

def readAll {α : Type} (read : Reader α) (text : String) : Except Fault α := do
  let (x, cs) ← read text.toList
  if (skipSpace cs).isEmpty then return x else .error .malformed

def parse (text : String) : Except Fault Json := readAll (readValue maxDepth) text

def readString : Reader String := fun cs =>
  match skipSpace cs with
  | '"' :: cs => readQuoted cs
  | cs => .error (mismatch cs)

def readBelow (bound : Nat) : Reader Nat := fun cs =>
  match skipSpace cs with
  | c :: cs =>
    if c = '-' || c.isDigit then do
      match ← readNumber (c :: cs) with
      | (.int (.ofNat n), cs) => if n < bound then return (n, cs) else .error .mistyped
      | _ => .error .mistyped
    else .error (mismatch (c :: cs))
  | [] => .error .truncated

def readOption {α : Type} (read : Reader α) : Reader (Option α) := fun cs =>
  match skipSpace cs with
  | 'n' :: cs => do return (none, ← readKeyword "ull".toList cs)
  | cs => do
    let (x, cs) ← read cs
    return (some x, cs)

def readArray {α : Type} (item : Reader α) : Reader (List α) := fun cs =>
  match skipSpace cs with
  | '[' :: cs => elements item cs
  | cs => .error (mismatch cs)

def readObject {σ : Type} (member : σ → String → Except Fault (Reader σ)) (s : σ) : Reader σ :=
  fun cs =>
    match skipSpace cs with
    | '\x7b' :: cs => members readQuoted member s cs
    | cs => .error (mismatch cs)

/-- The elements of an array taken by the readers in turn; where the array ends early `short`
decides what becomes of the fields that are left. -/
def fields {σ : Type} (short : σ → Except Fault σ) : List (σ → Reader σ) → Bool → σ → Reader σ
  | [], _, s, cs => do return (s, ← closeArray cs)
  | field :: rest, first, s, cs => do
    match ← nextElement first cs with
    | none =>
      let s ← short s
      return (s, ← closeArray cs)
    | some cs =>
      let (s, cs) ← field s cs
      fields short rest false s cs

/-- A structure: an object with its fields as members, or the array of its fields in order. -/
def readStructure {σ : Type} (member : σ → String → Except Fault (Reader σ))
    (inOrder : List (σ → Reader σ)) (short : σ → Except Fault σ) (s : σ) : Reader σ := fun cs =>
  match skipSpace cs with
  | '[' :: cs => fields short inOrder true s cs
  | cs => readObject member s cs

def readKey : Reader String := fun cs =>
  match skipSpace cs with
  | [] => .error .truncated
  | '"' :: cs => readQuoted cs
  | _ => .error .malformed

/-- One of some named choices, written as its name or as an object from its name to null. -/
def readChoice {α : Type} (choice? : String → Option α) : Reader α := fun cs =>
  match skipSpace cs with
  | [] => .error .truncated
  | '"' :: cs => do
    let (name, cs) ← readQuoted cs
    let some x := choice? name | .error .mistyped
    return (x, cs)
  | '\x7b' :: cs => do
    let (name, cs) ← readKey cs
    let some x := choice? name | .error .mistyped
    match skipSpace (← readColon cs) with
    | 'n' :: cs => return (x, ← closeObject (← readKeyword "ull".toList cs))
    | cs => .error (mismatch cs)
  | _ => .error .malformed

end AppSupervisor.Json
