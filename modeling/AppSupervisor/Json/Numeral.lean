import AppSupervisor.Json.Fault
import AppSupervisor.Json.Value

namespace AppSupervisor.Json

def round53 (n : Nat) : Nat :=
  if n < 1 <<< 53 then n else
    let unit := 1 <<< (n.log2 - 52)
    let low := n % unit
    let down := n / unit
    if 2 * low < unit || (2 * low == unit && down % 2 == 0) then down * unit else (down + 1) * unit

/-- Whether a double holds no finite value for these digits and this power of ten. -/
def isTooLarge (digits : Nat) (exponent : Int) : Bool :=
  digits != 0 && 0 ≤ exponent &&
    (308 < exponent ||
      (1 <<< 1024) - (1 <<< 970) ≤ round53 digits * round53 (Nat.pow 10 exponent.toNat))

def pushDigit (n : Nat) (c : Char) : Nat := 10 * n + (c.toNat - '0'.toNat)

def integerPart (n : Nat) : List Char → Nat × Nat
  | [] => (n, 0)
  | c :: cs =>
    if pushDigit n c < UInt64.size then integerPart (pushDigit n c) cs else (n, cs.length + 1)

def fractionPart (n : Nat) (exponent : Int) : List Char → Nat × Int
  | [] => (n, exponent)
  | c :: cs =>
    if pushDigit n c < UInt64.size then fractionPart (pushDigit n c) (exponent - 1) cs
    else (n, exponent)

def readDigits : Reader (List Char) := fun cs =>
  match cs.span Char.isDigit with
  | ([], []) => .error .truncated
  | ([], _) => .error .malformed
  | (ds, cs) => .ok (ds, cs)

def readIntegerDigits : Reader (List Char) := fun cs => do
  let (ds, cs) ← readDigits cs
  match ds with
  | '0' :: _ :: _ => .error .malformed
  | ds => .ok (ds, cs)

def readFraction? : Reader (Option (List Char))
  | '.' :: cs => do
    let (ds, cs) ← readDigits cs
    return (some ds, cs)
  | cs => .ok (none, cs)

def readExponent : Reader Int
  | '-' :: cs => do
    let (ds, cs) ← readDigits cs
    return (-(Nat.ofDigitChars 10 ds 0 : Nat), cs)
  | cs => do
    let (ds, cs) ← readDigits (if cs.head? = some '+' then cs.tail else cs)
    return ((Nat.ofDigitChars 10 ds 0 : Nat), cs)

def readExponent? : Reader (Option Int)
  | 'e' :: cs | 'E' :: cs => do
    let (e, cs) ← readExponent cs
    return (some e, cs)
  | cs => .ok (none, cs)

/-- The integer that a sign and a digit string write, if it is an integer of 64 bits. -/
def integer? (negative : Bool) (digits : Nat) : Option Int :=
  if !negative then some digits
  else if digits = 0 || UInt64.size < 2 * digits then none
  else some (-(digits : Int))

def readUnsignedNumber (negative : Bool) : Reader Number := fun cs => do
  let (ds, cs) ← readIntegerDigits cs
  let (fraction, cs) ← readFraction? cs
  let (exponent, cs) ← readExponent? cs
  let (n, dropped) := integerPart 0 ds
  match fraction, exponent, if dropped = 0 then integer? negative n else none with
  | none, none, some i => return (.int i, cs)
  | _, _, _ =>
    let (n, e) := fractionPart n dropped (fraction.getD [])
    let e := e + exponent.getD 0
    if isTooLarge n e then .error .malformed else return (.decimal negative n e, cs)

def readNumber : Reader Number
  | '-' :: cs => readUnsignedNumber true cs
  | cs => readUnsignedNumber false cs

/-- Leading digits of a number that is passed over; here a missing digit is a fault of the text
even at its end. -/
def skipDigits (cs : List Char) : Except Fault (List Char) :=
  match cs with
  | c :: cs => if c.isDigit then .ok (cs.dropWhile Char.isDigit) else .error .malformed
  | [] => .error .malformed

def skipIntegerDigits : List Char → Except Fault (List Char)
  | '0' :: c :: cs => if c.isDigit then .error .malformed else .ok (c :: cs)
  | cs => skipDigits cs

def skipExponent : List Char → Except Fault (List Char)
  | 'e' :: cs | 'E' :: cs =>
    skipDigits (if cs.head? = some '+' || cs.head? = some '-' then cs.tail else cs)
  | cs => .ok cs

def skipNumber (cs : List Char) : Except Fault (List Char) := do
  let cs ← skipIntegerDigits (if cs.head? = some '-' then cs.tail else cs)
  match cs with
  | '.' :: cs => do skipExponent (← skipDigits cs)
  | cs => skipExponent cs

end AppSupervisor.Json
