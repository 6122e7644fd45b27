namespace AppSupervisor

/-- The first fault met when a text is read from left to right. -/
inductive Json.Fault
  | truncated
  /-- The text is not JSON, or goes beyond the limits on nesting and on the size of numbers. -/
  | malformed
  /-- The text is JSON so far, but a value has the wrong type or range, or a member is unknown,
  repeated or missing. -/
  | mistyped
  deriving DecidableEq, Repr, Inhabited

abbrev Json.Reader (α : Type) := List Char → Except Json.Fault (α × List Char)

def Json.isSpace (c : Char) : Bool := c == ' ' || c == '\n' || c == '\t' || c == '\r'

def Json.skipSpace (cs : List Char) : List Char := cs.dropWhile Json.isSpace

end AppSupervisor
