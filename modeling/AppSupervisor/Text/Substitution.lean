namespace AppSupervisor

/-- Copies the text, putting `value` for each occurrence of `pattern` that is met from the left;
the first `skip` characters still belong to an occurrence already replaced. -/
def replaceFrom (pattern value : List Char) : Nat → List Char → List Char
  | _, [] => []
  | skip + 1, _ :: cs => replaceFrom pattern value skip cs
  | 0, c :: cs =>
    if pattern.isPrefixOf (c :: cs) then
      value ++ replaceFrom pattern value (pattern.length - 1) cs
    else
      c :: replaceFrom pattern value 0 cs

/-- The text with every occurrence of a non-empty pattern replaced, found from the left and not
overlapping. What was put in is not searched again. -/
def replaceAll (pattern value : List Char) (text : List Char) : List Char :=
  replaceFrom pattern value 0 text

end AppSupervisor
