namespace AppSupervisor

structure Options where
  configFile : Option String
  verbosity : Nat
  deriving DecidableEq, Repr

namespace Options

def initial : Options := ⟨none, 0⟩

def setConfig (o : Options) (file : String) : Option Options :=
  if o.configFile.isSome || file.isEmpty then none else some { o with configFile := some file }

/-- What is made of a group of short options: the options, and whether the last one still needs its
value from the next word. -/
def readShort (o : Options) : List Char → Option (Options × Bool)
  | [] => some (o, false)
  | 'v' :: cs => readShort { o with verbosity := o.verbosity + 1 } cs
  | ['c'] => some (o, true)
  | 'c' :: '=' :: cs => (o.setConfig (String.ofList cs)).map (·, false)
  | 'c' :: cs => (o.setConfig (String.ofList cs)).map (·, false)
  | _ => none

def readLong (o : Options) (word : List Char) : Option (Options × Bool) :=
  if word = "verbose".toList then some ({ o with verbosity := o.verbosity + 1 }, false)
  else if word = "config".toList then some (o, true)
  else if "config=".toList.isPrefixOf word then
    (o.setConfig (String.ofList (word.drop "config=".length))).map (·, false)
  else none

def readWord (o : Options) (word : String) : Option (Options × Bool) :=
  match word.toList with
  | '-' :: '-' :: cs => o.readLong cs
  | '-' :: c :: cs => o.readShort (c :: cs)
  | _ => none

def isValue (word : String) : Bool := word.toList.head? != some '-' || word == "-"

/-- Reads the words of a command line; `wanting` tells that a configuration file has to follow. -/
def readWords (o : Options) (wanting : Bool) : List String → Option Options
  | [] => if wanting then none else some o
  | word :: rest =>
    if wanting then
      if isValue word then (o.setConfig word).bind (readWords · false rest) else none
    else if word = "--" then if rest.isEmpty then some o else none
    else (o.readWord word).bind fun (o, wanting) => readWords o wanting rest

def parse (words : List String) : Option Options := initial.readWords false words

end Options
end AppSupervisor
