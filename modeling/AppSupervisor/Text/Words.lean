namespace AppSupervisor

/-- The characters with the Unicode property White_Space. -/
def isBlank (c : Char) : Bool :=
  let n := c.toNat
  (0x9 ≤ n && n ≤ 0xd) || n == 0x20 || n == 0x85 || n == 0xa0 || n == 0x1680 ||
    (0x2000 ≤ n && n ≤ 0x200a) || n == 0x2028 || n == 0x2029 || n == 0x202f || n == 0x205f ||
    n == 0x3000

def closeWord : List Char → List (List Char) → List (List Char)
  | [], rest => rest
  | word, rest => word.reverse :: rest

/-- The words of a text that goes on a word begun earlier, held backwards. -/
def wordsFrom (word : List Char) : List Char → List (List Char)
  | [] => closeWord word []
  | c :: cs => if isBlank c then closeWord word (wordsFrom [] cs) else wordsFrom (c :: word) cs

def words (cs : List Char) : List (List Char) := wordsFrom [] cs

end AppSupervisor
