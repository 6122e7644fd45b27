namespace AppSupervisor

abbrev Link := Option Nat

/-- A hash index whose chains run through the slots of an arena: each bucket has the first slot of its
chain, and each slot the one behind it. A slot that was taken out of its chain keeps its own link, so
a walk that stands on it still reaches the rest. -/
structure Index where
  heads : Array Link
  next : Array Link

namespace Index

def create (buckets slots : Nat) : Index := ⟨.replicate buckets none, .replicate slots none⟩

def bucket (x : Index) (key : UInt32) : Nat := key.toNat &&& (x.heads.size - 1)

def head (x : Index) (b : Nat) : Link := x.heads.getD b none

def after (x : Index) (i : Nat) : Link := x.next.getD i none

/-- The slots from a link on, if the chain ends after at most that many and never leaves the arena. -/
def walk? (x : Index) : Nat → Link → Option (List Nat)
  | _, none => some []
  | 0, some _ => none
  | n + 1, some i => if i < x.next.size then (x.walk? n (x.after i)).map (i :: ·) else none

def chain (x : Index) (b : Nat) : List Nat := (x.walk? x.next.size (x.head b)).getD []

def toList (x : Index) : List Nat := (List.range x.heads.size).flatMap x.chain

def insert (x : Index) (b i : Nat) : Index :=
  ⟨x.heads.setIfInBounds b (some i), x.next.setIfInBounds i (x.head b)⟩

def cut (x : Index) (i : Nat) : Index := { x with next := x.next.setIfInBounds i none }

/-- Makes the slot in front of `i` skip it; the search begins behind slot `j`. -/
def unlinkAfter? (x : Index) (i : Nat) : Nat → Nat → Option Index
  | 0, _ => none
  | n + 1, j =>
    match x.after j with
    | none => none
    | some k =>
      if k = i then some { x with next := x.next.setIfInBounds j (x.after i) }
      else x.unlinkAfter? i n k

def erase? (x : Index) (b i : Nat) : Option Index :=
  match x.head b with
  | none => none
  | some j =>
    if j = i then some { x with heads := x.heads.setIfInBounds b (x.after i) }
    else x.unlinkAfter? i x.next.size j

/-- Visits the slots from a link on. The link behind a slot is read before the slot is handed out,
so a visit may take the slot out of its chain. -/
def visitFrom {σ : Type} (index : σ → Index) (visit : σ → Nat → σ) : Nat → Link → σ → σ
  | _, none, s => s
  | 0, some _, s => s
  | n + 1, some i, s => visitFrom index visit n ((index s).after i) (visit s i)

def visitAll {σ : Type} (index : σ → Index) (visit : σ → Nat → σ) (s : σ) : σ :=
  (List.range (index s).heads.size).foldl
    (fun s b => visitFrom index visit (index s).next.size ((index s).head b) s) s

end Index
end AppSupervisor
