/-!
Stacks of values.
-/

set_option autoImplicit false

namespace WordAssembler

/-- A stack, its items from the top down. -/
structure Stack (α : Type) where
  items : List α
deriving DecidableEq, Repr

namespace Stack

variable {α : Type}

def empty : Stack α := ⟨[]⟩

def push (stack : Stack α) (value : α) : Stack α := ⟨value :: stack.items⟩

def peek? (stack : Stack α) : Option α := stack.items.head?

/-- The top value, and the stack below it. -/
def pop? (stack : Stack α) : Option (α × Stack α) :=
  match stack.items with
  | value :: below => some (value, ⟨below⟩)
  | [] => none

def isEmpty (stack : Stack α) : Bool := stack.items.isEmpty

def size (stack : Stack α) : Nat := stack.items.length

def bottomUp (stack : Stack α) : List α := stack.items.reverse

/-- A stack of values pushed from the last to the first, so that the first is on top. -/
def ofList (values : List α) : Stack α := values.reverse.foldl push empty

end Stack

end WordAssembler
