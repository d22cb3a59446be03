namespace LiveTiming

/-- A binary tree that is kept as a heap: no member comes before one above it. -/
inductive Heap (α : Type) where
  | nil
  | node (root : α) (left right : Heap α)

namespace Heap

variable {α : Type}

/-- The members, in no particular order. -/
def toList : Heap α → List α
  | nil => []
  | node a l r => a :: (l.toList ++ r.toList)

/-- The number of members. -/
def size : Heap α → Nat
  | nil => 0
  | node _ l r => l.size + r.size + 1

/-- Joins the heap of a root and two branches with another one. `mergeRight` joins
the right branch with a heap. The branches of every root on the way are swapped,
which keeps the paths short on the whole. -/
def mergeRoot (le : α → α → Bool) (a : α) (l r : Heap α) (mergeRight : Heap α → Heap α) :
    Heap α → Heap α
  | nil => node a l r
  | node b l' r' =>
    if le a b then node a (mergeRight (node b l' r')) l
    else node b (mergeRoot le a l r mergeRight r') l'

/-- Joins two heaps. -/
def merge (le : α → α → Bool) : Heap α → Heap α → Heap α
  | nil, h => h
  | node a l r, h => mergeRoot le a l r (merge le r) h

/-- Adds a member. -/
def push (le : α → α → Bool) (h : Heap α) (a : α) : Heap α :=
  merge le h (node a nil nil)

/-- The first member. -/
def peek? : Heap α → Option α
  | nil => none
  | node a _ _ => some a

/-- The heap without its first member. -/
def pop (le : α → α → Bool) : Heap α → Heap α
  | nil => nil
  | node _ l r => merge le l r

end Heap

end LiveTiming
