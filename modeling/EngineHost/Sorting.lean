/-!
Sorting by a comparison that need not decide every pair. Elements are put one after the other into what
is already sorted, at a place found by halving, so a comparison without an answer is met as soon as it
is asked for. Of elements that precede neither each other the earlier stays in front.
-/
namespace EngineHost.Sorting

variable {α : Type}

/-- A comparison: whether the first precedes the second, if the two can be compared. -/
abbrev Comparison (α : Type) := α → α → Option Bool

/-- How many elements at the front, after `previous`, give the wanted answer each time they are compared
with the one before. -/
def runLength (precedes : Comparison α) (wanted : Bool) (previous : α) : List α → Option Nat
  | [] => some 0
  | x :: rest => do
    if (← precedes x previous) == wanted then
      return (← runLength precedes wanted x rest) + 1
    else return 0

/-- The front that is in order already, and the rest. A front in strictly descending order is turned
around. -/
def orderedFront (precedes : Comparison α) : List α → Option (List α × List α)
  | x :: y :: rest => do
    let descending ← precedes y x
    let n := (← runLength precedes descending y rest) + 2
    let front := (x :: y :: rest).take n
    return (if descending then front.reverse else front, (x :: y :: rest).drop n)
  | xs => some (xs, [])

/-- Where `x` belongs between two positions; halving ends after as many steps as there are positions. -/
def place (precedes : Comparison α) (x : α) (sorted : List α) : Nat → Nat → Nat → Option Nat
  | 0, low, _ => some low
  | fuel + 1, low, high =>
    if low < high then
      let middle := low + (high - low) / 2
      match sorted[middle]? with
      | none => some low
      | some y => do
        if ← precedes x y then place precedes x sorted fuel low middle
        else place precedes x sorted fuel (middle + 1) high
    else some low

def insertInto (precedes : Comparison α) (sorted : List α) (x : α) : Option (List α) := do
  let i ← place precedes x sorted (sorted.length + 1) 0 sorted.length
  return sorted.insertIdx i x

/-- The elements in ascending order; nothing when two that are compared have no order. -/
def sort? (precedes : Comparison α) (xs : List α) : Option (List α) := do
  let (front, rest) ← orderedFront precedes xs
  rest.foldlM (insertInto precedes) front

end EngineHost.Sorting
