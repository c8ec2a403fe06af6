/-
The 4-ary min-heap of `TimerKeeper` (scheduler/timer_keeper.hpp): a
vector in level order, the children of `i` at `4 * i + 1` to `4 * i + 4`.

# The hole

Both sifts keep the entry they move in hand and shift others into the
hole it left, writing it once at the end. So a sift never loses an entry:
what it leaves is the vector with the entry put into the hole it started
from, in another order.

# Ranges and loops

`heap_[i]` out of range is `none`, and so is a loop that runs out of
fuel. Both functions return from every vector they are called on.

# Sequences of operations

`Pile` is the vector with what was pushed onto it and popped from it so
far (history).
-/
import AntRpc.Lib.Machine

namespace AntRpc.Timer

open Lib

variable {α : Type} (expireAt : α → Int)

/-- `heap_[index] = entry`. -/
def write (heap : List α) (index : Nat) (entry : α) : Option (List α) :=
  if index < heap.length then some (heap.set index entry) else none

/-- The loop of `sift_up`: `entry` is in hand, the hole is at `index`. -/
def siftUpLoop (entry : α) : Nat → List α → Nat → Option (List α)
  | 0, _, _ => none
  | fuel + 1, heap, index =>
      if 0 < index then do
        let parent := (index - 1) / 4
        let above ← heap[parent]?
        if expireAt entry < expireAt above then
          siftUpLoop entry fuel (← write heap index above) parent
        else write heap index entry
      else write heap index entry

def siftUp (heap : List α) (index : Nat) : Option (List α) := do
  let entry ← heap[index]?
  siftUpLoop expireAt entry (index + 1) heap index

/-- The scan over the children `c`, `c + 1`, …, `k` of them, with the
earliest seen so far. -/
def minChildLoop (heap : List α) :
    Nat → Nat → Nat → Int → Option (Nat × Int)
  | 0, _, minChild, minTime => some (minChild, minTime)
  | k + 1, c, minChild, minTime => do
      let child ← heap[c]?
      if expireAt child < minTime then
        minChildLoop heap k (c + 1) c (expireAt child)
      else minChildLoop heap k (c + 1) minChild minTime

/-- The loop of `sift_down`. -/
def siftDownLoop (entry : α) : Nat → List α → Nat → Option (List α)
  | 0, _, _ => none
  | fuel + 1, heap, index =>
      let firstChild := 4 * index + 1
      if heap.length ≤ firstChild then write heap index entry
      else do
        let first ← heap[firstChild]?
        let lastChild := min (firstChild + 4) heap.length
        let (minChild, minTime) ← minChildLoop expireAt heap
          (lastChild - (firstChild + 1)) (firstChild + 1) firstChild
          (expireAt first)
        if minTime < expireAt entry then
          let child ← heap[minChild]?
          siftDownLoop entry fuel (← write heap index child) minChild
        else write heap index entry

def siftDown (heap : List α) (index : Nat) : Option (List α) := do
  let entry ← heap[index]?
  siftDownLoop expireAt entry heap.length heap index

/-- `push_heap_4ary`. -/
def pushHeap (heap : List α) (entry : α) : Option (List α) :=
  siftUp expireAt (heap ++ [entry]) heap.length

/-- `pop_heap_4ary`: the top and what is left. -/
def popHeap (heap : List α) : Option (α × List α) := do
  let top ← heap[0]?
  let back ← heap.getLast?
  let rest := heap.dropLast
  if rest = [] then some (top, [])
  else
    let rest ← write rest 0 back
    let rest ← siftDown expireAt rest 0
    some (top, rest)

-- == sequences

inductive HeapOp (α : Type) where
  | push (entry : α)
  | pop

structure Pile (α : Type) where
  heap : List α := []
  pushed : List α := []
  popped : List α := []

def Pile.apply : HeapOp α → Pile α → Option (Pile α)
  | .push entry, s =>
      (pushHeap expireAt s.heap entry).map fun heap =>
        { s with heap := heap, pushed := entry :: s.pushed }
  | .pop, s =>
      (popHeap expireAt s.heap).map fun r =>
        { s with heap := r.2, popped := r.1 :: s.popped }

def pileMachine : Machine (Pile α) (HeapOp α) where
  start := (· = {})
  apply := Pile.apply expireAt

end AntRpc.Timer
