/-
A deque and its ledger: what came in, in which order, and what left at
which end. Arrivals are numbered from 0, and the deque holds numbers.

# What the ledger says

Every arrival is inside or left once (`Deque.Ok.perm`), and what left at
the front, followed by what is inside, is in order of arrival
(`Deque.Ok.sorted`). So the front is taken in order, and the back is the
latest arrival inside.
-/
import Mathlib

namespace AntRpc.Lib

/-- The numbers inside, front first, and those that left at the back and
at the front, in the order they left. -/
structure Deque where
  arrived : Nat := 0
  inside : List Nat := []
  popped : List Nat := []
  stolen : List Nat := []
deriving DecidableEq, Repr

namespace Deque

variable {d : Deque}

/-- A new arrival at the back. -/
def push (d : Deque) : Deque :=
  { d with arrived := d.arrived + 1, inside := d.inside ++ [d.arrived] }

/-- The back leaves. -/
def popBack (d : Deque) : Deque :=
  match d.inside.getLast? with
  | none => d
  | some n => { d with inside := d.inside.dropLast, popped := d.popped ++ [n] }

/-- The front leaves. -/
def popFront (d : Deque) : Deque :=
  match d.inside with
  | [] => d
  | n :: rest => { d with inside := rest, stolen := d.stolen ++ [n] }

theorem popBack_inside (d : Deque) :
    d.popBack.inside = d.inside.dropLast := by
  unfold popBack
  split
  · next hn =>
    rw [List.getLast?_eq_none_iff.mp hn]
    rfl
  · rfl

theorem popBack_arrived (d : Deque) : d.popBack.arrived = d.arrived := by
  unfold popBack
  split <;> rfl

theorem popBack_popped (d : Deque) :
    d.popBack.popped = d.popped ++ d.inside.getLast?.toList := by
  unfold popBack
  split
  · next hn => rw [hn, Option.toList_none, List.append_nil]
  · next hn => rw [hn, Option.toList_some]

theorem popBack_stolen (d : Deque) : d.popBack.stolen = d.stolen := by
  unfold popBack
  split <;> rfl

theorem popFront_of_head {n : Nat} (hn : d.inside.head? = some n) :
    d.popFront = { d with
      inside := d.inside.tail, stolen := d.stolen ++ [n] } := by
  obtain ⟨rest, hrest⟩ := List.head?_eq_some_iff.mp hn
  rw [popFront, hrest]
  rfl

/-- The ledger is in order. -/
structure Ok (d : Deque) : Prop where
  perm : (d.inside ++ d.popped ++ d.stolen).Perm (List.range d.arrived)
  sorted : (d.stolen ++ d.inside).Pairwise (· < ·)

theorem ok_empty : Ok {} := ⟨List.Perm.refl _, List.Pairwise.nil⟩

/-- What is inside arrived. -/
theorem Ok.lt_arrived (h : d.Ok) {n : Nat}
    (hn : n ∈ d.inside ++ d.popped ++ d.stolen) : n < d.arrived :=
  List.mem_range.mp (h.perm.mem_iff.mp hn)

/-- Every arrival is at one place, once. -/
theorem Ok.count_eq_one (h : d.Ok) {n : Nat} (hn : n < d.arrived) :
    d.inside.count n + d.popped.count n + d.stolen.count n = 1 := by
  rw [← List.count_append, ← List.count_append, h.perm.count_eq]
  exact List.count_eq_one_of_mem List.nodup_range (List.mem_range.mpr hn)

/-- What is inside has not left. -/
theorem Ok.not_left (h : d.Ok) {n : Nat} (hn : n ∈ d.inside) :
    n ∉ d.popped ∧ n ∉ d.stolen := by
  have hone := h.count_eq_one (h.lt_arrived
    (List.mem_append_left _ (List.mem_append_left _ hn)))
  have hpos := List.count_pos_iff.mpr hn
  exact ⟨List.count_eq_zero.mp (by omega), List.count_eq_zero.mp (by omega)⟩

theorem Ok.push (h : d.Ok) : d.push.Ok where
  perm := by
    show ((d.inside ++ [d.arrived]) ++ d.popped ++ d.stolen).Perm
      (List.range (d.arrived + 1))
    rw [List.range_succ]
    have hmove : ((d.inside ++ [d.arrived]) ++ d.popped ++ d.stolen).Perm
        ((d.inside ++ d.popped ++ d.stolen) ++ [d.arrived]) := by
      simp only [List.append_assoc]
      refine List.Perm.append_left _ ?_
      rw [← List.append_assoc d.popped]
      exact List.perm_append_comm
    exact hmove.trans (h.perm.append_right _)
  sorted := by
    show (d.stolen ++ (d.inside ++ [d.arrived])).Pairwise (· < ·)
    rw [← List.append_assoc, List.pairwise_append]
    refine ⟨h.sorted, List.pairwise_singleton _ _, ?_⟩
    intro a ha b hb
    obtain rfl := List.mem_singleton.mp hb
    refine h.lt_arrived ?_
    simp only [List.mem_append] at ha ⊢
    tauto

theorem Ok.popBack (h : d.Ok) : d.popBack.Ok := by
  unfold Deque.popBack
  split
  · exact h
  · next n hn =>
    have hsplit : d.inside = d.inside.dropLast ++ [n] :=
      (List.dropLast_append_getLast? n hn).symm
    refine ⟨?_, ?_⟩
    · show (d.inside.dropLast ++ (d.popped ++ [n]) ++ d.stolen).Perm _
      refine List.Perm.trans ?_ h.perm
      conv_rhs => rw [hsplit]
      simp only [List.append_assoc]
      refine List.Perm.append_left _ ?_
      rw [← List.append_assoc, ← List.append_assoc]
      exact List.Perm.append_right _ List.perm_append_comm
    · have hs := h.sorted
      rw [hsplit, ← List.append_assoc, List.pairwise_append] at hs
      exact hs.1

theorem Ok.popFront (h : d.Ok) : d.popFront.Ok := by
  unfold Deque.popFront
  split
  · exact h
  · next n rest hn =>
    refine ⟨?_, ?_⟩
    · show (rest ++ d.popped ++ (d.stolen ++ [n])).Perm _
      refine List.Perm.trans ?_ h.perm
      rw [hn, ← List.append_assoc]
      exact List.perm_append_singleton n _
    · show ((d.stolen ++ [n]) ++ rest).Pairwise (· < ·)
      have hs := h.sorted
      rw [hn] at hs
      rw [List.append_assoc]
      exact hs

/-- The back is the latest arrival inside. -/
theorem Ok.le_getLast (h : d.Ok) {n m : Nat} (hn : d.inside.getLast? = some n)
    (hm : m ∈ d.inside) : m ≤ n := by
  have hsplit : d.inside = d.inside.dropLast ++ [n] :=
    (List.dropLast_append_getLast? n hn).symm
  have hs := (List.pairwise_append.mp h.sorted).2.1
  rw [hsplit, List.pairwise_append] at hs
  rw [hsplit, List.mem_append] at hm
  rcases hm with hm | hm
  · exact (hs.2.2 m hm n (List.mem_singleton.mpr rfl)).le
  · exact (List.mem_singleton.mp hm).le

/-- The front is the earliest arrival inside. -/
theorem Ok.head_le (h : d.Ok) {n m : Nat} (hn : d.inside.head? = some n)
    (hm : m ∈ d.inside) : n ≤ m := by
  obtain ⟨rest, hrest⟩ := List.head?_eq_some_iff.mp hn
  have hs := (List.pairwise_append.mp h.sorted).2.1
  rw [hrest, List.pairwise_cons] at hs
  rw [hrest, List.mem_cons] at hm
  rcases hm with rfl | hm
  · exact le_rfl
  · exact (hs.1 m hm).le

end Deque

end AntRpc.Lib
