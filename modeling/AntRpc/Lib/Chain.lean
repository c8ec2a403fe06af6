/-
Singly linked lists threaded through an array of nodes: `Chain next nil
head l` says that following `next` from `head` visits exactly `l` and
ends at `nil`.

Nothing is said about duplicates: a chain that visits a node twice would
never end, but the users keep `l.Nodup` beside the chain because they
need it of the list, not of the links.
-/
import Mathlib

namespace AntRpc.Lib

variable {α : Type}

/-- Following `next` from `head` visits `l` and ends at `nil`. -/
def Chain (next : α → α) (nil : α) : α → List α → Prop
  | head, [] => head = nil
  | head, a :: l => head = a ∧ a ≠ nil ∧ Chain next nil (next a) l

/-- The links of the nodes visited are all that matters. -/
theorem Chain.congr {next next' : α → α} {nil head : α} {l : List α}
    (h : Chain next nil head l) (hn : ∀ a ∈ l, next' a = next a) :
    Chain next' nil head l := by
  induction l generalizing head with
  | nil => exact h
  | cons a l ih =>
      obtain ⟨hhead, hne, hrest⟩ := h
      refine ⟨hhead, hne, ?_⟩
      rw [hn a List.mem_cons_self]
      exact ih hrest fun b hb => hn b (List.mem_cons_of_mem a hb)

/-- A chain whose head is not the end has a first node. -/
theorem Chain.head {next : α → α} {nil head : α} {l : List α}
    (h : Chain next nil head l) (hne : head ≠ nil) :
    ∃ l', l = head :: l' ∧ Chain next nil (next head) l' := by
  cases l with
  | nil => exact absurd h hne
  | cons a l =>
      obtain ⟨rfl, -, hrest⟩ := h
      exact ⟨l, rfl, hrest⟩

/-- No node of a chain is the end. -/
theorem Chain.ne_nil {next : α → α} {nil head : α} {l : List α}
    (h : Chain next nil head l) {a : α} (ha : a ∈ l) : a ≠ nil := by
  induction l generalizing head with
  | nil => cases ha
  | cons b l ih =>
      obtain ⟨-, hne, hrest⟩ := h
      cases ha with
      | head => exact hne
      | tail _ ha => exact ih hrest ha

/-- The links and the head determine the chain. -/
theorem Chain.unique {next : α → α} {nil head : α} {l l' : List α}
    (h : Chain next nil head l) (h' : Chain next nil head l') : l = l' := by
  induction l generalizing head l' with
  | nil =>
      cases l' with
      | nil => rfl
      | cons b l' => exact absurd (h'.1.symm.trans h) h'.2.1
  | cons a l ih =>
      obtain ⟨rfl, hne, hrest⟩ := h
      obtain ⟨l'', rfl, hrest'⟩ := h'.head hne
      rw [ih hrest hrest']

/-- A chain along an injective numbering, from `k` on. -/
theorem Chain.of_range {next : α → α} {nil : α} {f : Nat → α} {n : Nat}
    (hne : ∀ i, i < n → f i ≠ nil)
    (hnext : ∀ i, i + 1 < n → next (f i) = f (i + 1))
    (hlast : 0 < n → next (f (n - 1)) = nil) (m k : Nat)
    (hk : k + (m + 1) = n) :
    Chain next nil (f k) ((List.range' k (m + 1)).map f) := by
  induction m generalizing k with
  | zero =>
      refine ⟨rfl, hne k (by omega), ?_⟩
      have := hlast (by omega)
      rw [show n - 1 = k by omega] at this
      exact this
  | succ m ih =>
      rw [List.range'_succ, List.map_cons]
      refine ⟨rfl, hne k (by omega), ?_⟩
      rw [hnext k (by omega)]
      exact ih (k + 1) (by omega)

end AntRpc.Lib
