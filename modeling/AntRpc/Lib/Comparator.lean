/-
Comparison functions as sorting takes them: `less` is Boolean, and two
elements that are not less either way are the same.

A lexicographical comparison of lists and of pairs by such functions is
one again, and sorting by one leaves nothing out of order.
-/
import Mathlib

namespace AntRpc.Lib

variable {α β : Type}

/-- `less` is a strict total order. -/
structure Comparator (less : α → α → Bool) : Prop where
  irrefl : ∀ a, less a a = false
  trans : ∀ a b c, less a b = true → less b c = true → less a c = true
  antisymm : ∀ a b, less a b = false → less b a = false → a = b

/-- Lists are compared at the first place where they differ; a beginning
of a list is less than it. -/
def lexLess (less : α → α → Bool) : List α → List α → Bool
  | _, [] => false
  | [], _ :: _ => true
  | a :: as, b :: bs => less a b || (!less b a && lexLess less as bs)

/-- Pairs are compared by their first components, then by the second. -/
def pairLess (less : α → α → Bool) (less' : β → β → Bool) (a b : α × β) :
    Bool :=
  less a.1 b.1 || (!less b.1 a.1 && less' a.2 b.2)

namespace Comparator

variable {less : α → α → Bool} {less' : β → β → Bool}

theorem asymm (h : Comparator less) {a b : α} (hab : less a b = true) :
    less b a = false := by
  by_contra hba
  have hself := h.trans a b a hab (Bool.eq_true_of_not_eq_false hba)
  rw [h.irrefl a] at hself
  cases hself

/-- What is not greater goes on in both directions. -/
theorem not_less_trans (h : Comparator less) {a b c : α}
    (hab : less b a = false) (hbc : less c b = false) : less c a = false := by
  by_contra hca
  have hca : less c a = true := Bool.eq_true_of_not_eq_false hca
  by_cases heq : less a b = true
  · have hcb := h.trans c a b hca heq
    rw [hbc] at hcb
    cases hcb
  · have hsame := h.antisymm a b (Bool.eq_false_of_not_eq_true heq) hab
    rw [← hsame, hca] at hbc
    cases hbc

theorem not_less_total (h : Comparator less) (a b : α) :
    (!less b a || !less a b) = true := by
  by_cases hab : less a b = true
  · rw [h.asymm hab]
    rfl
  · rw [Bool.eq_false_of_not_eq_true hab]
    exact Bool.or_true _

/-- Comparing by `less` first and by something else after it. -/
theorem first_trans (h : Comparator less) {a b c : α} {p q r : Prop}
    (hrest : p → q → r)
    (hab : less a b = true ∨ less b a = false ∧ p)
    (hbc : less b c = true ∨ less c b = false ∧ q) :
    less a c = true ∨ less c a = false ∧ r := by
  rcases hab with hab | ⟨hba, hp⟩
  · left
    rcases hbc with hbc | ⟨hcb, -⟩
    · exact h.trans _ _ _ hab hbc
    · by_cases hbc : less b c = true
      · exact h.trans _ _ _ hab hbc
      · rw [← h.antisymm _ _ (Bool.eq_false_of_not_eq_true hbc) hcb]
        exact hab
  · rcases hbc with hbc | ⟨hcb, hq⟩
    · left
      by_cases hab : less a b = true
      · exact h.trans _ _ _ hab hbc
      · rw [h.antisymm _ _ (Bool.eq_false_of_not_eq_true hab) hba]
        exact hbc
    · exact Or.inr ⟨h.not_less_trans hba hcb, hrest hp hq⟩

/-- Two that are not less either way agree in both comparisons. -/
theorem first_antisymm (h : Comparator less) {a b : α} {x y : Bool}
    (hab : less a b = false ∧ (less b a = true ∨ x = false))
    (hba : less b a = false ∧ (less a b = true ∨ y = false)) :
    a = b ∧ x = false ∧ y = false := by
  obtain ⟨hab, hx⟩ := hab
  obtain ⟨hba, hy⟩ := hba
  rw [hba] at hx
  rw [hab] at hy
  exact ⟨h.antisymm a b hab hba, hx.resolve_left nofun, hy.resolve_left nofun⟩

theorem pair (h : Comparator less) (h' : Comparator less') :
    Comparator (pairLess less less') where
  irrefl a := by
    rw [pairLess, h.irrefl, h'.irrefl]
    rfl
  trans a b c hab hbc := by
    simp only [pairLess, Bool.or_eq_true, Bool.and_eq_true,
      Bool.not_eq_true'] at hab hbc ⊢
    exact h.first_trans (h'.trans _ _ _) hab hbc
  antisymm a b hab hba := by
    simp only [pairLess, Bool.or_eq_false_iff, Bool.and_eq_false_iff,
      Bool.not_eq_false'] at hab hba
    obtain ⟨hfirst, hx, hy⟩ := h.first_antisymm hab hba
    exact Prod.ext hfirst (h'.antisymm _ _ hx hy)

theorem lex (h : Comparator less) : Comparator (lexLess less) where
  irrefl as := by
    induction as with
    | nil => rfl
    | cons a as ih =>
        rw [lexLess, h.irrefl, ih]
        rfl
  trans as bs cs hab hbc := by
    induction as generalizing bs cs with
    | nil =>
        cases cs with
        | nil => cases bs <;> cases hbc
        | cons c cs => rfl
    | cons a as ih =>
        cases bs with
        | nil => cases hab
        | cons b bs =>
            cases cs with
            | nil => cases hbc
            | cons c cs =>
                simp only [lexLess, Bool.or_eq_true, Bool.and_eq_true,
                  Bool.not_eq_true'] at hab hbc ⊢
                exact h.first_trans (ih bs cs) hab hbc
  antisymm as bs hab hba := by
    induction as generalizing bs with
    | nil =>
        cases bs with
        | nil => rfl
        | cons b bs => cases hab
    | cons a as ih =>
        cases bs with
        | nil => cases hba
        | cons b bs =>
            simp only [lexLess, Bool.or_eq_false_iff, Bool.and_eq_false_iff,
              Bool.not_eq_false'] at hab hba
            obtain ⟨hfirst, hx, hy⟩ := h.first_antisymm hab hba
            rw [hfirst, ih bs hx hy]

/-- Sorting by a key leaves nothing out of order. -/
theorem sorted {κ : Type} {less : κ → κ → Bool} (h : Comparator less)
    (key : α → κ) (l : List α) :
    (l.mergeSort fun a b => !less (key b) (key a)).Pairwise
      fun a b => less (key b) (key a) = false := by
  have hsorted := @List.pairwise_mergeSort _
    (fun a b => !less (key b) (key a))
    (fun a b c hab hbc => by
      rw [Bool.not_eq_true'] at hab hbc ⊢
      exact h.not_less_trans hab hbc)
    (fun a b => h.not_less_total (key a) (key b)) l
  exact hsorted.imp fun hab => by rwa [Bool.not_eq_true'] at hab

end Comparator

end AntRpc.Lib
