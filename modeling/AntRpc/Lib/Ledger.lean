/-
Accounts that are spread over several holders.

# Weights

`weigh` adds up what the entries of a list hold, `total` what the members
of a numbered family hold, `census` what the members of any family hold
of which only finitely many hold something (`Sparse`). A step that
replaces one entry or one member changes the sum by the difference, so
the invariant "counter = sum of what is held" is proved one step at a
time.
-/
import Mathlib.Algebra.BigOperators.Finprod
import Mathlib.Algebra.BigOperators.Intervals
import Mathlib.Algebra.Order.BigOperators.Group.Finset
import Mathlib.Data.Set.Card
import Mathlib.Tactic.Linarith

namespace AntRpc.Lib

variable {α : Type} {w : α → Int} {l : List α} {a b : α}

/-- A truth value as a number. -/
def bit (b : Bool) : Int := if b then 1 else 0

@[simp] theorem bit_true : bit true = 1 := rfl
@[simp] theorem bit_false : bit false = 0 := rfl

theorem bit_nonneg (b : Bool) : 0 ≤ bit b := by cases b <;> decide

theorem bit_le_one (b : Bool) : bit b ≤ 1 := by cases b <;> decide

-- == lists

/-- What the entries of a list hold together. -/
def weigh (w : α → Int) (l : List α) : Int := (l.map w).sum

@[simp] theorem weigh_nil : weigh w [] = 0 := rfl

@[simp] theorem weigh_cons : weigh w (a :: l) = w a + weigh w l := by
  simp [weigh]

@[simp] theorem weigh_append (l l' : List α) :
    weigh w (l ++ l') = weigh w l + weigh w l' := by
  simp [weigh]

theorem weigh_nonneg (h : ∀ a ∈ l, 0 ≤ w a) : 0 ≤ weigh w l := by
  induction l with
  | nil => exact le_refl 0
  | cons x l ih =>
      rw [weigh_cons]
      have hx := h x List.mem_cons_self
      have hl := ih fun a ha => h a (List.mem_cons_of_mem x ha)
      omega

theorem weigh_eq_zero (h : ∀ a ∈ l, w a = 0) : weigh w l = 0 := by
  induction l with
  | nil => rfl
  | cons x l ih =>
      rw [weigh_cons, h x List.mem_cons_self,
        ih fun a ha => h a (List.mem_cons_of_mem x ha)]
      rfl

/-- One entry is replaced. -/
theorem weigh_set {j : Nat} (h : l[j]? = some a) :
    weigh w (l.set j b) = weigh w l - w a + w b := by
  induction l generalizing j with
  | nil => cases h
  | cons x l ih =>
      cases j with
      | zero =>
          cases h
          rw [List.set_cons_zero, weigh_cons, weigh_cons]
          omega
      | succ j =>
          rw [List.set_cons_succ, weigh_cons, weigh_cons, ih h]
          omega

/-- How many entries satisfy `p`. -/
def tally (p : α → Bool) (l : List α) : Int := weigh (fun a => bit (p a)) l

variable {p : α → Bool}

@[simp] theorem tally_nil : tally p [] = 0 := rfl

@[simp] theorem tally_cons : tally p (a :: l) = bit (p a) + tally p l :=
  weigh_cons

@[simp] theorem tally_append (l l' : List α) :
    tally p (l ++ l') = tally p l + tally p l' :=
  weigh_append l l'

theorem tally_nonneg (p : α → Bool) (l : List α) : 0 ≤ tally p l :=
  weigh_nonneg fun a _ => bit_nonneg (p a)

theorem tally_eq_zero : tally p l = 0 ↔ l.any p = false := by
  induction l with
  | nil => simp
  | cons x l ih =>
      have hl := tally_nonneg p l
      rw [tally_cons, List.any_cons, Bool.or_eq_false_iff, ← ih]
      cases p x <;> simp
      omega

theorem tally_eq_countP : tally p l = (l.countP p : Int) := by
  induction l with
  | nil => rfl
  | cons x l ih =>
      rw [tally_cons, List.countP_cons, ih]
      cases p x
      · simp
      · simp
        omega

-- == families

variable {f : α → Int} {g : Nat → α} {n r : Nat}

/-- What the first `n` members of a family hold together. -/
def total (f : α → Int) (n : Nat) (g : Nat → α) : Int :=
  ∑ i ∈ Finset.range n, f (g i)

@[simp] theorem total_zero : total f 0 g = 0 := rfl

/-- One member changes. -/
theorem total_update (hr : r < n) (a : α) :
    total f n (Function.update g r a) = total f n g - f (g r) + f a := by
  induction n with
  | zero => exact absurd hr (Nat.not_lt_zero r)
  | succ n ih =>
      unfold total at ih ⊢
      rw [Finset.sum_range_succ, Finset.sum_range_succ]
      rcases eq_or_ne n r with rfl | hne
      · have hrest : ∑ i ∈ Finset.range n, f (Function.update g n a i)
            = ∑ i ∈ Finset.range n, f (g i) := by
          refine Finset.sum_congr rfl fun i hi => ?_
          rw [Function.update_of_ne (Finset.mem_range.1 hi).ne]
        rw [hrest, Function.update_self]
        omega
      · rw [ih (by omega), Function.update_of_ne hne]
        omega

/-- A member changes and holds what it held. -/
theorem total_update_same (h : f a = f (g r)) :
    total f n (Function.update g r a) = total f n g := by
  refine Finset.sum_congr rfl fun i _ => ?_
  rw [Function.update_apply]
  split
  · next heq => rw [h, heq]
  · rfl

/-- A member is added. -/
theorem total_extend (a : α) :
    total f (n + 1) (Function.update g n a) = total f n g + f a := by
  unfold total
  rw [Finset.sum_range_succ, Function.update_self]
  congr 1
  refine Finset.sum_congr rfl fun i hi => ?_
  rw [Function.update_of_ne (Finset.mem_range.1 hi).ne]

theorem total_nonneg (h : ∀ i < n, 0 ≤ f (g i)) : 0 ≤ total f n g :=
  Finset.sum_nonneg fun i hi => h i (Finset.mem_range.1 hi)

-- == families without bound

variable {ι : Type} {h : ι → α} {i : ι}

/-- What all members of a family hold together. -/
noncomputable def census (w : α → Int) (h : ι → α) : Int := ∑ᶠ i, w (h i)

/-- Finitely many members hold something. -/
def Sparse (w : α → Int) (h : ι → α) : Prop :=
  (Function.support fun i => w (h i)).Finite

theorem census_of_zero (hz : ∀ i, w (h i) = 0) : census w h = 0 :=
  finsum_eq_zero_of_forall_eq_zero hz

theorem census_nonneg (hw : ∀ i, 0 ≤ w (h i)) : 0 ≤ census w h :=
  finsum_nonneg hw

/-- No member holds more than all together. -/
theorem le_census (hs : Sparse w h) (hw : ∀ i, 0 ≤ w (h i)) (i : ι) :
    w (h i) ≤ census w h :=
  single_le_finsum i hs hw

/-- Counting is weighing with ones. -/
theorem census_bit (hs : Sparse (fun a => bit (p a)) h) :
    census (fun a => bit (p a)) h
      = ({i | p (h i) = true}.ncard : Int) := by
  have hset : (Function.support fun i => bit (p (h i)))
      = {i | p (h i) = true} := by
    ext i
    rw [Function.mem_support, Set.mem_ofPred_eq]
    cases p (h i) <;> decide
  have hfin : {i | p (h i) = true}.Finite := hset ▸ hs
  have hone : ∀ i ∈ hfin.toFinset, bit (p (h i)) = 1 := by
    intro i hi
    rw [Set.Finite.mem_toFinset, Set.mem_ofPred_eq] at hi
    rw [hi, bit_true]
  rw [census, finsum_eq_sum_of_support_subset (s := hfin.toFinset) _
    (by rw [hset, Set.Finite.coe_toFinset]), Finset.sum_congr rfl hone,
    Finset.sum_const, ← Set.ncard_eq_toFinset_card _ hfin]
  simp

variable [DecidableEq ι]

/-- One member changes. -/
theorem census_update (hs : Sparse w h) (i : ι) (a : α) :
    census w (Function.update h i a) = census w h - w (h i) + w a := by
  have hfin : (Function.support fun j => w (h j)).Finite := hs
  -- both sums range over the holders and `i`
  have hsum : ∀ k : ι → α, (∀ j, j ≠ i → k j = h j) → census w k
      = w (k i) + ∑ j ∈ hfin.toFinset.erase i, w (h j) := by
    intro k hk
    have hsub : (Function.support fun j => w (k j))
        ⊆ (insert i (hfin.toFinset.erase i) : Finset ι) := by
      intro j hj
      rcases eq_or_ne j i with rfl | hne
      · simp
      · have hj' : w (h j) ≠ 0 := hk j hne ▸ hj
        simp [hne, hj']
    rw [census, finsum_eq_sum_of_support_subset _ hsub,
      Finset.sum_insert (Finset.notMem_erase i _)]
    congr 1
    exact Finset.sum_congr rfl fun j hj =>
      congrArg w (hk j (Finset.ne_of_mem_erase hj))
  rw [hsum h fun _ _ => rfl,
    hsum (Function.update h i a) fun j hne => Function.update_of_ne hne a h,
    Function.update_self]
  omega

end AntRpc.Lib
