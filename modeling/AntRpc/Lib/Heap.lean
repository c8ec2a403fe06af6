/-
Heaps in level order, with any number of children to a node: keys indexed
by naturals, the parent of `i` at `(i - 1) / d`.

# The key in hand

A sift moves one key. `Rising` says that only the edge above that key may
be out of order, `Sinking` that only the edges below it may be; in both
the neighbours around it are in order with each other, so the key can
trade places with one of them. Each turn of a sift is such a trade
(`Rising.lift`, `Sinking.lower`), and the turn that stops ends in order
(`Rising.stop`, `Sinking.stop`).
-/
import Mathlib.Algebra.Order.Group.Nat
import Mathlib.Logic.Function.Basic

namespace AntRpc.Lib.Heap

variable {β : Type} {d n hole : Nat} {k : Nat → β}

def parent (d i : Nat) : Nat := (i - 1) / d

theorem parent_lt {i : Nat} (hi : 0 < i) : parent d i < i := by
  have hle : (i - 1) / d ≤ i - 1 := Nat.div_le_self _ _
  unfold parent
  omega

/-- The keys at `i` and `j` trade places. -/
def trade (k : Nat → β) (i j : Nat) : Nat → β :=
  Function.update (Function.update k i (k j)) j (k i)

theorem trade_left {i j : Nat} (hne : i ≠ j) : trade k i j i = k j := by
  rw [trade, Function.update_of_ne hne, Function.update_self]

theorem trade_right (i j : Nat) : trade k i j j = k i :=
  Function.update_self ..

theorem trade_other {i j l : Nat} (hi : l ≠ i) (hj : l ≠ j) :
    trade k i j l = k l := by
  rw [trade, Function.update_of_ne hj, Function.update_of_ne hi]

variable [LinearOrder β]

/-- No key is before its parent's. -/
def Ordered (d n : Nat) (k : Nat → β) : Prop :=
  ∀ i, 0 < i → i < n → k (parent d i) ≤ k i

/-- The first key is the least. -/
theorem Ordered.root_le (h : Ordered d n k) {i : Nat} (hi : i < n) :
    k 0 ≤ k i := by
  induction i using Nat.strong_induction_on with
  | h i ih =>
      rcases Nat.eq_zero_or_pos i with rfl | hpos
      · exact le_refl _
      · have hlt := parent_lt (d := d) hpos
        exact (ih _ hlt (hlt.trans hi)).trans (h i hpos hi)

theorem Ordered.mono {m : Nat} (h : Ordered d n k) (hm : m ≤ n) :
    Ordered d m k :=
  fun i hpos hi => h i hpos (hi.trans_le hm)

theorem Ordered.congr {k' : Nat → β} (h : Ordered d n k)
    (heq : ∀ i < n, k' i = k i) : Ordered d n k' := by
  intro i hpos hi
  rw [heq i hi, heq _ ((parent_lt hpos).trans hi)]
  exact h i hpos hi

-- == rising

/-- Only the edge above `hole` may be out of order. -/
structure Rising (d n : Nat) (k : Nat → β) (hole : Nat) : Prop where
  others : ∀ i, 0 < i → i < n → i ≠ hole → k (parent d i) ≤ k i
  around : ∀ i, 0 < i → i < n → parent d i = hole → 0 < hole →
    k (parent d hole) ≤ k i

/-- A key at the end of an ordered heap. -/
theorem Ordered.rising (h : Ordered d n k) : Rising d (n + 1) k n where
  others i hpos hi hne := h i hpos (by omega)
  around i hpos hi hparent _ := by
    have hlt := parent_lt (d := d) hpos
    omega

theorem Rising.stop (h : Rising d n k hole)
    (hstop : 0 < hole → k (parent d hole) ≤ k hole) : Ordered d n k := by
  intro i hpos hi
  by_cases hhole : i = hole
  · subst hhole
    exact hstop hpos
  · exact h.others i hpos hi hhole

theorem Rising.lift (h : Rising d n k hole) (hpos : 0 < hole)
    (hn : hole < n) (hlt : k hole < k (parent d hole)) :
    Rising d n (trade k hole (parent d hole)) (parent d hole) := by
  have hup : parent d hole < hole := parent_lt hpos
  have hne : hole ≠ parent d hole := by omega
  -- what was below the hole is in order with what was above it
  have hkid : ∀ i, 0 < i → i < n → i ≠ hole → parent d i = parent d hole →
      k (parent d hole) ≤ k i := fun i hi hin hih hpi =>
    hpi ▸ h.others i hi hin hih
  refine ⟨fun i hi hin hip => ?_, fun i hi hin hpi hpp => ?_⟩
  · by_cases hih : i = hole
    · subst hih
      rw [trade_right, trade_left hne]
      exact hlt.le
    · rw [trade_other hih hip]
      by_cases hpi : parent d i = hole
      · rw [hpi, trade_left hne]
        exact h.around i hi hin hpi hpos
      · by_cases hpp : parent d i = parent d hole
        · rw [hpp, trade_right]
          exact hlt.le.trans (hkid i hi hin hih hpp)
        · rw [trade_other hpi hpp]
          exact h.others i hi hin hih
  · have hgrand : parent d (parent d hole) < parent d hole :=
      parent_lt hpp
    have htop : k (parent d (parent d hole)) ≤ k (parent d hole) :=
      h.others _ hpp (by omega) hne.symm
    rw [trade_other (by omega) (by omega)]
    by_cases hih : i = hole
    · subst hih
      rw [trade_left hne]
      exact htop
    · have hip : i ≠ parent d hole := by
        rintro rfl
        omega
      rw [trade_other hih hip]
      exact htop.trans (hkid i hi hin hih hpi)

-- == sinking

/-- Only the edges below `hole` may be out of order. -/
structure Sinking (d n : Nat) (k : Nat → β) (hole : Nat) : Prop where
  others : ∀ i, 0 < i → i < n → parent d i ≠ hole → k (parent d i) ≤ k i
  around : ∀ i, 0 < i → i < n → parent d i = hole → 0 < hole →
    k (parent d hole) ≤ k i

/-- Any key in the place of the first. -/
theorem Ordered.sinking (h : Ordered d n k) (x : β) :
    Sinking d n (Function.update k 0 x) 0 where
  others i hpos hi hne := by
    rw [Function.update_of_ne hne, Function.update_of_ne (by omega)]
    exact h i hpos hi
  around i _ _ _ hhole := absurd hhole (lt_irrefl 0)

theorem Sinking.stop (h : Sinking d n k hole)
    (hstop : ∀ i, 0 < i → i < n → parent d i = hole → k hole ≤ k i) :
    Ordered d n k := by
  intro i hpos hi
  by_cases hpi : parent d i = hole
  · rw [hpi]
    exact hstop i hpos hi hpi
  · exact h.others i hpos hi hpi

/-- The key goes down to its least child. -/
theorem Sinking.lower {child : Nat} (h : Sinking d n k hole)
    (hpos : 0 < child) (hchild : parent d child = hole) (hn : child < n)
    (hleast : ∀ i, 0 < i → i < n → parent d i = hole → k child ≤ k i)
    (hlt : k child < k hole) : Sinking d n (trade k hole child) child := by
  have hdown : hole < child := hchild ▸ parent_lt hpos
  have hne : hole ≠ child := by omega
  refine ⟨fun i hi hin hpi => ?_, fun i hi hin hpi _ => ?_⟩
  · by_cases hih : i = hole
    · have hphole : parent d i < i := parent_lt hi
      subst hih
      rw [trade_left hne, trade_other (by omega) (by omega)]
      exact h.around child hpos hn hchild hi
    · by_cases hic : i = child
      · subst hic
        rw [hchild, trade_left hne, trade_right]
        exact hlt.le
      · rw [trade_other hih hic]
        by_cases hphole : parent d i = hole
        · rw [hphole, trade_left hne]
          exact hleast i hi hin hphole
        · rw [trade_other hphole hpi]
          exact h.others i hi hin hphole
  · have hbelow : child < i := hpi ▸ parent_lt hi
    rw [hchild, trade_left hne, trade_other (by omega) (by omega)]
    have hle := h.others i hi hin (by omega)
    rwa [hpi] at hle

end AntRpc.Lib.Heap
