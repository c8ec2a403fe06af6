/-
Custody: numbered things that are handed from place to place.

`Placed places total` says that each of the numbers below `total` is at
one place, once, and nothing else is anywhere. A step that hands a number
over, admits the next one or shuffles what a place holds keeps it.
-/
import Mathlib

namespace AntRpc.Lib

open Finset

variable {P : Type} [DecidableEq P] {places places' : P → List Nat}
  {total : Nat}

/-- Every number below `total` is at its place, once, and nowhere else. -/
def Placed (places : P → List Nat) (total : Nat) : Prop :=
  ∃ loc : Nat → P, ∀ m p,
    (places p).count m = if m < total ∧ loc m = p then 1 else 0

namespace Placed

theorem empty [Inhabited P] (h : ∀ p, places p = []) : Placed places 0 :=
  ⟨fun _ => default, fun m p => by simp [h p]⟩

/-- Places keep what they hold, in any order. -/
theorem perm (h : Placed places total)
    (hperm : ∀ p, (places' p).Perm (places p)) : Placed places' total := by
  obtain ⟨loc, hloc⟩ := h
  exact ⟨loc, fun m p => by rw [(hperm p).count_eq, hloc]⟩

/-- The next number is admitted at `q`. -/
theorem arrive (h : Placed places total) {q : P}
    (hq : (places' q).Perm (total :: places q))
    (hrest : ∀ r, r ≠ q → (places' r).Perm (places r)) :
    Placed places' (total + 1) := by
  obtain ⟨loc, hloc⟩ := h
  refine ⟨Function.update loc total q, fun m p => ?_⟩
  have hm := hloc m p
  rcases eq_or_ne m total with rfl | hmt
  · rw [Function.update_self]
    rw [if_neg (fun hc => absurd hc.1 (lt_irrefl m))] at hm
    rcases eq_or_ne p q with rfl | hp
    · rw [hq.count_eq, List.count_cons_self, hm,
        if_pos ⟨Nat.lt_succ_self m, rfl⟩]
    · rw [(hrest p hp).count_eq, hm, if_neg (fun hc => hp hc.2.symm)]
  · have hkeep : (places' p).count m = (places p).count m := by
      rcases eq_or_ne p q with rfl | hp
      · rw [hq.count_eq, List.count_cons_of_ne (Ne.symm hmt)]
      · rw [(hrest p hp).count_eq]
    rw [Function.update_of_ne hmt, hkeep, hm]
    refine if_congr (and_congr_left fun _ => ?_) rfl rfl
    omega

/-- `x` is handed from `p` to `q`. -/
theorem move (h : Placed places total) {p q : P} {x : Nat} (hne : p ≠ q)
    (hp : (places p).Perm (x :: places' p))
    (hq : (places' q).Perm (x :: places q))
    (hrest : ∀ r, r ≠ p → r ≠ q → (places' r).Perm (places r)) :
    Placed places' total := by
  obtain ⟨loc, hloc⟩ := h
  -- where `x` is
  have hx : x < total ∧ loc x = p := by
    by_contra hcon
    have := hloc x p
    rw [hp.count_eq, List.count_cons_self, if_neg hcon] at this
    omega
  refine ⟨Function.update loc x q, fun m r => ?_⟩
  have hm := hloc m r
  rcases eq_or_ne m x with rfl | hmx
  · rw [Function.update_self]
    rcases eq_or_ne r p with rfl | hrp
    · rw [hp.count_eq, List.count_cons_self, if_pos hx] at hm
      rw [if_neg (fun hc => hne hc.2.symm)]
      omega
    · rw [if_neg (fun hc => hrp (hc.2.symm.trans hx.2))] at hm
      rcases eq_or_ne r q with rfl | hrq
      · rw [hq.count_eq, List.count_cons_self, hm, if_pos ⟨hx.1, rfl⟩]
      · rw [(hrest r hrp hrq).count_eq, hm,
          if_neg (fun hc => hrq hc.2.symm)]
  · rw [Function.update_of_ne hmx, ← hm]
    rcases eq_or_ne r p with rfl | hrp
    · rw [hp.count_eq, List.count_cons_of_ne (Ne.symm hmx)]
    · rcases eq_or_ne r q with rfl | hrq
      · rw [hq.count_eq, List.count_cons_of_ne (Ne.symm hmx)]
      · rw [(hrest r hrp hrq).count_eq]

/-- The same for what may be nothing. -/
theorem handOver (h : Placed places total) {p q : P} {o : Option Nat}
    (hne : p ≠ q) (hp : (places p).Perm (o.toList ++ places' p))
    (hq : (places' q).Perm (o.toList ++ places q))
    (hrest : ∀ r, r ≠ p → r ≠ q → (places' r).Perm (places r)) :
    Placed places' total := by
  cases o with
  | some x => exact h.move hne hp hq hrest
  | none =>
      refine h.perm fun r => ?_
      rcases eq_or_ne r p with rfl | hrp
      · exact hp.symm
      · rcases eq_or_ne r q with rfl | hrq
        · exact hq
        · exact hrest r hrp hrq

theorem mem_iff (h : Placed places total) :
    ∃ loc : Nat → P, ∀ m p, m ∈ places p ↔ m < total ∧ loc m = p := by
  obtain ⟨loc, hloc⟩ := h
  refine ⟨loc, fun m p => ?_⟩
  rw [← List.count_pos_iff, hloc]
  split
  · next hc => simp [hc]
  · next hc => simp [hc]

theorem lt_total (h : Placed places total) {m : Nat} {p : P}
    (hm : m ∈ places p) : m < total := by
  obtain ⟨loc, hloc⟩ := h.mem_iff
  exact ((hloc m p).mp hm).1

theorem nodup (h : Placed places total) (p : P) : (places p).Nodup := by
  obtain ⟨loc, hloc⟩ := h
  refine List.nodup_iff_count_le_one.mpr fun m => ?_
  rw [hloc]
  split <;> omega

/-- One place, and no other. -/
theorem existsUnique (h : Placed places total) {m : Nat} (hm : m < total) :
    ∃! p, m ∈ places p := by
  obtain ⟨loc, hloc⟩ := h.mem_iff
  exact ⟨loc m, (hloc m _).mpr ⟨hm, rfl⟩,
    fun p hp => ((hloc m p).mp hp).2.symm⟩

/-- All places together hold `total` numbers. -/
theorem sum_length [Fintype P] (h : Placed places total) :
    ∑ p, (places p).length = total := by
  have hlen (p : P) :
      (places p).length = ∑ m ∈ range total, (places p).count m := by
    rw [← List.sum_toFinset_count_eq_length]
    refine Finset.sum_subset (fun m hm => ?_) (fun m _ hm => ?_)
    · exact mem_range.mpr (h.lt_total (List.mem_toFinset.mp hm))
    · exact List.count_eq_zero_of_not_mem fun hc =>
        hm (List.mem_toFinset.mpr hc)
  obtain ⟨loc, hloc⟩ := h
  simp only [hlen]
  rw [Finset.sum_comm]
  have hone (m : Nat) (hm : m ∈ range total) :
      ∑ p, (places p).count m = 1 := by
    simp only [hloc, mem_range.mp hm, true_and]
    rw [Finset.sum_ite_eq]
    simp
  rw [Finset.sum_congr rfl hone, sum_const, card_range, smul_eq_mul, mul_one]

end Placed

end AntRpc.Lib
