/-
When a timeout is exact: just if the conversions from milliseconds to
nanoseconds and the sum with the current time all fit into 64 bits. Then
the keeper's integer deadline is the one the code computes; if not, some
operation on the way overflows.
-/
import AntRpc.Timer.Deadline
import AntRpc.Timer.Keeper

namespace AntRpc.Timer

open Lib Channel Protocol

/-- The delay is small enough to be counted in nanoseconds, and from now
on. -/
def fits (now delay : Int64) : Bool :=
  decide (1000000 * delay.toInt < 2 ^ 63)
    && decide (now.toInt + 1000000 * delay.toInt < 2 ^ 63)

/-- What the callers admit is positive. -/
theorem TimerUse.delay_pos {use : TimerUse} {delay : Int64}
    (hadmitted : use.admitted = true) (hdelay : use.delay = some delay) :
    0 < delay.toInt := by
  suffices h : 0 < delay from Int64.lt_iff_toInt_lt.mp h
  cases use with
  | call cfg options ctl =>
      simp only [TimerUse.admitted, RpcChannelOptions.isValid,
        Bool.and_eq_true, decide_eq_true_eq, beq_iff_eq] at hadmitted
      have hdefault : 0 < cfg.defaultRpcTimeout := by
        rw [hadmitted.2]
        exact hadmitted.1.1.1.1.1.2
      injection hdelay with hdelay
      subst hdelay
      cases ctl with
      | none => exact hdefault
      | some ctl =>
          simp only [rpcTimeout]
          split
          · assumption
          · exact hdefault
  | idle options =>
      simp only [TimerUse.delay] at hdelay
      split at hdelay
      · cases hdelay
      · next hpos =>
        injection hdelay with hdelay
        subst hdelay
        exact Int64.not_le.mp hpos
  | gracefulStop options =>
      simp only [TimerUse.admitted, RpcServerOptions.isValid,
        Bool.and_eq_true, decide_eq_true_eq] at hadmitted
      simp only [TimerUse.delay] at hdelay
      split at hdelay
      · cases hdelay
      · next hne =>
        injection hdelay with hdelay
        subst hdelay
        exact Int64.lt_of_le_of_ne hadmitted.1.2 (Ne.symm hne)

variable {now delay : Int64}

theorem delayUs_exact (hpos : 0 < delay.toInt)
    (hfits : 1000000 * delay.toInt < 2 ^ 63) :
    (delayUs delay).Exact (delay.toInt * 1000) := by
  refine (Signed.exact_of delay).mul (Signed.exact_of 1000) ⟨?_, ?_⟩
  · show _ ≤ delay.toInt * 1000
    omega
  · show delay.toInt * 1000 < _
    omega

theorem expireAtOf_exact {us : Signed} {n : Int} (h : us.Exact n)
    (hpos : 0 < n) (hns : n * 1000 < 2 ^ 63)
    (hsum : now.toInt + n * 1000 < 2 ^ 63) :
    (expireAtOf now us).Exact (now.toInt + n * 1000) := by
  have hnow := now.le_toInt
  refine (Signed.exact_of now).add
    (h.mul (Signed.exact_of 1000) ⟨?_, ?_⟩) ⟨?_, ?_⟩
  · show _ ≤ n * 1000
    omega
  · exact hns
  · show _ ≤ now.toInt + n * 1000
    omega
  · exact hsum

/-- A deadline that was computed without overflow fits. -/
theorem fits_of_deadline (h : (deadline now delay).overflow = false) :
    fits now delay = true := by
  have hus : (delayUs delay).overflow = false →
      (delayUs delay).Exact (delay.toInt * 1000) := by
    intro hmul
    obtain ⟨hexact, hfits⟩ := Signed.fits_of_mul
      (fun _ => Signed.exact_of delay) (Signed.exact_of 1000) hmul
    exact hexact.mul (Signed.exact_of 1000) hfits
  have hns : ((delayUs delay).mul ⟨1000, false⟩).overflow = false →
      ((delayUs delay).mul ⟨1000, false⟩).Exact
        (delay.toInt * 1000 * 1000) := by
    intro hmul
    obtain ⟨hexact, hfits⟩ :=
      Signed.fits_of_mul hus (Signed.exact_of 1000) hmul
    exact hexact.mul (Signed.exact_of 1000) hfits
  obtain ⟨hexact, hsum⟩ :=
    Signed.fits_of_add (Signed.exact_of now) hns h
  have hhigh := Int64.toInt_lt
    ((delayUs delay).mul ⟨1000, false⟩).value
  rw [hexact.value] at hhigh
  simp only [fits, Bool.and_eq_true, decide_eq_true_eq]
  exact ⟨by omega, by have := hsum.2; omega⟩

theorem expireUsOf_exact {t : Signed} {n : Int} (h : t.Exact n) :
    (expireUsOf t).Exact (toUs n) := by
  have hlow := t.value.le_toInt
  have hhigh := t.value.toInt_lt
  rw [h.value] at hlow hhigh
  refine h.div (Signed.exact_of 1000) ?_
  show Signed.Fits (n.tdiv 1000)
  rw [Int.tdiv_eq_ediv, Signed.Fits]
  have hsign : Int.sign 1000 = 1 := rfl
  split <;> omega

/-- The keeper's deadline for a timer that is being added. -/
theorem execAdd_prepare_expireAt {τ : Type} [DecidableEq τ] (s : State τ)
    (t : τ) (bucket : Fin kNumBuckets) (n : Nat) (seq : UInt64)
    (delay : Int) (owns : Bool) :
    ∃ s', execAdd s t bucket (.prepare n seq delay owns) = some s'
      ∧ s'.expireAt n = s.now + 1000 * delay :=
  ⟨_, rfl, by simp [State.expireAt, State.adderTo, State.setEntry]⟩

theorem deadline_of_fits (hpos : 0 < delay.toInt)
    (hfits : fits now delay = true) :
    (delayUs delay).Exact (delay.toInt * 1000)
      ∧ (deadline now delay).Exact
        (now.toInt + 1000000 * delay.toInt) := by
  simp only [fits, Bool.and_eq_true, decide_eq_true_eq] at hfits
  obtain ⟨hns, hsum⟩ := hfits
  have hus := delayUs_exact hpos hns
  have h : (deadline now delay).Exact
      (now.toInt + delay.toInt * 1000 * 1000) :=
    expireAtOf_exact hus (by omega) (by omega) (by omega)
  rw [show delay.toInt * 1000 * 1000 = 1000000 * delay.toInt by ring] at h
  exact ⟨hus, h⟩

/-- **Just the deadlines of delays that fit are exact.** Whoever arms a
timer with admitted options: if the delay or the deadline cannot be
counted in nanoseconds, some operation overflows. If both can, none
does, the deadline is now plus the delay and so after now, its
microseconds are rounded from it, and it is the deadline the keeper works
with. -/
theorem deadline_exact_iff (use : TimerUse) (now delay : Int64)
    (hadmitted : use.admitted = true) (hdelay : use.delay = some delay) :
    (deadline now delay).overflow = !fits now delay
    ∧ (fits now delay = true
      ↔ (deadline now delay).Exact (now.toInt + 1000000 * delay.toInt)
        ∧ (expireUsOf (deadline now delay)).Exact
          (toUs (now.toInt + 1000000 * delay.toInt))
        ∧ now < (deadline now delay).value
        ∧ ∀ {τ : Type} [DecidableEq τ] (s : State τ) (t : τ)
          (bucket : Fin kNumBuckets) (n : Nat) (seq : UInt64)
          (owns : Bool), s.now = now.toInt →
          ∃ s', execAdd s t bucket
              (.prepare n seq (delayUs delay).value.toInt owns) = some s'
            ∧ s'.expireAt n = (deadline now delay).value.toInt) := by
  have hpos := TimerUse.delay_pos hadmitted hdelay
  refine ⟨?_, fun hfits => ?_, fun h => fits_of_deadline h.1.overflow⟩
  · cases hfits : fits now delay with
    | true => exact (deadline_of_fits hpos hfits).2.overflow
    | false =>
        refine Bool.not_eq_false _ ▸ fun h => ?_
        rw [fits_of_deadline h] at hfits
        cases hfits
  obtain ⟨hus, hexact⟩ := deadline_of_fits hpos hfits
  refine ⟨hexact, expireUsOf_exact hexact, ?_, ?_⟩
  · rw [Int64.lt_iff_toInt_lt, hexact.value]
    omega
  · intro τ _ s t bucket n seq owns hnow
    obtain ⟨s', hs', hexpire⟩ := execAdd_prepare_expireAt s t bucket n seq
      (delayUs delay).value.toInt owns
    refine ⟨s', hs', ?_⟩
    rw [hexpire, hexact.value, hus.value, hnow]
    ring

/-- A channel with the default options. -/
def defaultChannel : ChannelConfig where
  table := ⟨65536, by decide, fun _ body => (body, true)⟩
  codec := ⟨fun _ => some [], fun _ => none⟩
  maxFrameBytes := kDefaultMaxRpcFrameBytes
  maxOutboundBytes := 16 * 1024 * 1024
  maxInFlight := 65536
  defaultRpcTimeout := 5000

/-- Asking for no deadline by the largest timeout there is. -/
def endless : List TimerUse :=
  [.call defaultChannel {} (some { timeoutMs := Int64.maxValue }),
    .idle { idleTimeout := Int64.maxValue },
    .gracefulStop { gracefulStopTimeout := Int64.maxValue }]

/-- It overflows, and the deadline is in the past. -/
theorem endless_expired :
    endless.all (fun use => use.admitted
        && use.delay == some Int64.maxValue) = true
      ∧ (deadline 5000000000 Int64.maxValue).overflow = true
      ∧ (deadline 5000000000 Int64.maxValue).value < 5000000000 := by
  decide

/-- The default timeout, five seconds after the clock started. -/
theorem default_deadline :
    (deadline 5000000000 5000).Exact 10000000000 :=
  ((deadline_exact_iff (.call defaultChannel {} none) 5000000000 5000
    (by decide) (by decide)).2.mp (by decide)).1

end AntRpc.Timer
