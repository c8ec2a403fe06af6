/-
The rate limiter keeps its interval as long as the sum it stores fits in
64 bits.

# The interval

A call is allowed by storing its time plus its interval over a time that
has come, in one step. If the sum does not wrap, `next_ms_` never goes
back, and every allowed call has left its time plus its interval below it
(`Spaced`). A sum that wraps opens the gate again at once: an interval of
`2^64 - 1`, meant as never again, allows every later call
(`wrap_opens_gate`).

# The count

Each refused call adds one to `suppressed_`, each taking moves it out; the
books balance until the count itself would wrap.
-/
import AntRpc.Logging.RateLimiter

namespace AntRpc.Logging

open Lib

variable {s s' : RateLimiter}

-- == condition

/-- The sum of a call fits in 64 bits. -/
def Call.fits (c : Call) : Bool := c.now.toNat + c.interval.toNat < 2 ^ 64

/-- What no step may do: store a sum that has wrapped, or count past the
last number. -/
def fits (s : RateLimiter) : Action → Bool
  | .allow _ _ _ => true
  | .takeSuppressed => true
  | .step t spurious =>
      match s.threads t with
      | .idle => true
      | .loop now interval pc =>
          match (Retry.step spurious s.next pc).2 with
          | .stored => Call.fits ⟨now, interval⟩
          | _ => true
      | .suppress => s.suppressed.toNat + 1 < 2 ^ 64

-- == steps

/-- What a step of a thread can do under the condition. -/
inductive ExecStep (t : Nat) (s : RateLimiter) : RateLimiter → Prop
  | goto (pc : AllowPc) : ExecStep t s (s.goto t pc)
  | allowed (c : Call) (hdue : s.next ≤ c.now) (hfits : c.fits = true) :
      ExecStep t s { s.goto t .idle with
        next := c.now + c.interval
        allowed := s.allowed ++ [c] }
  | refused (hfits : s.suppressed.toNat + 1 < 2 ^ 64) :
      ExecStep t s { s.goto t .idle with
        suppressed := s.suppressed + 1
        refused := s.refused + 1 }

theorem exec_cases {t : Nat} {spurious : Bool}
    (h : exec t spurious s = some s')
    (hfits : fits s (.step t spurious) = true) : ExecStep t s s' := by
  unfold exec at h
  dsimp only [fits] at hfits
  cases hpc : s.threads t with
  | idle =>
      rw [hpc] at h
      cases h
  | loop now interval pc =>
      rw [hpc] at h hfits
      have hstep := Retry.step_cases spurious s.next pc
      dsimp only at h hfits
      generalize Retry.step spurious s.next pc = r at h hfits hstep
      cases hstep with
      | goto pc' =>
          obtain rfl := Option.some.inj h
          exact .goto _
      | ended hended =>
          obtain rfl := Option.some.inj h
          exact .goto _
      | stored hstored =>
          obtain rfl := Option.some.inj h
          obtain ⟨hdue, hnext⟩ := Option.ite_none_right_eq_some.mp hstored
          obtain rfl := Option.some.inj hnext
          exact .allowed ⟨now, interval⟩ hdue hfits
  | suppress =>
      rw [hpc] at h hfits
      obtain rfl := Option.some.inj h
      exact .refused (of_decide_eq_true hfits)

-- == invariant

/-- A later call came at least an interval after an earlier one. -/
def Call.Before (c c' : Call) : Prop :=
  c.now.toNat + c.interval.toNat ≤ c'.now.toNat

structure Spaced (s : RateLimiter) : Prop where
  apart : s.allowed.Pairwise Call.Before
  passed : ∀ c ∈ s.allowed, c.now.toNat + c.interval.toNat ≤ s.next.toNat
  counted : s.refused = s.taken + s.suppressed.toNat

theorem Spaced.exec {t : Nat} (h : Spaced s) (hstep : ExecStep t s s') :
    Spaced s' := by
  cases hstep with
  | goto pc => exact ⟨h.apart, h.passed, h.counted⟩
  | allowed c hdue hfits =>
      have hdue : s.next.toNat ≤ c.now.toNat := hdue
      have hsum : (c.now + c.interval).toNat
          = c.now.toNat + c.interval.toNat := by
        rw [UInt64.toNat_add, Nat.mod_eq_of_lt (of_decide_eq_true hfits)]
      have hbefore : ∀ c' ∈ s.allowed, Call.Before c' c :=
        fun c' hc' => Nat.le_trans (h.passed c' hc') hdue
      refine ⟨?_, fun c' hc' => ?_, h.counted⟩
      · refine List.pairwise_append.mpr
          ⟨h.apart, List.pairwise_singleton _ _, fun c' hc' c'' hc'' => ?_⟩
        rw [List.mem_singleton.mp hc'']
        exact hbefore c' hc'
      · show c'.now.toNat + c'.interval.toNat ≤ (c.now + c.interval).toNat
        rw [hsum]
        rcases List.mem_append.mp hc' with hc' | hc'
        · exact Nat.le_trans (hbefore c' hc') (Nat.le_add_right _ _)
        · rw [List.mem_singleton.mp hc']
  | refused hfits =>
      refine ⟨h.apart, h.passed, ?_⟩
      show s.refused + 1 = s.taken + (s.suppressed + 1).toNat
      rw [UInt64.toNat_add, UInt64.toNat_one, Nat.mod_eq_of_lt hfits,
        h.counted, Nat.add_assoc]

theorem spaced_apply {a : Action} (h : Spaced s) (hfits : fits s a = true)
    (happly : machine.apply a s = some s') : Spaced s' := by
  cases a with
  | allow t now interval =>
      simp only [machine] at happly
      split at happly
      · obtain rfl := Option.some.inj happly
        exact ⟨h.apart, h.passed, h.counted⟩
      · cases happly
  | step t spurious => exact h.exec (exec_cases happly hfits)
  | takeSuppressed =>
      obtain rfl := Option.some.inj happly
      exact ⟨h.apart, h.passed, h.counted⟩

/-- While no stored sum wraps, two allowed calls are the earlier one's
interval apart, whatever clock values the callers bring; and every refused
call is in the count or was taken out of it. -/
theorem allowed_apart_suppressed_counted
    (h : machine.Reach (fun s a => fits s a = true) s) :
    (s.allowed.Pairwise fun c c' =>
        c.now.toNat + c.interval.toNat ≤ c'.now.toNat)
      ∧ s.refused = s.taken + s.suppressed.toNat := by
  have hspaced : Spaced s := by
    refine h.invariant (fun s hs => ?_)
      fun s s' a _ hs hfits happly => spaced_apply hs hfits happly
    rw [show s = {} from hs]
    exact ⟨List.Pairwise.nil, nofun, rfl⟩
  exact ⟨hspaced.apart, hspaced.counted⟩

-- == runs

/-- A call of a thread that finds the time come. -/
def allowAlone (t : Nat) (now interval : UInt64) : List Action :=
  [.allow t now interval, .step t false, .step t false]

/-- Two calls an interval apart with a refused one between them. -/
def spacedRun : List Action :=
  allowAlone 0 5 1000 ++ allowAlone 1 900 1000 ++ [.takeSuppressed]
    ++ allowAlone 0 1005 1000

theorem allowed_apart_spacedRun :
    (machine.finalWhile fits spacedRun {}).allowed
        = [⟨5, 1000⟩, ⟨1005, 1000⟩]
      ∧ (machine.finalWhile fits spacedRun {}).refused = 1
      ∧ (machine.finalWhile fits spacedRun {}).refused
        = (machine.finalWhile fits spacedRun {}).taken
          + (machine.finalWhile fits spacedRun {}).suppressed.toNat :=
  ⟨by decide +kernel, by decide +kernel, (allowed_apart_suppressed_counted
    (Machine.reach_finalWhile rfl (by decide +kernel))).2⟩

/-- With the largest interval the sum wraps to zero, and the same moment is
allowed twice. -/
def wrapRun : List Action :=
  allowAlone 0 1 (2 ^ 64 - 1) ++ allowAlone 0 1 (2 ^ 64 - 1)

theorem wrap_opens_gate :
    ∃ s, machine.Reachable s
      ∧ ¬ s.allowed.Pairwise fun c c' =>
        c.now.toNat + c.interval.toNat ≤ c'.now.toNat :=
  ⟨machine.final wrapRun {}, Machine.reachable_final rfl (by decide +kernel),
    by decide +kernel⟩

end AntRpc.Logging
