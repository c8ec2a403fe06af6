/-
Retry loops on one atomic word: load it, and as long as there is something
to store over the value read, try `compare_exchange_weak`, which on failure
reads the word again.

# What a loop does

A weak exchange may fail without a reason, so the number of rounds is the
environment's. Whatever it is, the word changes at most once, in one step,
and then from a value to what the loop wants to store over that very value
(`step_cases`): a loop is an update of the word at one moment.
-/
import Mathlib

namespace AntRpc.Lib.Retry

variable {ω : Type} {next : ω → Option ω}

/-- Where a loop is. `next` says what to store over a value, or that the
loop ends at it. -/
inductive Pc (next : ω → Option ω)
  | load
  | swap (current desired : ω) (h : next current = some desired)

inductive Outcome (next : ω → Option ω)
  | goto (pc : Pc next)
  | stored
  | ended

/-- Go on with a value that was read. -/
def check (next : ω → Option ω) (current : ω) : Outcome next :=
  match h : next current with
  | none => .ended
  | some desired => .goto (.swap current desired h)

/-- One atomic operation of the loop, and the word after it. -/
def step [DecidableEq ω] (spurious : Bool) (word : ω) :
    Pc next → ω × Outcome next
  | .load => (word, check next word)
  | .swap current desired _ =>
      if word = current ∧ spurious = false then (desired, .stored)
      else (word, check next word)

/-- What an operation can do. -/
inductive Step (next : ω → Option ω) (word : ω) : ω × Outcome next → Prop
  | goto (pc : Pc next) : Step next word (word, .goto pc)
  | ended (h : next word = none) : Step next word (word, .ended)
  | stored {desired : ω} (h : next word = some desired) :
      Step next word (desired, .stored)

theorem check_cases (word : ω) : Step next word (word, check next word) := by
  unfold check
  split
  · next h => exact .ended h
  · exact .goto _

theorem step_cases [DecidableEq ω] (spurious : Bool) (word : ω)
    (pc : Pc next) : Step next word (step spurious word pc) := by
  cases pc with
  | load => exact check_cases word
  | swap current desired h =>
      rw [step]
      by_cases hwins : word = current ∧ spurious = false
      · rw [if_pos hwins]
        rw [← hwins.1] at h
        exact .stored h
      · rw [if_neg hwins]
        exact check_cases word

/-- A loop that is left alone, and whose exchanges do not fail for
nothing, stores on its second round at the latest. -/
theorem step_settles [DecidableEq ω] {word word' : ω} {pc pc' : Pc next}
    (h : step false word pc = (word', .goto pc')) :
    word' = word ∧ ∃ desired, step false word pc' = (desired, .stored) := by
  have hcheck : (word, check next word) = (word', .goto pc') := by
    cases pc with
    | load => exact h
    | swap current desired _ =>
        rw [step] at h
        by_cases hwins : word = current ∧ false = false
        · rw [if_pos hwins] at h
          cases h
        · rwa [if_neg hwins] at h
  obtain ⟨hword, hgoto⟩ := Prod.mk.inj hcheck
  refine ⟨hword.symm, ?_⟩
  unfold check at hgoto
  split at hgoto
  · cases hgoto
  · next desired hdesired =>
    obtain rfl := Outcome.goto.inj hgoto
    exact ⟨desired, if_pos ⟨rfl, rfl⟩⟩

end AntRpc.Lib.Retry
