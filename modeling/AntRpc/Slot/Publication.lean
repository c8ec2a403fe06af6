/-
The publication of one id, apart from any program: what a publisher, the
winners of its call and a channel-level failure may do about it, and why
a failure leaves no published call behind.

# The race

A publisher registers the id, publishes, and looks again whether the
channel has failed. A failure takes the registered ids in one section and
then fails them one by one, skipping calls that are not yet published.
Wherever the failure falls between the publisher's steps, somebody is
left who will resolve the call: the publisher, who has not looked again
yet, or the failing thread, which still has the id to come
(`PubInv.resolved`).

# One publisher

All of this is about an id published at most once: a second publisher
that loses would take the registration away from the first
(`PubStep.unregister`), so the invariant is stated under `count ≤ 1` and
the count only grows.
-/
import Mathlib

namespace AntRpc.Slot

variable {τ : Type}

/-- What a thread is about to do about the id. -/
inductive Phase where
  | out
  | entering
  | refused
  | publishing
  | published
  | rechecking
  | lost
  | delivering
  | winner (inside : Bool)
  | leaving
deriving DecidableEq

/-- The thread is inside a publication of the id. -/
def Phase.Inside (p : Phase) : Prop :=
  p ≠ .out ∧ p ≠ .winner false

/-- The publisher has not moved the word yet. -/
def Phase.Early (p : Phase) : Prop :=
  p = .entering ∨ p = .refused ∨ p = .publishing

/-- All that matters for one id: whether its call is published and not
resolved, whether the channel failed, whether the id is registered, how
often it was published, and where every thread stands. -/
structure PubView (τ : Type) where
  inFlight : Prop
  failed : Prop
  active : Prop
  count : Nat
  phase : τ → Phase
  pending : τ → Prop

variable [DecidableEq τ]

/-- Thread `t` goes on to `p`. -/
def PubView.to (v : PubView τ) (t : τ) (p : Phase) : PubView τ :=
  { v with phase := Function.update v.phase t p }

/-- Thread `t` still has the id to fail, or no longer. -/
def PubView.work (v : PubView τ) (t : τ) (q : Prop) : PubView τ :=
  { v with pending := Function.update v.pending t q }

theorem PubView.to_self (v : PubView τ) (t : τ) :
    v.to t (v.phase t) = v := by
  unfold PubView.to
  rw [Function.update_eq_self]

theorem PubView.work_self (v : PubView τ) (t : τ) :
    v.work t (v.pending t) = v := by
  unfold PubView.work
  rw [Function.update_eq_self]

/-- What one step of thread `t` may do. -/
inductive PubStep (t : τ) (v : PubView τ) : PubView τ → Prop
  | stay : PubStep t v v
  | enter (h : v.phase t = .out) :
      PubStep t v { v.to t .entering with count := v.count + 1 }
  | bounce : PubStep t v { v with count := v.count + 1 }
  | register (h : v.phase t = .entering) (hf : ¬ v.failed) :
      PubStep t v { v.to t .publishing with active := True }
  | refuse (h : v.phase t = .entering) (hf : v.failed) :
      PubStep t v (v.to t .refused)
  | publish (h : v.phase t = .publishing) :
      PubStep t v { v.to t .published with inFlight := True }
  | miss (h : v.phase t = .publishing) : PubStep t v (v.to t .lost)
  | keep (h : v.phase t = .published) (hf : ¬ v.failed) :
      PubStep t v (v.to t .out)
  | recheck (q : Prop) (hq : q → v.active) (h : v.phase t = .published)
      (hf : v.failed) :
      PubStep t v { v.to t .rechecking with active := q }
  | win (b : Bool) (q : Prop)
      (h : v.phase t = if b then .rechecking else .out)
      (hin : v.inFlight) :
      PubStep t v
        { (v.to t (.winner b)).work t q with inFlight := False }
  | winUnpublished (h : v.phase t = .refused ∨ v.phase t = .delivering) :
      PubStep t v (v.to t (.winner true))
  | unregister (p : Phase) (q : Prop) (hq : q → v.active)
      (h : v.phase t = .lost) (hp : p = .delivering ∨ p = .out) :
      PubStep t v { v.to t p with active := q }
  | fallBack (h : v.phase t = .refused) : PubStep t v (v.to t .delivering)
  | giveUp (h : v.phase t = .refused ∨ v.phase t = .delivering
        ∨ v.phase t = .rechecking ∧ ¬ v.inFlight) :
      PubStep t v (v.to t .out)
  | erase (b : Bool) (q : Prop) (hq : q → v.active)
      (h : v.phase t = .winner b) (hn : ¬ v.inFlight) :
      PubStep t v
        { v.to t (if b then .leaving else .out) with active := q }
  | leave (h : v.phase t = .leaving) : PubStep t v (v.to t .out)
  | failAll (hf : ¬ v.failed) :
      PubStep t v
        { v.work t v.active with failed := True, active := False }
  | work (q : Prop) (h : v.pending t → q ∨ ¬ v.inFlight) :
      PubStep t v (v.work t q)

/-- The invariant of an id published at most once. -/
structure PubInv (v : PubView τ) : Prop where
  zero : v.count = 0 → ¬ v.inFlight ∧ ∀ u, v.phase u = .out
  unique : ∀ u u', (v.phase u).Inside → (v.phase u').Inside → u = u'
  early : ∀ u, (v.phase u).Early →
    ¬ v.inFlight ∧ ∀ u' b, v.phase u' ≠ .winner b
  lost : ∀ u, v.phase u = .lost ∨ v.phase u = .delivering → ¬ v.inFlight
  registered : ∀ u, v.phase u = .publishing → v.failed ∨ v.active
  safe : v.inFlight → v.failed ∨ v.active
  resolved : v.failed → v.inFlight →
    (∃ u, v.phase u = .published ∨ v.phase u = .rechecking)
      ∨ ∃ u, v.pending u

/-- The count never falls. -/
theorem PubStep.count_le {t : τ} {v v' : PubView τ}
    (hs : PubStep t v v') : v.count ≤ v'.count := by
  cases hs <;> simp [PubView.to, PubView.work]

/-- A failed channel stays failed and registers nothing. -/
theorem PubStep.failed_mono {t : τ} {v v' : PubView τ}
    (hs : PubStep t v v') (hf : v.failed) (hn : ¬ v.active) :
    v'.failed ∧ ¬ v'.active := by
  cases hs with
  | register h hnf => exact absurd hf hnf
  | failAll hnf => exact absurd hf hnf
  | recheck q hq | unregister p q hq | erase b q hq =>
      exact ⟨hf, fun h => hn (hq h)⟩
  | stay | enter | bounce | refuse | publish | miss | keep | win
  | winUnpublished | fallBack | giveUp | leave | work =>
      exact ⟨hf, hn⟩

/-- A step that marks the channel failed leaves nothing registered. -/
theorem PubStep.marks {t : τ} {v v' : PubView τ} (hs : PubStep t v v')
    (hf : ¬ v.failed) (hf' : v'.failed) : ¬ v'.active := by
  cases hs with
  | failAll => exact id
  | stay | enter | bounce | register | refuse | publish | miss | keep
  | recheck | win | winUnpublished | unregister | fallBack | giveUp
  | erase | leave | work => exact absurd hf' hf

/-- Every step keeps the invariant, as long as the id is published at
most once. In each case the thread's own phase says who else can be
inside; the seven clauses then follow by comparing phases. -/
theorem PubStep.inv {t : τ} {v v' : PubView τ} (hs : PubStep t v v')
    (hv : PubInv v) (hcount : v'.count ≤ 1) : PubInv v' := by
  obtain ⟨hzero, hunique, hearly, hlost, hregistered, hsafe, hresolved⟩ :=
    hv
  simp only [Phase.Inside] at hunique
  simp only [Phase.Early] at hearly
  cases hs with
  | stay =>
      exact ⟨hzero, hunique, hearly, hlost, hregistered, hsafe, hresolved⟩
  | enter h =>
      -- the first publication: nobody was near the id before
      obtain ⟨hnin, hout⟩ := hzero (by simp at hcount; omega)
      constructor <;>
        simp only [PubView.to, Function.update_apply, Phase.Inside,
          Phase.Early] <;> grind
  | bounce =>
      exact ⟨fun h => absurd h (Nat.succ_ne_zero _), hunique, hearly, hlost,
        hregistered, hsafe, hresolved⟩
  | failAll hf =>
      -- a call in flight was registered, so it is now this thread's work
      have hwork : v.inFlight → (v.work t v.active).pending t := by
        intro hin
        have hactive := (hsafe hin).resolve_left hf
        simpa [PubView.work] using hactive
      constructor <;>
        simp only [PubView.work, Phase.Inside, Phase.Early] at * <;> grind
  | register h hf | refuse h hf | publish h | miss h | keep h hf | recheck q hq h hf | winUnpublished h | fallBack h | giveUp h | leave h
  | unregister p q hq h hp | erase b q hq h hn =>
      constructor <;>
        simp only [PubView.to, Function.update_apply, Phase.Inside,
          Phase.Early] <;> grind
  | win b q h hin =>
      constructor <;>
        simp only [PubView.to, PubView.work, Function.update_apply,
          Phase.Inside, Phase.Early] <;> grind
  | work q h =>
      constructor <;>
        simp only [PubView.work, Function.update_apply, Phase.Inside,
          Phase.Early] <;> grind

end AntRpc.Slot
