/-
Which contexts a run of ties reaches.

# Steps

On a tie the first candidate is taken, so a run of ties walks through the
contexts in steps of what a call adds to the counter. A step that has no
divisor in common with the number of contexts reaches them all in as many
calls (`exists_step`). The counter may wrap in the run, once at most; then
the calls before or the calls after are enough.

# Two at a time

`GetBalancedIOContext` walks in steps of two. With an even number of
contexts the parity of the counter never changes, and half of the contexts
are left out (`balanced_covers_iff`).
-/
import AntRpc.Scheduler.Placement

namespace AntRpc.Scheduler.Placement

variable {contexts : Contexts}

-- == walks

/-- A step prime to the size reaches every remainder. -/
theorem exists_step {n d : Nat} (hn : 0 < n) (hd : d.Coprime n)
    (start : Nat) {c : Nat} (hc : c < n) :
    ∃ j < n, (start + d * j) % n = c := by
  have : NeZero n := ⟨Nat.ne_of_gt hn⟩
  let u := ZMod.unitOfCoprime d hd
  let x : ZMod n := (c - start) * (u⁻¹ : (ZMod n)ˣ)
  refine ⟨x.val, ZMod.val_lt x, ?_⟩
  have hu : (d : ZMod n) = (u : ZMod n) := rfl
  have hx : ((start + d * x.val : Nat) : ZMod n) = (c : Nat) := by
    rw [Nat.cast_add, Nat.cast_mul, ZMod.natCast_zmod_val, hu]
    show (start : ZMod n) + u * ((c - start) * (u⁻¹ : (ZMod n)ˣ)) = c
    rw [mul_comm ((c : ZMod n) - start), Units.mul_inv_cancel_left]
    ring
  rw [ZMod.natCast_eq_natCast_iff'] at hx
  rw [hx, Nat.mod_eq_of_lt hc]

/-- The counter after some calls. -/
def counterAt (d : Nat) (next : UInt64) (k : Nat) : Nat :=
  (next.toNat + d * k) % 2 ^ 64

/-- With the counter wrapping on the way, twice as many calls are enough. -/
theorem exists_placement {d : Nat} (hstep : d = 1 ∨ d = 2)
    (hd : d.Coprime contexts.size) (next : UInt64) {c : Nat}
    (hc : c < contexts.size) :
    ∃ k < 2 * contexts.size, counterAt d next k % contexts.size = c := by
  have hnext := next.toNat_lt
  have hfew := contexts.few
  by_cases hwrap : next.toNat + d * contexts.size ≤ 2 ^ 64
  · obtain ⟨j, hj, hat⟩ := exists_step contexts.pos hd next.toNat hc
    refine ⟨j, by omega, ?_⟩
    have hsmall : next.toNat + d * j < 2 ^ 64 := by
      rcases hstep with rfl | rfl <;> omega
    rw [counterAt, Nat.mod_eq_of_lt hsmall, hat]
  · -- the calls from the first one after the wrap on
    obtain ⟨k, hk, hle, hlt⟩ : ∃ k ≤ contexts.size,
        2 ^ 64 ≤ next.toNat + d * k ∧ next.toNat + d * k < 2 ^ 64 + d := by
      rcases hstep with rfl | rfl
      · exact ⟨2 ^ 64 - next.toNat, by omega, by omega, by omega⟩
      · exact ⟨(2 ^ 64 - next.toNat + 1) / 2, by omega, by omega, by omega⟩
    obtain ⟨j, hj, hat⟩ :=
      exists_step contexts.pos hd (next.toNat + d * k - 2 ^ 64) hc
    refine ⟨k + j, by omega, ?_⟩
    have hcounter : counterAt d next (k + j)
        = next.toNat + d * k - 2 ^ 64 + d * j := by
      unfold counterAt
      rcases hstep with rfl | rfl <;> omega
    rw [hcounter, hat]

-- == runs

/-- All contexts report the same. -/
def Level (contexts : Contexts) (pending : Nat → Nat) : Prop :=
  ∀ i < contexts.size, ∀ j < contexts.size, pending i = pending j

theorem Contexts.at_lt (counter : UInt64) :
    contexts.at counter < contexts.size :=
  Nat.mod_lt _ contexts.pos

theorem better_level {pending : Nat → Nat} (h : Level contexts pending)
    {first second : Nat} (hfirst : first < contexts.size)
    (hsecond : second < contexts.size) : better pending first second = first :=
  if_pos (Nat.le_of_eq (h first hfirst second hsecond))

/-- A routine that, on a tie, takes the counter's context and adds `d`. -/
def Steps (contexts : Contexts) (d : UInt64)
    (place : (Nat → Nat) → UInt64 → Nat × UInt64) : Prop :=
  ∀ pending next, Level contexts pending →
    place pending next = (contexts.at next, next + d)

theorem steps_balanced : Steps contexts 2 (getBalancedIOContext contexts) := by
  intro pending next h
  dsimp only [getBalancedIOContext]
  rw [better_level h (Contexts.at_lt _) (Contexts.at_lt _), add_assoc]
  rfl

theorem steps_dispatch :
    Steps contexts 1 (dispatchAcceptedSocket contexts) := by
  intro pending next h
  dsimp only [dispatchAcceptedSocket]
  rw [better_level h (Contexts.at_lt _) (Nat.mod_lt _ contexts.pos)]

/-- A run of ties. -/
theorem placements_level {d : UInt64}
    {place : (Nat → Nat) → UInt64 → Nat × UInt64}
    (hplace : Steps contexts d place) {calls : List (Nat → Nat)}
    (hlevel : ∀ pending ∈ calls, Level contexts pending) (next : UInt64) :
    placements place calls next
      = (List.range calls.length).map
        fun k => counterAt d.toNat next k % contexts.size := by
  induction calls generalizing next with
  | nil => rfl
  | cons pending calls ih =>
      obtain ⟨hpending, hcalls⟩ := List.forall_mem_cons.mp hlevel
      rw [placements, hplace pending next hpending]
      dsimp only
      rw [ih hcalls, List.length_cons, List.range_succ_eq_map, List.map_cons,
        List.map_map]
      congr 1
      · unfold counterAt Contexts.at
        rw [Nat.mul_zero, Nat.add_zero, Nat.mod_eq_of_lt next.toNat_lt]
      · refine List.map_congr_left fun k _ => ?_
        show counterAt d.toNat (next + d) k % contexts.size
          = counterAt d.toNat next (k + 1) % contexts.size
        have hcounter : counterAt d.toNat (next + d) k
            = counterAt d.toNat next (k + 1) := by
          unfold counterAt
          rw [UInt64.toNat_add, Nat.mod_add_mod, Nat.mul_add, Nat.mul_one]
          congr 1
          omega
        rw [hcounter]

theorem covers {d : UInt64} {place : (Nat → Nat) → UInt64 → Nat × UInt64}
    (hplace : Steps contexts d place) (hstep : d.toNat = 1 ∨ d.toNat = 2)
    (hd : d.toNat.Coprime contexts.size) {calls : List (Nat → Nat)}
    (hlevel : ∀ pending ∈ calls, Level contexts pending)
    (hcalls : calls.length = 2 * contexts.size) (next : UInt64) {c : Nat}
    (hc : c < contexts.size) : c ∈ placements place calls next := by
  obtain ⟨k, hk, hat⟩ := exists_placement hstep hd next hc
  rw [placements_level hplace hlevel, hcalls]
  exact List.mem_map.mpr ⟨k, List.mem_range.mpr hk, hat⟩

/-- In steps of two the parity of the counter stays. -/
theorem counterAt_two_parity (next : UInt64) (k : Nat) :
    counterAt 2 next k % 2 = next.toNat % 2 := by
  unfold counterAt
  omega

/-- In a run of ties `DispatchAcceptedSocket` reaches every context in
twice as many calls; `GetBalancedIOContext` does so if and only if the
number of contexts is odd. -/
theorem balanced_covers_iff (calls : List (Nat → Nat))
    (hlevel : ∀ pending ∈ calls, Level contexts pending)
    (hcalls : calls.length = 2 * contexts.size) (next : UInt64) :
    (∀ c < contexts.size,
        c ∈ placements (dispatchAcceptedSocket contexts) calls next)
      ∧ ((∀ c < contexts.size,
          c ∈ placements (getBalancedIOContext contexts) calls next)
        ↔ contexts.size % 2 = 1) := by
  refine ⟨fun c hc => covers steps_dispatch (Or.inl rfl)
    (Nat.coprime_one_left _) hlevel hcalls next hc, fun hall => ?_,
    fun hodd c hc => ?_⟩
  · -- a context of the other parity is not there
    by_contra heven
    have hsize := contexts.pos
    have hother : (next.toNat + 1) % 2 < contexts.size := by omega
    have hmem := hall _ hother
    rw [placements_level steps_balanced hlevel] at hmem
    obtain ⟨k, -, hat⟩ := List.mem_map.mp hmem
    have hparity := counterAt_two_parity next k
    have hat : counterAt 2 next k % contexts.size
        = (next.toNat + 1) % 2 := hat
    have hdvd : 2 ∣ contexts.size := Nat.dvd_of_mod_eq_zero (by omega)
    rw [← Nat.mod_mod_of_dvd _ hdvd, hat] at hparity
    omega
  · have hcoprime : Nat.Coprime 2 contexts.size :=
      (Nat.coprime_two_left).mpr (Nat.odd_iff.mpr hodd)
    exact covers steps_balanced (Or.inr rfl) hcoprime hlevel hcalls next hc

/-- Three contexts that all report nothing. -/
theorem three_covered :
    (∀ c < 3, c ∈ placements (dispatchAcceptedSocket ⟨3, by decide, by decide⟩)
        (List.replicate 6 fun _ => 0) 5)
      ∧ ((∀ c < 3, c ∈ placements
          (getBalancedIOContext ⟨3, by decide, by decide⟩)
          (List.replicate 6 fun _ => 0) 5) ↔ 3 % 2 = 1) :=
  @balanced_covers_iff ⟨3, by decide, by decide⟩
    (List.replicate 6 fun _ => 0)
    (fun pending hpending i _ j _ => by
      rw [List.eq_of_mem_replicate hpending]) rfl 5

/-- With two contexts, one is never chosen. -/
theorem two_starved :
    1 ∉ placements (getBalancedIOContext { size := 2 })
      (List.replicate 4 fun _ => 0) 0 := by
  decide

end AntRpc.Scheduler.Placement
