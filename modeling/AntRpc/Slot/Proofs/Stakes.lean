/-
What one call has at stake in the table: nothing yet, an allocation that
is the sender's own until it is published (`Owns`), one that the table
finishes by itself (`Handed`), or one that will never be finished
(`Dead`).

# Handing over

A sender's allocation is published, delivered or discarded by the sender
alone, because the word is moved out of the unpublished states only by
`PublishSlot` and `DiscardArmingSlot` (`WordStep`) and nobody else is in
these for the same cell. Once published it is finished by whoever wins
it, and never discarded.
-/
import AntRpc.Slot.Proofs.Client

namespace AntRpc.Slot

variable {τ : Type}

-- == stakes

/-- Allocation `g` of cell `i` was made for task `k`. -/
structure Held (v : Cells τ) (k : Nat) (i : UInt32) (g : Nat) : Prop where
  pos : 0 < g
  le : g ≤ (v i).life.gen
  task : ((v i).life.argsOf g).task = some k

/-- It is the only allocation made for task `k`. -/
def Sole (v : Cells τ) (k : Nat) (i : UInt32) (g : Nat) : Prop :=
  ∀ j h, Held v k j h ↔ j = i ∧ h = g

/-- The call's only allocation is the current one of the cell `c` names,
has `c`'s version and is not published. -/
structure Owns (v : Cells τ) (k : Nat) (c : UInt64) : Prop where
  sole : Sole v k (getSlotId c) (v (getSlotId c)).life.gen
  word : (v (getSlotId c)).word.state.Unpublished
  version : (v (getSlotId c)).word.version = getVersion c

/-- The allocation was won by a thread that finishes the call. -/
def Fate.Taken : Fate τ → Prop
  | .holding _ _ | .released _ | .dispatched => True
  | .fresh | .allocating _ | .live | .discarded => False

/-- The call's only allocation is in flight or was won. -/
def Handed (v : Cells τ) (k : Nat) : Prop :=
  ∃ i g, Sole v k i g ∧ (g = (v i).life.gen ∧ (v i).word.state = .inFlight
    ∨ ((v i).life.fate g).Taken)

/-- The table will never finish the call: its allocations are discarded
or stay unpublished. -/
def Dead (v : Cells τ) (k : Nat) : Prop :=
  ∀ i g, Held v k i g → (v i).life.fate g = .discarded
    ∨ g = (v i).life.gen ∧ (v i).word.state.Unpublished

/-- The call has no allocation. -/
def Fresh (v : Cells τ) (k : Nat) : Prop := ∀ i g, ¬ Held v k i g

section Stakes

variable {v : Cells τ} {k : Nat} {c : UInt64}

theorem Sole.held {i : UInt32} {g : Nat} (h : Sole v k i g) : Held v k i g :=
  (h i g).mpr ⟨rfl, rfl⟩

theorem Held.task_unique {k' : Nat} {i : UInt32} {g : Nat}
    (h : Held v k i g) (h' : Held v k' i g) : k = k' :=
  Option.some.inj (h.task.symm.trans h'.task)

theorem Fresh.dead (h : Fresh v k) : Dead v k :=
  fun i g hheld => absurd hheld (h i g)

theorem Owns.dead (h : Owns v k c) : Dead v k := by
  intro i g hheld
  obtain ⟨rfl, rfl⟩ := (h.sole i g).mp hheld
  exact Or.inr ⟨rfl, h.word⟩

theorem Owns.pos (h : Owns v k c) : 0 < (v (getSlotId c)).life.gen :=
  h.sole.held.pos

end Stakes

-- == cells

/-- A word that stops being live was won. -/
theorem CellStep.seized {t : τ} {v v' : CellView τ} (hs : CellStep t v v')
    (hv : CellInv v) (hl : v.word.state.Live) (hn : ¬ v'.word.state.Live) :
    v'.life.fate v.life.gen = .holding t false := by
  have hnow := hv.live_of_state hl
  have hne : ∀ f : Fate τ, v.life.now = f → f = .live :=
    fun f hf => hf.symm.trans hnow
  cases hs with
  | stay | pop | clear | dispatch => exact absurd hl hn
  | shift st _ hst => exact absurd hst hn
  | seize st _ _ => exact CellLife.setFate_now ..
  | write h | arm h | record h | storeFree b h | release h | discard h =>
      exact absurd (hne _ h) nofun

/-- A won allocation is finished, unless it is discarded. -/
theorem CellStep.taken {t : τ} {v v' : CellView τ} {g : Nat}
    (hs : CellStep t v v') (hv : CellInv v)
    (hg : (v.life.fate g).Taken) :
    (v'.life.fate g).Taken
      ∨ (v.life.fate g ≠ .discarded ∧ v'.life.fate g = .discarded) := by
  have hnd : v.life.fate g ≠ .discarded := by
    intro hd
    rw [hd] at hg
    exact hg
  -- a page of the current allocation is turned
  have hpage : ∀ f f' : Fate τ, v.life.now = f → (f.Taken → f'.Taken) →
      ((v.life.setFate v.life.gen f').fate g).Taken := by
    intro f f' hf himp
    rw [CellLife.setFate_fate]
    split
    · next heq =>
      rw [heq] at hg
      exact himp (hf ▸ hg)
    · exact hg
  cases hs with
  | stay | write h | shift st h hst | clear b h | storeFree b h =>
      exact Or.inl hg
  | pop args h =>
      have hle : ¬ v.life.gen < g := by
        intro hlt
        rw [hv.newer g hlt] at hg
        exact hg
      rw [CellLife.pop_fate, if_neg (by omega)]
      exact Or.inl hg
  | arm h hf => exact Or.inl (hpage _ _ h False.elim)
  | seize st h hst | record h | release h hw =>
      exact Or.inl (hpage _ _ rfl fun _ => trivial)
  | discard h hw =>
      rw [CellLife.setFate_fate]
      split
      · exact Or.inr ⟨hnd, rfl⟩
      · exact Or.inl hg
  | dispatch g' n hn h =>
      rw [CellLife.setFate_fate]
      split
      · exact Or.inl trivial
      · exact Or.inl hg

-- == frame

/-- The step is `PublishSlot` or `DiscardArmingSlot` of an unpublished
cell `i`. -/
def Pc.Sends (pc : Pc) (i : UInt32) : Prop :=
  ∃ c, getSlotId c = i
    ∧ ((∃ p, pc = .publish c p ∧ p.published = false) ∨ pc = .discard c)

/-- The step allocates for task `k`. -/
def Pc.AllocatesFor (pc : Pc) (k : Nat) : Prop :=
  ∃ args, pc = .alloc args .popFreeSlot ∧ args.task = some k

/-- The step has nothing to do with what task `k` has at stake. -/
structure Pc.Foreign (pc : Pc) (v : Cells τ) (k : Nat) : Prop where
  allocates : ¬ pc.AllocatesFor k
  sends : ∀ i, Held v k i (v i).life.gen → ¬ pc.Sends i
  discards : ∀ w, pc = .hold w (.pushFreeSlot none) →
    ¬ Held v k (getSlotId w.cid) (v (getSlotId w.cid)).life.gen

/-- Resolving and attaching are never about a stake. -/
theorem Pc.foreign_of_job {v : Cells τ} {k : Nat} {pc : Pc}
    (hjob : pc.job = .resolve ∨ ∃ c, pc.job = .attach c)
    (hshape : (Thread.running pc).Shaped) : pc.Foreign v k where
  allocates := by
    rintro ⟨args, rfl, -⟩
    rcases hjob with h | ⟨c, h⟩ <;> cases h
  sends := by
    rintro i - ⟨c, -, ⟨p, rfl, -⟩ | rfl⟩ <;>
      rcases hjob with h | ⟨c', h⟩ <;> cases h
  discards := by
    rintro ⟨c, g, after⟩ rfl -
    have hafter : after = .discard := hshape.mp rfl
    subst hafter
    rcases hjob with h | ⟨c', h⟩ <;> cases h

variable [DecidableEq τ]

section Steps

variable {cfg cfg' : TableConfig} {s s' : State τ} {t : τ} {pc : Pc}
  {k : Nat} {c : UInt64} (hi : Inv cfg' s)
  (hok : ThreadOk s.view t (.running pc)) (hs : exec cfg t pc s = some s')

include hi hok hs

/-- A step that does not allocate for a task leaves it its allocations. -/
theorem held_exec (hnew : ¬ pc.AllocatesFor k) (i : UInt32) (g : Nat) :
    Held s'.view k i g ↔ Held s.view k i g := by
  have hsim := (effect_exec hi hok hs).sim i
  constructor
  · rintro ⟨hpos, hle, htask⟩
    by_cases hgen : (s'.lives i).gen = (s.lives i).gen
    · have hle' : g ≤ (s.lives i).gen := hgen ▸ hle
      exact ⟨hpos, hle', (hsim.argsOf_eq hle') ▸ htask⟩
    · obtain ⟨args, hpc, hpop⟩ := (exec_lives hs).pop_of_gen hgen
      have hlife : (s'.view i).life = (s.lives i).pop t args := hpop
      rw [hlife] at hle htask
      rw [CellLife.pop_argsOf] at htask
      split at htask
      · exact absurd ⟨args, hpc, htask⟩ hnew
      · next hne =>
        refine ⟨hpos, ?_, htask⟩
        show g ≤ (s.lives i).gen
        simp only [CellLife.pop_gen] at hle
        omega
  · rintro ⟨hpos, hle, htask⟩
    refine ⟨hpos, hle.trans hsim.gen_le, ?_⟩
    rw [hsim.argsOf_eq hle]
    exact htask

theorem sole_exec (hnew : ¬ pc.AllocatesFor k) {i : UInt32} {g : Nat}
    (h : Sole s.view k i g) : Sole s'.view k i g :=
  fun j g' => (held_exec hi hok hs hnew j g').trans (h j g')

theorem fresh_exec (hnew : ¬ pc.AllocatesFor k) (h : Fresh s.view k) :
    Fresh s'.view k :=
  fun i g hheld => h i g ((held_exec hi hok hs hnew i g).mp hheld)

/-- An unpublished word stays unpublished for everybody but its sender,
and if it already waits for its sender it does not change at all. -/
theorem unpublished_exec {i : UInt32}
    (hword : (s.word i).state.Unpublished) (hsend : ¬ pc.Sends i) :
    (s'.word i).state.Unpublished
      ∧ (s'.word i).version = (s.word i).version
      ∧ (s'.lives i).gen = (s.lives i).gen
      ∧ ((s.word i).state ≠ .arming → s'.word i = s.word i) := by
  have hof := ((effect_exec hi hok hs).sim i).of_live (hi.cells i) hword.live
  have hgen : (s'.lives i).gen = (s.lives i).gen := hof.1
  have hversion : (s'.word i).version = (s.word i).version := hof.2.2
  suffices h : (s'.word i).state.Unpublished
      ∧ ((s.word i).state ≠ .arming → s'.word i = s.word i) from
    ⟨h.1, hversion, hgen, h.2⟩
  generalize hw : s.word i = w at hword
  generalize hw' : s'.word i = w'
  have hstep := exec_word hi hok hs (i := i) (hw ▸ hword.live)
  rw [hw, hw'] at hstep
  cases hstep with
  | same => exact ⟨hword, fun _ => rfl⟩
  | publish c' hpc hi' hw => exact (hsend ⟨c', hi', .inl ⟨_, hpc, rfl⟩⟩).elim
  | defer c' r st hpc hi' hw hst =>
      refine ⟨Or.inr hst, fun hne => ?_⟩
      rw [hw] at hne
      exact absurd rfl hne
  | take c' st hpc hi' hw hst =>
      rw [hw] at hword
      rcases hword with h | h | h <;> cases h
  | deliver c' p st hpc hp hi' hw hst =>
      exact (hsend ⟨c', hi', .inl ⟨p, hpc, hp⟩⟩).elim
  | discard c' st hpc hi' hw hst =>
      exact (hsend ⟨c', hi', .inr hpc⟩).elim

/-- What a sender owns stays its own while others step. -/
theorem Owns.frame (h : Owns s.view k c) (hf : pc.Foreign s.view k) :
    Owns s'.view k c := by
  obtain ⟨hword, hversion, hgen, -⟩ :=
    unpublished_exec hi hok hs h.word (hf.sends _ h.sole.held)
  refine ⟨?_, hword, hversion.trans h.version⟩
  show Sole s'.view k _ (s'.lives _).gen
  rw [hgen]
  exact sole_exec hi hok hs hf.allocates h.sole

/-- What is dead stays dead. -/
theorem Dead.frame (h : Dead s.view k) (hf : pc.Foreign s.view k) :
    Dead s'.view k := by
  intro i g hheld
  have hold := (held_exec hi hok hs hf.allocates i g).mp hheld
  rcases h i g hold with hd | ⟨rfl, hword⟩
  · exact Or.inl
      (((effect_exec hi hok hs).sim i).discarded (hi.cells i) hd)
  · obtain ⟨hword', -, hgen, -⟩ :=
      unpublished_exec hi hok hs hword (hf.sends i hold)
    exact Or.inr ⟨hgen.symm, hword'⟩

/-- A word in flight stays in flight until it is won. -/
theorem inFlight_exec {i : UInt32} (hword : (s.word i).state = .inFlight) :
    (s'.lives i).gen = (s.lives i).gen ∧ (s'.word i).state = .inFlight
      ∨ ((s'.lives i).fate (s.lives i).gen).Taken := by
  have hlive : (s.word i).state.Live := by
    rw [hword]
    decide
  have hsim := (effect_exec hi hok hs).sim i
  have hgen : (s'.lives i).gen = (s.lives i).gen :=
    (hsim.of_live (hi.cells i) hlive).1
  have hwon : ¬ (s'.word i).state.Live →
      ((s'.lives i).fate (s.lives i).gen).Taken := by
    intro hn
    have hfate : (s'.lives i).fate (s.lives i).gen = .holding t false :=
      hsim.seized (hi.cells i) hlive hn
    rw [hfate]
    trivial
  have hstep := exec_word hi hok hs hlive
  generalize hw : s.word i = w at hstep hword
  generalize hw' : s'.word i = w' at hstep hwon
  have harming : w.state ≠ .arming := by
    rw [hword]
    decide
  cases hstep with
  | same => exact Or.inl ⟨hgen, hword⟩
  | publish c' hpc hi' hw => exact absurd (congrArg Lifecycle.state hw) harming
  | defer c' r st hpc hi' hw hst =>
      exact absurd (congrArg Lifecycle.state hw) harming
  | take c' st hpc hi' hw hst => exact Or.inr (hwon hst)
  | deliver c' p st hpc hp hi' hw hst => exact Or.inr (hwon hst)
  | discard c' st hpc hi' hw hst => exact Or.inr (hwon hst)

/-- What is handed over stays with the table. -/
theorem Handed.frame (h : Handed s.view k) (hnew : ¬ pc.AllocatesFor k)
    (hdiscard : ∀ w, pc = .hold w (.pushFreeSlot none) →
      ¬ Held s.view k (getSlotId w.cid)
        (s.view (getSlotId w.cid)).life.gen) : Handed s'.view k := by
  obtain ⟨i, g, hsole, hstage⟩ := h
  refine ⟨i, g, sole_exec hi hok hs hnew hsole, ?_⟩
  rcases hstage with ⟨rfl, hword⟩ | htaken
  · rcases inFlight_exec hi hok hs hword with ⟨hgen, hw⟩ | htaken
    · exact Or.inl ⟨hgen.symm, hw⟩
    · exact Or.inr htaken
  · rcases ((effect_exec hi hok hs).sim i).taken (hi.cells i) htaken with
      h | ⟨hn, hd⟩
    · exact Or.inr h
    · obtain ⟨w, hpc, rfl, rfl⟩ := (exec_lives hs).discards hn hd
      exact absurd hsole.held (hdiscard w hpc)

/-- An unpublished word that stops being live was won by its sender. -/
theorem owns_won (h : Owns s.view k c) (hnew : ¬ pc.AllocatesFor k)
    (hn : ¬ (s'.word (getSlotId c)).state.Live) : Handed s'.view k := by
  refine ⟨_, _, sole_exec hi hok hs hnew h.sole, Or.inr ?_⟩
  have hfate := ((effect_exec hi hok hs).sim (getSlotId c)).seized
    (hi.cells _) h.word.live hn
  rw [hfate]
  trivial

omit hi hok in
/-- Only `PopFreeSlot` adds an allocation. -/
theorem gen_exec (hne : ∀ args, pc ≠ .alloc args .popFreeSlot)
    (i : UInt32) : (s'.view i).life.gen = (s.view i).life.gen := by
  by_contra hgen
  obtain ⟨args, hpc, -⟩ := (exec_lives hs).pop_of_gen (i := i) hgen
  exact hne args hpc

/-- A cell somebody else holds gets no new allocation. -/
theorem sole_held {u : τ} {i : UInt32} (hu : u ≠ t)
    (hheld : (s.view i).HeldBy u) (hnew : ¬ pc.AllocatesFor k)
    (h : Sole s.view k i (s.view i).life.gen) :
    Sole s'.view k i (s'.view i).life.gen := by
  have hsame := ((effect_exec hi hok hs).sim i).frame (hi.cells i) hu hheld
  rw [hsame.gen]
  exact sole_exec hi hok hs hnew h

end Steps

-- == allocating

/-- What `AllocateSlot` has for task `k`. -/
def AllocPc.Stake (v : Cells τ) (k : Nat) : AllocPc → Prop
  | .loadActive _ | .casActive _ _ | .popFreeSlot | .undoActive => Fresh v k
  | .loadVersion i | .storeFields i _ | .resetTimer i _
  | .storeArming i _ => Sole v k i (v i).life.gen
  | .addInFlight i version => Owns v k (makeCorrelationId version i)

/-- What a thread in `AllocateSlot` has for task `k`. An allocation whose
id is 0 looks like none. -/
def AllocStake (v : Cells τ) (k : Nat) : Thread → Prop
  | .running (.alloc args p) => args.task = some k ∧ p.Stake v k
  | .returned (.allocated _ c) =>
      (c = 0 → Dead v k) ∧ (c ≠ 0 → Owns v k c)
  | _ => False

section Allocating

variable {cfg cfg' : TableConfig} {s s' : State τ} {t u : τ} {pc : Pc}
  {k : Nat}

theorem sole_pop {args : CallArgs}
    (hs : exec cfg t (.alloc args .popFreeSlot) s = some s')
    (hhead : s.table.freeHead ≠ invalidSlot) (htask : args.task = some k)
    (hfresh : Fresh s.view k) :
    Sole s'.view k s.table.freeHead
      (s'.view s.table.freeHead).life.gen := by
  have hlife : ∀ i, (s'.view i).life
      = if i = s.table.freeHead then (s.lives i).pop t args
        else (s.view i).life := by
    intro i
    cases hs
    simp only [execAlloc, if_neg hhead, view_goto, view_setLife]
    split
    · next h => rw [h]
    · rfl
  have hgen : (s'.view s.table.freeHead).life.gen
      = (s.lives s.table.freeHead).gen + 1 := by
    rw [hlife, if_pos rfl, CellLife.pop_gen]
  rw [hgen]
  intro j g
  constructor
  · rintro ⟨hpos, hle, ht⟩
    rw [hlife j] at hle ht
    split at ht
    · next hj =>
      subst hj
      rw [if_pos rfl, CellLife.pop_gen] at hle
      rw [CellLife.pop_argsOf] at ht
      split at ht
      · next hg => exact ⟨rfl, hg⟩
      · next hg =>
        refine absurd ⟨hpos, ?_, ht⟩ (hfresh s.table.freeHead g)
        show g ≤ (s.lives s.table.freeHead).gen
        omega
    · next hj =>
      rw [if_neg hj] at hle
      exact absurd ⟨hpos, hle, ht⟩ (hfresh j g)
  · rintro ⟨rfl, rfl⟩
    refine ⟨Nat.succ_pos _, Nat.le_of_eq hgen.symm, ?_⟩
    rw [hlife, if_pos rfl, CellLife.pop_argsOf, if_pos rfl]
    exact htask

/-- The sender's own step in `AllocateSlot`. -/
theorem AllocStake.step {args : CallArgs} {p : AllocPc} (hi : Inv cfg' s)
    (hok : ThreadOk s.view t (.running (.alloc args p)))
    (hs : exec cfg t (.alloc args p) s = some s')
    (h : AllocStake s.view k (.running (.alloc args p))) :
    AllocStake s'.view k (s'.threads t) := by
  obtain ⟨htask, hstake⟩ := h
  -- every point but one leaves the task its allocations
  have hnot : p ≠ .popFreeSlot → ¬ (Pc.alloc args p).AllocatesFor k := by
    rintro hp ⟨args', heq, -⟩
    cases heq
    exact hp rfl
  have hsole : ∀ i, p ≠ .popFreeSlot →
      Sole s.view k i (s.view i).life.gen →
      Sole s'.view k i (s'.view i).life.gen := by
    intro i hp h
    rw [gen_exec hs (fun args' heq => hp (by cases heq; rfl)) i]
    exact sole_exec hi hok hs (hnot hp) h
  have hfresh : p ≠ .popFreeSlot → Fresh s.view k → Fresh s'.view k :=
    fun hp => fresh_exec hi hok hs (hnot hp)
  cases p with
  | loadActive limit =>
      have hf := hfresh (by rintro ⟨⟩) hstake
      cases hs
      simp only [execAlloc, goto_thread]
      exact ⟨htask, hf⟩
  | casActive limit current =>
      have hf := hfresh (by rintro ⟨⟩) hstake
      cases hs
      simp only [execAlloc] at hf ⊢
      split_ifs at hf ⊢
      · rw [goto_thread]
        exact ⟨htask, hf⟩
      · rw [goto_thread]
        exact ⟨htask, hf⟩
      · rw [ret_thread]
        exact ⟨fun _ => hf.dead, absurd rfl⟩
  | popFreeSlot =>
      by_cases hhead : s.table.freeHead = invalidSlot
      · cases hs
        simp only [execAlloc, if_pos hhead, goto_thread]
        exact ⟨htask, hstake⟩
      · have hs' := sole_pop hs hhead htask hstake
        cases hs
        simp only [execAlloc, if_neg hhead, goto_thread] at hs' ⊢
        exact ⟨htask, hs'⟩
  | undoActive =>
      have hf := hfresh (by rintro ⟨⟩) hstake
      cases hs
      simp only [execAlloc, ret_thread]
      exact ⟨fun _ => hf.dead, absurd rfl⟩
  | loadVersion i | storeFields i version | resetTimer i version =>
      have hs' := hsole i (by rintro ⟨⟩) hstake
      cases hs
      simp only [execAlloc, goto_thread]
      exact ⟨htask, hs'⟩
  | storeArming i version =>
      have hs' := hsole i (by rintro ⟨⟩) hstake
      have hword : (s'.view i).word = ⟨version, .arming⟩ := by
        cases hs
        exact word_storeLifecycle ⟨version, .arming⟩
      have howns : Owns s'.view k (makeCorrelationId version i) := by
        refine ⟨?_, ?_, ?_⟩ <;> rw [getSlotId_make]
        · exact hs'
        · rw [hword]
          exact Or.inl rfl
        · rw [hword, getVersion_make]
      cases hs
      simp only [execAlloc, goto_thread]
      exact ⟨htask, howns⟩
  | addInFlight i version =>
      have howns : Owns s'.view k (makeCorrelationId version i) := by
        cases hs
        exact hstake
      cases hs
      simp only [execAlloc, ret_thread]
      exact ⟨fun _ => howns.dead, fun _ => howns⟩

/-- Another thread's step. -/
theorem AllocStake.frame {th : Thread} (hi : Inv cfg' s)
    (hok : ThreadOk s.view t (.running pc)) (hs : exec cfg t pc s = some s')
    (hu : u ≠ t) (hth : ThreadOk s.view u th) (hf : pc.Foreign s.view k)
    (h : AllocStake s.view k th) : AllocStake s'.view k th := by
  have htakes : ∀ i args, Takes s.view u i args →
      Sole s.view k i (s.view i).life.gen →
      Sole s'.view k i (s'.view i).life.gen :=
    fun i args htake => sole_held hi hok hs hu (Or.inl htake.now)
      hf.allocates
  cases th with
  | idle => exact h.elim
  | running q =>
      cases q with
      | alloc args p =>
          obtain ⟨htask, hstake⟩ := h
          refine ⟨htask, ?_⟩
          cases p with
          | loadActive | casActive | popFreeSlot | undoActive =>
              exact fresh_exec hi hok hs hf.allocates hstake
          | loadVersion i => exact htakes i args hth hstake
          | storeFields i version | resetTimer i version
          | storeArming i version =>
              exact htakes i args hth.1 hstake
          | addInFlight i version => exact Owns.frame hi hok hs hstake hf
      | _ => exact h.elim
  | returned r =>
      cases r with
      | allocated args c =>
          exact ⟨fun hc => (h.1 hc).frame hi hok hs hf,
            fun hc => (h.2 hc).frame hi hok hs hf⟩
      | _ => exact h.elim

end Allocating

-- == publishing

/-- What `PublishSlot` has for task `k`. A word it found waiting for it
is still there. -/
def PublishPc.Stake (v : Cells τ) (k : Nat) (c : UInt64) :
    PublishPc → Prop
  | .registerPublishedSlot | .failArming _ _ | .publish => Owns v k c
  | .unregisterPublishedSlot w =>
      Owns v k c ∧ (v (getSlotId c)).word = w ∧ w.state ≠ .arming
  | .deliverPending st _ =>
      Owns v k c ∧ (v (getSlotId c)).word.state = st ∧ st ≠ .arming
  | .takeConnectionFailure | .failInFlight _ _ => Handed v k

/-- What a thread in `PublishSlot` has for task `k`. -/
def PublishStake (v : Cells τ) (k : Nat) (c : UInt64) : Thread → Prop
  | .running (.publish _ p) => p.Stake v k c
  | .running (.hold w _) | .running (.dispatch w _) =>
      Handed v k ∧ w.after ≠ .publish .invalid
  | .returned (.published _ outcome) => Handed v k ∧ outcome ≠ .invalid
  | _ => False

section Publishing

variable {cfg cfg' : TableConfig} {s s' : State τ} {t u : τ} {pc : Pc}
  {k : Nat} {c : UInt64}

theorem pendingOutcome_ne_invalid (r : SlotResolution) :
    pendingOutcome r ≠ .invalid := by
  unfold pendingOutcome
  split <;> decide

/-- A word that waits for its sender is delivered. -/
theorem publishLost_stake {s₁ : State τ} (h : Owns s.view k c)
    (hne : (s.word (getSlotId c)).state ≠ .arming) :
    PublishStake s.view k c
      ((publishLost t c (s.word (getSlotId c)) s₁).threads t) := by
  have hversion : (s.word (getSlotId c)).version = getVersion c := h.version
  unfold publishLost
  rw [if_pos hversion]
  have hword : (s.word (getSlotId c)).state.Unpublished := h.word
  rcases hword with hst | hst | hst
  · exact absurd hst hne
  · rw [hst]
    simp only [pendingResolution, goto_thread]
    exact ⟨h, hst, by decide⟩
  · rw [hst]
    simp only [pendingResolution, goto_thread]
    exact ⟨h, hst, by decide⟩

theorem publishLost_view (w : Lifecycle) :
    (publishLost t c w s).view = s.view := by
  unfold publishLost
  split
  · split <;> rfl
  · rfl

/-- The word a won cell is left with. -/
theorem win_word {after : After} {p : HoldPc} {st : SlotState} :
    ((s.storeLifecycle (getSlotId c) ⟨getVersion c, st⟩).win t c after
      p).word (getSlotId c) = ⟨getVersion c, st⟩ :=
  word_storeLifecycle ⟨getVersion c, st⟩

/-- The sender's own step in `PublishSlot`, before a compare-and-swap
makes it a winner. The recheck after a connection failure must find the
word as the sender left it. -/
theorem PublishStake.publish {p : PublishPc} (hi : Inv cfg' s)
    (hok : ThreadOk s.view t (.running (.publish c p)))
    (hs : exec cfg t (.publish c p) s = some s')
    (hrecheck : ∀ code message, p = .failInFlight code message →
      s.word (getSlotId c) = ⟨getVersion c, .inFlight⟩)
    (h : p.Stake s.view k c) : PublishStake s'.view k c (s'.threads t) := by
  have hnew : ¬ (Pc.publish c p).AllocatesFor k := by
    rintro ⟨args, heq, -⟩
    cases heq
  have hwon : Owns s.view k c →
      ¬ (s'.word (getSlotId c)).state.Live → Handed s'.view k :=
    fun ho hn => owns_won hi hok hs ho hnew hn
  have hwin : ∀ {s₁ : State τ} {o : PublishOutcome} {q : HoldPc},
      o ≠ .invalid → Handed s'.view k →
      PublishStake s'.view k c
        ((s₁.win t c (.publish o) q).threads t) := by
    intro s₁ o q ho hh
    obtain ⟨g, hg⟩ := win_thread s₁ t c (.publish o) q
    rw [hg]
    exact ⟨hh, fun heq => ho (After.publish.inj heq)⟩
  cases p with
  | registerPublishedSlot =>
      cases hs
      simp only [execPublish]
      split <;> rw [goto_thread] <;> exact h
  | failArming code message =>
      by_cases hw : s.word (getSlotId c) = ⟨getVersion c, .arming⟩
      · have hs' := hs
        simp only [exec, execPublish, if_pos hw] at hs'
        cases hs'
        refine hwin (by decide) (hwon h ?_)
        rw [win_word]
        exact show ¬ SlotState.Live .failed by decide
      · cases hs
        simp only [execPublish, if_neg hw]
        have hst : (s.word (getSlotId c)).state ≠ .arming := by
          intro hst
          exact hw (Lifecycle.ext h.version hst)
        rw [publishLost_view]
        exact publishLost_stake h hst
  | publish =>
      by_cases hw : s.word (getSlotId c) = ⟨getVersion c, .arming⟩
      · have hsole := sole_exec hi hok hs hnew h.sole
        rw [← gen_exec hs (by rintro _ ⟨⟩) (getSlotId c)] at hsole
        cases hs
        simp only [execPublish, if_pos hw] at hsole ⊢
        rw [goto_thread]
        refine ⟨_, _, hsole, Or.inl ⟨rfl, ?_⟩⟩
        exact congrArg Lifecycle.state
          (word_storeLifecycle (s := s) ⟨getVersion c, .inFlight⟩)
      · cases hs
        simp only [execPublish, if_neg hw, goto_thread]
        refine ⟨h, rfl, fun hst => hw (Lifecycle.ext h.version hst)⟩
  | takeConnectionFailure =>
      cases hs
      simp only [execPublish]
      split
      · rw [ret_thread]
        exact ⟨h, by decide⟩
      · rw [goto_thread]
        exact h
  | failInFlight code message =>
      have hw := hrecheck code message rfl
      have hh : Handed s'.view k := by
        refine Handed.frame hi hok hs h hnew fun w heq => ?_
        cases heq
      have hs' := hs
      simp only [exec, execPublish, if_pos hw] at hs'
      cases hs'
      exact hwin (by decide) hh
  | unregisterPublishedSlot observed =>
      obtain ⟨ho, rfl, hst⟩ := h
      cases hs
      simp only [execPublish]
      rw [publishLost_view]
      exact publishLost_stake ho hst
  | deliverPending st r =>
      obtain ⟨ho, hst, -⟩ := h
      have hw : s.word (getSlotId c) = ⟨getVersion c, st⟩ :=
        Lifecycle.ext ho.version hst
      have hs' := hs
      simp only [exec, execPublish, if_pos hw] at hs'
      cases hs'
      refine hwin (pendingOutcome_ne_invalid r) (hwon ho ?_)
      rw [win_word]
      exact terminalState_not_live r

/-- Where a winner goes. -/
theorem execHold_thread {w : Winner} {p : HoldPc} :
    (∃ q, (execHold cfg t w p s).threads t = .running (.hold w q))
      ∨ (∃ d, (execHold cfg t w p s).threads t = .running (.dispatch w d))
      ∨ p = .pushFreeSlot none
        ∧ (execHold cfg t w p s).threads t = w.after.won w.cid := by
  cases p with
  | takeNotify code item =>
      simp only [execHold]
      split <;> exact Or.inl ⟨_, goto_thread ..⟩
  | pushFreeSlot item =>
      cases item with
      | some d => exact Or.inr (Or.inl ⟨_, goto_thread ..⟩)
      | none => exact Or.inr (Or.inr ⟨rfl, setThread_thread ..⟩)
  | _ => exact Or.inl ⟨_, goto_thread ..⟩

theorem execDispatch_thread {w : Winner} {d : Dispatch}
    (hs : execDispatch t w d s = some s') :
    s'.threads t = w.after.won w.cid := by
  unfold execDispatch at hs
  simp only at hs
  split_ifs at hs <;> cases hs <;> exact setThread_thread ..

/-- The sender's own step in `PublishSlot`. -/
theorem PublishStake.step (hi : Inv cfg' s)
    (hok : ThreadOk s.view t (.running pc)) (hs : exec cfg t pc s = some s')
    (hjob : pc.job = .publish c) (hshape : (Thread.running pc).Shaped)
    (hrecheck : ∀ code message, pc = .publish c (.failInFlight code message) →
      s.word (getSlotId c) = ⟨getVersion c, .inFlight⟩)
    (h : PublishStake s.view k c (.running pc)) :
    PublishStake s'.view k c (s'.threads t) := by
  cases pc with
  | publish c' p =>
      cases hjob
      exact PublishStake.publish hi hok hs
        (fun code message hp => hrecheck code message (by rw [hp])) h
  | hold w p =>
      obtain ⟨hh, hafter⟩ := h
      have hnd : w.after ≠ .discard := by
        intro heq
        have hj : w.after.job w.cid = .publish c := hjob
        rw [heq] at hj
        cases hj
      have hp : p ≠ .pushFreeSlot none := by
        rintro rfl
        exact hnd (hshape.mp rfl)
      have hh' : Handed s'.view k := by
        refine Handed.frame hi hok hs hh ?_ ?_
        · rintro ⟨args, heq, -⟩
          cases heq
        · rintro w' heq
          cases heq
          exact absurd rfl hp
      cases hs
      rcases @execHold_thread _ _ cfg s t w p
        with ⟨q, hq⟩ | ⟨d, hd⟩ | ⟨hnone, -⟩
      · rw [hq]
        exact ⟨hh', hafter⟩
      · rw [hd]
        exact ⟨hh', hafter⟩
      · exact absurd hnone hp
  | dispatch w d =>
      obtain ⟨hh, hafter⟩ := h
      have hh' : Handed s'.view k := by
        refine Handed.frame hi hok hs hh ?_ fun w heq => ?_
        · rintro ⟨args, heq, -⟩
          cases heq
        · cases heq
      rw [execDispatch_thread hs]
      have hj : w.after.job w.cid = .publish c := hjob
      cases hcase : w.after with
      | publish o =>
          rw [hcase] at hafter
          exact ⟨hh', fun ho => hafter (by rw [ho])⟩
      | complete | resolve | discard | failAll =>
          rw [hcase] at hj
          cases hj
  | alloc | discard | attachLoad | attachStore | responseUnknown
  | responseCas | responseLate | resolvePending | transition | failAllTake
  | failAllNext => exact h.elim

/-- Another thread's step. -/
theorem PublishStake.frame {th : Thread} (hi : Inv cfg' s)
    (hok : ThreadOk s.view t (.running pc)) (hs : exec cfg t pc s = some s')
    (hf : pc.Foreign s.view k) (h : PublishStake s.view k c th) :
    PublishStake s'.view k c th := by
  have hhanded : Handed s.view k → Handed s'.view k :=
    fun hh => Handed.frame hi hok hs hh hf.allocates hf.discards
  have howns : Owns s.view k c → Owns s'.view k c :=
    fun ho => Owns.frame hi hok hs ho hf
  have hwait : Owns s.view k c →
      (s.word (getSlotId c)).state ≠ .arming →
      s'.word (getSlotId c) = s.word (getSlotId c) :=
    fun ho => (unpublished_exec hi hok hs ho.word
      (hf.sends _ ho.sole.held)).2.2.2
  cases th with
  | idle => exact h.elim
  | running q =>
      cases q with
      | publish c' p =>
          cases p with
          | registerPublishedSlot | failArming | publish => exact howns h
          | takeConnectionFailure | failInFlight => exact hhanded h
          | unregisterPublishedSlot w =>
              obtain ⟨ho, rfl, hst⟩ := h
              exact ⟨howns ho, hwait ho hst, hst⟩
          | deliverPending st r =>
              obtain ⟨ho, rfl, hst⟩ := h
              exact ⟨howns ho, congrArg Lifecycle.state (hwait ho hst), hst⟩
      | hold w p => exact ⟨hhanded h.1, h.2⟩
      | dispatch w d => exact ⟨hhanded h.1, h.2⟩
      | _ => exact h.elim
  | returned r =>
      cases r with
      | published c' o => exact ⟨hhanded h.1, h.2⟩
      | _ => exact h.elim

end Publishing

-- == discarding

/-- What a thread in `DiscardArmingSlot` has for task `k`. -/
def DiscardStake (v : Cells τ) (k : Nat) (c : UInt64) : Thread → Prop
  | .running (.discard _) => Owns v k c
  | .running (.hold w _) =>
      Sole v k (getSlotId w.cid) (v (getSlotId w.cid)).life.gen
  | .returned (.flag _) => Dead v k
  | _ => False

section Discarding

variable {cfg cfg' : TableConfig} {s s' : State τ} {t u : τ} {pc : Pc}
  {k : Nat} {c : UInt64}

/-- The sender's own step in `DiscardArmingSlot`. -/
theorem DiscardStake.step (hi : Inv cfg' s)
    (hok : ThreadOk s.view t (.running pc)) (hs : exec cfg t pc s = some s')
    (hjob : pc.job = .discard c) (hshape : (Thread.running pc).Shaped)
    (h : DiscardStake s.view k c (.running pc)) :
    DiscardStake s'.view k c (s'.threads t) := by
  have hpop : ∀ args, pc ≠ .alloc args .popFreeSlot := by
    rintro args rfl
    cases hjob
  have hnew : ¬ pc.AllocatesFor k := fun ⟨args, heq, _⟩ => hpop args heq
  have hsole : ∀ i, Sole s.view k i (s.view i).life.gen →
      Sole s'.view k i (s'.view i).life.gen := by
    intro i hsole
    rw [gen_exec hs hpop i]
    exact sole_exec hi hok hs hnew hsole
  cases pc with
  | discard c' =>
      cases hjob
      have hs' := hsole _ h.sole
      simp only [exec] at hs
      split at hs
      · cases hs
        obtain ⟨g, hg⟩ := win_thread
          (s.storeLifecycle (getSlotId c) ⟨getVersion c, .timedOut⟩) t c
          .discard .discardTimer
        rw [hg]
        exact hs'
      · cases hs
        rw [ret_thread]
        exact h.dead
  | hold w p =>
      have hs' := hsole _ h
      have hafter : w.after = .discard := by
        have hj : w.after.job w.cid = .discard c := hjob
        cases hcase : w.after with
        | discard => rfl
        | publish | complete | resolve | failAll =>
            rw [hcase] at hj
            cases hj
      cases hs
      rcases @execHold_thread _ _ cfg s t w p
        with ⟨q, hq⟩ | ⟨d, hd⟩ | ⟨rfl, hnone⟩
      · rw [hq]
        exact hs'
      · have hs : ((execHold cfg t w p s).threads t).Shaped :=
          execHold_leads.shaped hshape
        rw [hd] at hs
        exact absurd hafter hs
      · rw [hnone, hafter]
        intro i g hheld
        obtain ⟨rfl, rfl⟩ := (hs' i g).mp hheld
        have hlife : ((execHold cfg t w (.pushFreeSlot none) s).view
            (getSlotId w.cid)).life
            = (s.lives (getSlotId w.cid)).setFate
              (s.lives (getSlotId w.cid)).gen .discarded :=
          Function.update_self ..
        rw [hlife]
        exact Or.inl (CellLife.setFate_now ..)
  | dispatch w d =>
      have hj : w.after.job w.cid = .discard c := hjob
      have hnd : w.after ≠ .discard := hshape
      cases hcase : w.after with
      | discard => exact absurd hcase hnd
      | publish | complete | resolve | failAll =>
          rw [hcase] at hj
          cases hj
  | alloc | publish | attachLoad | attachStore | responseUnknown
  | responseCas | responseLate | resolvePending | transition | failAllTake
  | failAllNext => exact h.elim

/-- Another thread's step. -/
theorem DiscardStake.frame {th : Thread} (hi : Inv cfg' s)
    (hok : ThreadOk s.view t (.running pc)) (hs : exec cfg t pc s = some s')
    (hu : u ≠ t) (hth : ThreadOk s.view u th) (hf : pc.Foreign s.view k)
    (h : DiscardStake s.view k c th) : DiscardStake s'.view k c th := by
  cases th with
  | idle => exact h.elim
  | running q =>
      cases q with
      | discard c' => exact Owns.frame hi hok hs h hf
      | hold w p =>
          exact sole_held hi hok hs hu (Or.inr ⟨_, HoldOk.now hth⟩)
            hf.allocates h
      | _ => exact h.elim
  | returned r =>
      cases r with
      | flag b => exact Dead.frame hi hok hs h hf
      | _ => exact h.elim

end Discarding

end AntRpc.Slot
