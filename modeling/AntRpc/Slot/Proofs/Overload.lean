/-
When `AllocateSlot` turns a call away.

# The counter and the list

`TryAcquireLiveSlot` consults `active_slots_`, `PopFreeSlot` the free
list. A finalizer lowers the counter first and links its cell afterwards:
in between the cell is neither counted nor in the list. An allocation
that comes then passes the counter and finds the list empty, although
fewer slots are live than its limit allows.

# Why it is the only way

Every cell off the list is live, or has a thread that still counts for
it, or has a finalizer in that gap (`pop_succeeds`). An allocation that
was counted within the capacity therefore finds a cell, unless somebody
is in the gap.

# Watching a call

`Watch` records the limit of a thread's call of `AllocateSlot`, the most
slots `active_slots_` counted during the call, and the most it counted
besides the one the call itself had reserved.
-/
import AntRpc.Slot.Proofs.Reuse

namespace AntRpc.Slot

open Lib

variable {τ : Type}

-- == the gap

/-- A finalizer that lowered the counter and has not linked its cell. -/
def Thread.returning : Thread → Bool
  | .running (.hold _ (.subInFlight _))
  | .running (.hold _ (.pushFreeSlot _)) => true
  | _ => false

/-- The cell a thread has off the free list and not live. -/
def Thread.cell : Thread → Option UInt32
  | .running (.alloc _ p) => p.taken
  | .running (.hold w _) => some (getSlotId w.cid)
  | _ => none

theorem Thread.reserves_of_cell {th : Thread} {i : UInt32}
    (hcell : th.cell = some i) (hgap : th.returning = false) :
    th.reserves = true := by
  cases th with
  | idle | returned r => cases hcell
  | running pc =>
      cases pc with
      | alloc args p => cases p <;> first | rfl | cases hcell
      | hold w p => cases p <;> first | rfl | cases hgap
      | _ => cases hcell

section Gap

variable [DecidableEq τ] {s s' : State τ} {t : τ} {cfg : TableConfig}

/-- If the list is empty, a cell that is not live is with a thread. -/
theorem cell_of_not_live (h : (machine cfg).Reachable s)
    (hcap : cfg.capacity < 2 ^ 32) (hempty : s.table.freeHead = invalidSlot)
    {i : UInt32} (hi : i.toNat < cfg.capacity)
    (hdead : ¬(s.word i).state.Live) :
    ∃ t, (s.threads t).cell = some i := by
  have hvalid : i ≠ invalidSlot := by
    rintro rfl
    have : invalidSlot.toNat = 2 ^ 32 - 1 := rfl
    omega
  have hplace := fun place => place_iff h hvalid hi place
  cases hp : (s.view i).life.now.place with
  | freeList =>
      obtain ⟨l, hchain, hmem⟩ := (hplace .freeList).2 hp.symm
      rw [hempty] at hchain
      cases l with
      | nil => cases hmem
      | cons a l => exact absurd hchain.1.symm hchain.2.1
  | live => exact absurd ((hplace .live).2 hp.symm) hdead
  | allocating =>
      obtain ⟨t, args, p, hth, htaken⟩ := (hplace .allocating).2 hp.symm
      exact ⟨t, by rw [hth]; exact htaken⟩
  | finalizing =>
      obtain ⟨t, w, p, hth, rfl⟩ := (hplace .finalizing).2 hp.symm
      exact ⟨t, by rw [hth]; rfl⟩

theorem ncard_cells (hcap : cfg.capacity < 2 ^ 32) :
    {i : UInt32 | i.toNat < cfg.capacity}.ncard = cfg.capacity := by
  have himage : {i : UInt32 | i.toNat < cfg.capacity}
      = UInt32.ofNat '' Set.Iio cfg.capacity := by
    ext i
    refine ⟨fun hi => ⟨i.toNat, hi, UInt32.ofNat_toNat⟩, ?_⟩
    rintro ⟨n, hn, rfl⟩
    have hn : n < cfg.capacity := hn
    show (UInt32.ofNat n).toNat < _
    rwa [UInt32.toNat_ofNat_of_lt' (by show n < 2 ^ 32; omega)]
  have hinj : Set.InjOn UInt32.ofNat (Set.Iio cfg.capacity) := by
    intro a ha b hb hab
    have ha : a < cfg.capacity := ha
    have hb : b < cfg.capacity := hb
    have h := congrArg UInt32.toNat hab
    rwa [UInt32.toNat_ofNat_of_lt' (by show a < 2 ^ 32; omega),
      UInt32.toNat_ofNat_of_lt' (by show b < 2 ^ 32; omega)] at h
  rw [himage, hinj.ncard_image, Set.ncard_eq_toFinset_card']
  simp

/-- Unless a finalizer is in the gap, an allocation that was counted
finds a cell. -/
theorem pop_succeeds (h : (machine cfg).Reachable s)
    (hcap : cfg.capacity < 2 ^ 32) {args : CallArgs}
    (hpc : s.threads t = .running (.alloc args .popFreeSlot))
    (hgap : ∀ u, (s.threads u).returning = false) :
    s.table.freeHead ≠ invalidSlot := by
  intro hempty
  have hacc := accounts_reachable h
  have hlimit : s.table.activeSlots ≤ cfg.capacity :=
    (limited_reach (fun _ _ _ => min_le_right _ _) h).active
  have hsparse : Sparse (fun th => bit th.reserves) s.threads :=
    hacc.sparse rfl
  have hactive := hacc.active
  rw [liveCells_eq, census_bit hsparse] at hactive
  have hfinite : {u | (s.threads u).reserves = true}.Finite := by
    refine hsparse.subset fun u hu => ?_
    show bit (s.threads u).reserves ≠ 0
    rw [show (s.threads u).reserves = true from hu]
    decide
  -- every cell that is not live has its own thread besides the allocation
  have hreserving : ({i : UInt32 | i.toNat < cfg.capacity}
      \ {i | (s.word i).state.Live}).ncard
      ≤ ({u | (s.threads u).reserves = true} \ {t}).ncard := by
    have hwho : ∀ i, ∃ u, i ∈ {i : UInt32 | i.toNat < cfg.capacity}
        \ {i | (s.word i).state.Live} → (s.threads u).cell = some i := by
      intro i
      by_cases hi : i ∈ {i : UInt32 | i.toNat < cfg.capacity}
          \ {i | (s.word i).state.Live}
      · obtain ⟨u, hu⟩ := cell_of_not_live h hcap hempty hi.1 hi.2
        exact ⟨u, fun _ => hu⟩
      · exact ⟨t, fun hc => absurd hc hi⟩
    choose who hwho using hwho
    refine Set.ncard_le_ncard_of_injOn who ?_ ?_ hfinite.sdiff
    · intro i hi
      refine ⟨Thread.reserves_of_cell (hwho i hi) (hgap _), ?_⟩
      rintro heq
      have hcell := hwho i hi
      rw [show who i = t from heq, hpc] at hcell
      cases hcell
    · intro i hi j hj hij
      have hcell := hwho i hi
      rw [hij, hwho j hj] at hcell
      exact (Option.some.inj hcell).symm
  have ht : t ∈ {u | (s.threads u).reserves = true} := by
    show (s.threads t).reserves = true
    rw [hpc]
    rfl
  have hothers := Set.ncard_sdiff_singleton_add_one ht hfinite
  have hcells : {i : UInt32 | i.toNat < cfg.capacity}.ncard
      = cfg.capacity := ncard_cells hcap
  have hsplit := Set.ncard_le_ncard_sdiff_add_ncard
    {i : UInt32 | i.toNat < cfg.capacity} {i | (s.word i).state.Live}
  omega

end Gap

-- == watching

/-- What is recorded of a call of `AllocateSlot`. -/
structure Watch where
  limit : Nat := 0
  counted : Nat := 0
  others : Nat := 0
deriving DecidableEq, Repr

/-- The slots counted live besides the one `t` itself has reserved. -/
def State.countedBeside (s : State τ) (t : τ) : Nat :=
  s.table.activeSlots - if (s.threads t).reserves then 1 else 0

def Watch.note (w : Watch) (s : State τ) (t : τ) : Watch where
  limit := w.limit
  counted := max w.counted s.table.activeSlots
  others := max w.others (s.countedBeside t)

abbrev Watched (τ : Type) := State τ × (τ → Watch)

section Watching

variable [DecidableEq τ]

/-- A new call is watched from its start on. -/
def watchAfter (w : τ → Watch) (s' : State τ) : Action τ → τ → Watch
  | .invoke u (.allocateSlot _ maxInFlight), t =>
      (if t = u then { limit := maxInFlight } else w t).note s' t
  | _, t => (w t).note s' t

def watchedMachine (cfg : TableConfig) :
    Machine (Watched τ) (Action τ) where
  start x := Start cfg x.1 ∧ x.2 = fun _ => {}
  apply a x :=
    (apply cfg a x.1).map fun s' => (s', watchAfter x.2 s' a)

/-- Watching does not change the table. -/
theorem watched_refines (cfg : TableConfig)
    (ok : Watched τ → Action τ → Prop) :
    (watchedMachine cfg).Refines (machine cfg) Prod.fst ok where
  start _ h := h.1
  step x x' a _ _ hs := by
    obtain ⟨s', hs', rfl⟩ := Option.map_eq_some_iff.mp hs
    exact Or.inr ⟨a, hs'⟩

omit [DecidableEq τ] in
/-- The action is `PopFreeSlot`. -/
def takes (s : State τ) : Action τ → Bool
  | .step t =>
      match s.threads t with
      | .running (.alloc _ .popFreeSlot) => true
      | _ => false
  | _ => false

/-- Nobody takes from the free list while a finalizer is in the gap, and
no id wraps to 0. -/
def gapless (x : Watched τ) (a : Action τ) : Prop :=
  versionLeft x.1 a = true
    ∧ (takes x.1 a = true → ∀ u, (x.1.threads u).returning = false)

instance [Fintype τ] (x : Watched τ) (a : Action τ) :
    Decidable (gapless x a) :=
  inferInstanceAs (Decidable (_ ∧ (_ → ∀ _, _)))

/-- How far a call of `AllocateSlot` has come, and what was counted. -/
def Watch.Ok (cfg : TableConfig) (w : Watch) : Thread → Prop
  | .running (.alloc _ (.loadActive limit)) => w.limit = limit
  | .running (.alloc _ (.casActive limit current)) =>
      w.limit = limit ∧ current ≤ w.others
  | .running (.alloc _ .undoActive) => False
  | .returned (.allocated args c) =>
      c = 0 → args.executor ≠ none → 0 < w.limit →
        w.limit ≤ cfg.capacity → w.limit ≤ w.others
  | _ => True

omit [DecidableEq τ] in
theorem Watch.Ok.note {cfg : TableConfig} {w : Watch} {th : Thread}
    (h : w.Ok cfg th) (s : State τ) (t : τ) : (w.note s t).Ok cfg th := by
  have hle : w.others ≤ (w.note s t).others := le_max_left _ _
  cases th with
  | idle => trivial
  | running pc =>
      cases pc with
      | alloc args p =>
          cases p with
          | loadActive limit => exact h
          | casActive limit current => exact ⟨h.1, h.2.trans hle⟩
          | undoActive => exact h
          | _ => trivial
      | _ => trivial
  | returned r =>
      cases r with
      | allocated args c =>
          exact fun hc he hp hl => (h hc he hp hl).trans hle
      | _ => trivial

variable {cfg : TableConfig} {s s' : State τ} {t : τ} {w : Watch}

/-- What a load of the counter sees is counted. -/
theorem Watch.Ok.load {limit : Nat} {args : CallArgs} (hw : w.limit = limit)
    (s : State τ) :
    (w.note (s.goto t (.alloc args
      (.casActive limit s.table.activeSlots))) t).Ok cfg
      (.running (.alloc args (.casActive limit s.table.activeSlots))) := by
  refine ⟨hw, le_max_of_le_right ?_⟩
  show s.table.activeSlots ≤ State.countedBeside (s.goto t _) t
  rw [State.countedBeside, goto_thread]
  exact le_rfl

/-- A step of `AllocateSlot` that finds a cell and has a version left. -/
theorem Watch.Ok.execAlloc {args : CallArgs} {p : AllocPc}
    (h : w.Ok cfg (.running (.alloc args p)))
    (hpop : p = .popFreeSlot → s.table.freeHead ≠ invalidSlot)
    (hchosen : ∀ i v, p.chosen = some (i, v) → makeCorrelationId v i ≠ 0) :
    (w.note (execAlloc t args p s) t).Ok cfg
      ((execAlloc t args p s).threads t) := by
  cases p with
  | loadActive limit =>
      rw [Slot.execAlloc, goto_thread]
      exact .load h s
  | casActive limit current =>
      simp only [Slot.execAlloc]
      split_ifs with hlt hcur
      · rw [goto_thread]
        trivial
      · rw [goto_thread]
        exact .load h.1 s
      · rw [ret_thread]
        intro _ _ _ _
        have hle : w.others ≤ (w.note (s.ret t (.allocated args 0)) t).others :=
          le_max_left _ _
        exact (h.1.trans_le (Nat.not_lt.mp hlt)).trans (h.2.trans hle)
  | popFreeSlot =>
      simp only [Slot.execAlloc]
      split
      · next hempty => exact absurd hempty (hpop rfl)
      · rw [goto_thread]
        trivial
  | undoActive => exact h.elim
  | addInFlight i v =>
      rw [Slot.execAlloc, ret_thread]
      exact fun hc => absurd hc (hchosen i v rfl)
  | loadVersion | storeFields | resetTimer | storeArming =>
      rw [Slot.execAlloc, goto_thread]
      trivial

/-- Only a call of `AllocateSlot` is of interest. -/
theorem Watch.Ok.of_doing {th : Thread} {j : Job} (h : th.Doing j)
    (hj : ∀ args, j ≠ .allocate args) : w.Ok cfg th := by
  cases th with
  | idle => trivial
  | running pc =>
      cases pc with
      | alloc args p => exact absurd h.symm (hj args)
      | _ => trivial
  | returned r =>
      cases r with
      | allocated args c =>
          cases j with
          | allocate args' => exact absurd rfl (hj args')
          | _ => cases h
      | _ => trivial

/-- A call that was just made. -/
theorem Watch.Ok.enter {op : Op} (s' : State τ) (w : τ → Watch) :
    (watchAfter w s' (.invoke t op) t).Ok cfg (enter cfg op) := by
  cases op with
  | allocateSlot args maxInFlight =>
      have hlimit : (watchAfter w s'
          (.invoke t (.allocateSlot args maxInFlight)) t).limit
          = maxInFlight := by
        simp [watchAfter, Watch.note]
      simp only [Slot.enter]
      split
      · next hrejected =>
        intro _ hexecutor hpos hle
        rw [hlimit] at hpos hle
        rcases hrejected with hnone | hzero | hgt
        · exact absurd hnone hexecutor
        · omega
        · omega
      · exact hlimit
  | _ => exact .of_doing (enter_doing cfg _) (by rintro _ ⟨⟩)

/-- A call goes on being watched. -/
theorem watchAfter_other {a : Action τ} {u : τ} (w : τ → Watch)
    (s' : State τ) (ha : ∀ op, a ≠ .invoke u op) :
    watchAfter w s' a u = (w u).note s' u := by
  cases a with
  | invoke t op =>
      have hu : u ≠ t := fun heq => ha op (heq ▸ rfl)
      cases op with
      | allocateSlot args maxInFlight => rw [watchAfter, if_neg hu]
      | _ => rfl
  | _ => rfl

/-- A step of `t` keeps what is recorded of `t`. -/
theorem Watch.Ok.exec {pc : Pc} (hi : Inv cfg s)
    (hpc : s.threads t = .running pc) (h : w.Ok cfg (.running pc))
    (hpop : ∀ args, pc = .alloc args .popFreeSlot →
      s.table.freeHead ≠ invalidSlot)
    (hchosen : Chosen s) (hs : Slot.exec cfg t pc s = some s') :
    (w.note s' t).Ok cfg (s'.threads t) := by
  cases pc with
  | alloc args p =>
      cases hs
      exact h.execAlloc (fun hp => hpop args (hp ▸ rfl))
        fun i v hv => hchosen t args p i v hpc hv
  | _ =>
      refine .of_doing (exec_doing (hpc ▸ hi.threads t) hs) fun args hj => ?_
      obtain ⟨p, hp⟩ := Pc.alloc_of_job hj
      cases hp

theorem watched_step {a : Action τ} {w : τ → Watch}
    (hreach : (machine cfg).Reachable s) (hcap : cfg.capacity < 2 ^ 32)
    (hchosen : Chosen s) (hw : ∀ t, (w t).Ok cfg (s.threads t))
    (hok : gapless (s, w) a) (hs : apply cfg a s = some s') (u : τ) :
    (watchAfter w s' a u).Ok cfg (s'.threads u) := by
  have hi := inv_reachable hreach
  have he := effect_apply hi hs
  cases a with
  | client heap metrics =>
      cases hs
      exact (hw u).note _ u
  | invoke t op =>
      by_cases hu : u = t
      · subst hu
        simp only [apply] at hs
        split at hs <;> cases hs
        rw [invoke_thread]
        exact .enter _ w
      · rw [watchAfter_other w s' (fun op' heq => hu (by cases heq; rfl)),
          he.others u hu]
        exact (hw u).note s' u
  | step t =>
      rw [watchAfter_other w s' fun _ h => by cases h]
      by_cases hu : u = t
      · subst hu
        simp only [apply] at hs
        split at hs
        · next pc hpc =>
          refine Watch.Ok.exec hi hpc (hpc ▸ hw u) ?_ hchosen hs
          rintro args rfl
          exact pop_succeeds hreach hcap hpc (hok.2 (by rw [takes, hpc]))
        · cases hs
      · rw [he.others u hu]
        exact (hw u).note s' u
  | spurious t =>
      rw [watchAfter_other w s' fun _ h => by cases h]
      by_cases hu : u = t
      · subst hu
        have hwu := hw u
        simp only [apply] at hs
        split at hs
        · next args limit current hpc =>
          rw [hpc] at hwu
          split at hs <;> cases hs
          rw [goto_thread]
          exact .load hwu.1 s
        · cases hs
      · rw [he.others u hu]
        exact (hw u).note s' u
  | pick t c =>
      rw [watchAfter_other w s' fun _ h => by cases h]
      by_cases hu : u = t
      · subst hu
        simp only [apply] at hs
        split at hs
        · next pc hpc =>
          cases pc with
          | failAllNext rest total code message =>
              simp only [execPick] at hs
              split_ifs at hs <;> cases hs <;> rw [goto_thread] <;> trivial
          | _ => cases hs
        · cases hs
      · rw [he.others u hu]
        exact (hw u).note s' u
  | collect t =>
      rw [watchAfter_other w s' fun _ h => by cases h]
      by_cases hu : u = t
      · subst hu
        simp only [apply] at hs
        split at hs <;> cases hs
        rw [setThread_thread]
        trivial
      · rw [he.others u hu]
        exact (hw u).note s' u

omit [DecidableEq τ] in
theorem Watch.note_others_le {w : Watch} (h : w.others ≤ w.counted)
    (s : State τ) (t : τ) : (w.note s t).others ≤ (w.note s t).counted :=
  max_le_max h (Nat.sub_le _ _)

/-- In every run without the gap, every call is recorded right. -/
theorem watched_reach (hcap : cfg.capacity < 2 ^ 32) {x : Watched τ}
    (h : (watchedMachine cfg).Reach gapless x) :
    Chosen x.1 ∧ ∀ t, (x.2 t).Ok cfg (x.1.threads t)
      ∧ (x.2 t).others ≤ (x.2 t).counted := by
  refine h.invariant (I := fun x : Watched τ => Chosen x.1 ∧ ∀ t,
    (x.2 t).Ok cfg (x.1.threads t) ∧ (x.2 t).others ≤ (x.2 t).counted) ?_ ?_
  · rintro ⟨s, w⟩ ⟨hstart, rfl⟩
    refine ⟨chosen_start hstart, fun t => ⟨?_, le_rfl⟩⟩
    obtain ⟨heap, rfl⟩ := hstart
    trivial
  · rintro ⟨s, w⟩ x' a hr ⟨hchosen, hw⟩ hok hs
    obtain ⟨s', hs', rfl⟩ := Option.map_eq_some_iff.mp hs
    have hreach := (watched_refines cfg _).reach hr
    refine ⟨chosen_apply (inv_reachable hreach) hchosen hok.1 hs',
      fun t => ⟨watched_step hreach hcap hchosen (fun t => (hw t).1) hok hs' t,
        ?_⟩⟩
    show (watchAfter w s' a t).others ≤ (watchAfter w s' a t).counted
    unfold watchAfter
    split
    · refine Watch.note_others_le ?_ s' _
      split
      · exact le_rfl
      · exact (hw _).2
    · exact Watch.note_others_le (hw _).2 s' _

/-- **Only a full table turns a call away.** If nobody takes from the
free list while a finalizer is between lowering the counter and linking
its cell, and no id wraps to 0: a call of `AllocateSlot` with an executor
and a limit the table allows returns 0 only if at some moment during the
call `active_slots_` counted at least `max_in_flight` slots, and even as
many besides the one the call had reserved itself. -/
theorem rejected_only_when_full (cfg : TableConfig)
    (hcap : cfg.capacity < 2 ^ 32) (x : Watched τ)
    (hreach : (watchedMachine cfg).Reach gapless x) (t : τ)
    (args : CallArgs)
    (hzero : x.1.threads t = .returned (.allocated args 0))
    (hexecutor : args.executor ≠ none) (hpos : 0 < (x.2 t).limit)
    (hlimit : (x.2 t).limit ≤ cfg.capacity) :
    (x.2 t).limit ≤ (x.2 t).counted ∧ (x.2 t).limit ≤ (x.2 t).others := by
  obtain ⟨hwatch, hle⟩ := (watched_reach hcap hreach).2 t
  rw [hzero] at hwatch
  have hothers := hwatch rfl hexecutor hpos hlimit
  exact ⟨hothers.trans hle, hothers⟩

end Watching

/-- The watched table before the first call. -/
def watchedStart (τ : Type) (cfg : TableConfig) : Watched τ :=
  ({ table := .init cfg }, fun _ => {})

/-- A call of `AllocateSlot` by thread `t`, and `n` steps of it. -/
def allocateSteps {k : Nat} (t : Fin k) (maxInFlight n : Nat) :
    List (Action (Fin k)) :=
  .invoke t (.allocateSlot bareCall maxInFlight)
    :: List.replicate n (.step t)

/-- The only cell is taken when the second call comes. -/
def secondRejected : Watched (Fin 2) :=
  (watchedMachine oneCell).finalWhile (fun x a => decide (gapless x a))
    (allocateSteps ⟨0, Nat.zero_lt_two⟩ 1 8
      ++ allocateSteps ⟨1, Nat.one_lt_two⟩ 1 2) (watchedStart _ oneCell)

theorem secondRejected_reach :
    (watchedMachine oneCell).Reach gapless secondRejected := by
  have hstart : (watchedMachine oneCell).start
      (watchedStart (Fin 2) oneCell) := ⟨⟨{}, rfl⟩, rfl⟩
  have h : (watchedMachine oneCell).Reach
      (fun x a => decide (gapless x a) = true) secondRejected :=
    Machine.reach_finalWhile hstart (by decide +kernel)
  exact h.weaken fun _ _ hok => of_decide_eq_true hok

theorem secondRejected_full :
    secondRejected.1.threads 1 = .returned (.allocated bareCall 0)
    ∧ (secondRejected.2 1).limit = 1
    ∧ (secondRejected.2 1).limit ≤ (secondRejected.2 1).counted
    ∧ (secondRejected.2 1).limit ≤ (secondRejected.2 1).others :=
  ⟨by decide +kernel, by decide +kernel,
    rejected_only_when_full oneCell (by decide) secondRejected
      secondRejected_reach 1 bareCall (by decide +kernel) (by decide)
      (by decide +kernel) (by decide +kernel)⟩

def twoCells : TableConfig := ⟨2, by decide, fun _ body => (body, true)⟩

/-- `DiscardArmingSlot` up to the counter's decrement. -/
def releaseSteps (t : Fin 3) (c : UInt64) : List (Action (Fin 3)) :=
  .collect t :: .invoke t (.discardArmingSlot c)
    :: List.replicate 7 (.step t)

/-- Both cells are given back but not linked when the third call
comes. -/
def gapRun : List (Action (Fin 3)) :=
  allocateSteps 0 2 8 ++ allocateSteps 1 2 8
    ++ releaseSteps 0 (makeCorrelationId 1 0)
    ++ releaseSteps 1 (makeCorrelationId 1 1) ++ allocateSteps 2 2 4

/-- It is turned away with a limit of two, although the counter was never
above one during the call. -/
theorem gapRun_rejected :
    ∃ x : Watched (Fin 3), (watchedMachine twoCells).Reachable x
      ∧ x.1.threads 2 = .returned (.allocated bareCall 0)
      ∧ bareCall.executor ≠ none
      ∧ (x.2 2).limit = 2 ∧ (x.2 2).limit ≤ twoCells.capacity
      ∧ (x.2 2).counted = 1 ∧ (x.2 2).others = 0 :=
  ⟨(watchedMachine twoCells).final gapRun (watchedStart _ twoCells),
    Machine.reachable_final ⟨⟨{}, rfl⟩, rfl⟩ (by decide +kernel),
    by decide +kernel, by decide, by decide +kernel, by decide +kernel,
    by decide +kernel, by decide +kernel⟩

end AntRpc.Slot
