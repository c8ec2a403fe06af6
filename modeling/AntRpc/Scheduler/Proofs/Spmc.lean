/-
The work-stealing deque is an exactly-once deque.

# The back of the queue

`bottom_` is one less than the back of the queue while a `TryPop` has
claimed an index and not yet decided, and until it has put `bottom_` back
(`State.back`). With that, the cells from `top_` to the back hold what is
in the queue at all times.

# Who decides

`Push` puts its item in when it stores `bottom_`. `TryPop` takes the back
when it loads `top_` and finds more than one item, else by its
compare-exchange. `Steal` takes the front by its compare-exchange: as
long as `top_` is what the thief loaded, there is a front, and the cell
it read has not been written since.
-/
import AntRpc.Scheduler.Spmc

namespace AntRpc.Scheduler.Spmc

open Lib

variable {α τ : Type} {k : Nat} {null : α} {s s' : State α τ}

-- == indices

theorem kMaxSize_pos (k : Nat) : 0 < kMaxSize k := Nat.two_pow_pos k

/-- Two indices less than a lap apart are different cells. -/
theorem cell_ne {i j : Int} (hlt : i < j) (hlap : j - i < kMaxSize k) :
    cell k i ≠ cell k j := by
  intro heq
  have hpos : (kMaxSize k : Int) ≠ 0 := by have := kMaxSize_pos k; omega
  have hi := Int.emod_nonneg i hpos
  have hj := Int.emod_nonneg j hpos
  have hmod : j % (kMaxSize k : Int) = i % (kMaxSize k : Int) := by
    unfold cell at heq
    omega
  have hdvd : (kMaxSize k : Int) ∣ j - i :=
    Int.dvd_of_emod_eq_zero (Int.emod_eq_emod_iff_emod_sub_eq_zero.mp hmod)
  have hle := Int.le_of_dvd (by omega) hdvd
  omega

-- == cells

/-- The cells from `t` on hold the items numbered in `inside`. -/
def Holds (k : Nat) (log : List α) (buffer : Nat → α) (t : Int)
    (inside : List Nat) : Prop :=
  ∀ (i n : Nat), inside[i]? = some n →
    log[n]? = some (buffer (cell k (t + i)))

variable {log : List α} {buffer : Nat → α} {t : Int} {inside : List Nat}

theorem Holds.tail {n : Nat} (h : Holds k log buffer t (n :: inside)) :
    Holds k log buffer (t + 1) inside := by
  intro i m hm
  have := h (i + 1) m (by rw [List.getElem?_cons_succ]; exact hm)
  rwa [show t + ((i + 1 : Nat) : Int) = t + 1 + i by omega] at this

theorem Holds.dropLast (h : Holds k log buffer t inside) :
    Holds k log buffer t inside.dropLast := by
  intro i n hn
  refine h i n ?_
  rw [List.getElem?_dropLast] at hn
  split at hn
  · exact hn
  · cases hn

/-- A write to the cell right after the last item touches none of them,
if there is room for one more. -/
theorem Holds.write (h : Holds k log buffer t inside) {b : Int} {o : α}
    (hb : b = t + inside.length) (hroom : inside.length < kMaxSize k) :
    Holds k log (Function.update buffer (cell k b) o) t inside := by
  intro i n hn
  have hi : i < inside.length := (List.getElem?_eq_some_iff.mp hn).1
  rw [Function.update_of_ne (cell_ne (by omega) (by omega))]
  exact h i n hn

/-- The item in that cell joins the others. -/
theorem Holds.push (h : Holds k log buffer t inside) {b : Int}
    (hb : b = t + inside.length) :
    Holds k (log ++ [buffer (cell k b)]) buffer t
      (inside ++ [log.length]) := by
  intro i n hn
  rcases Nat.lt_trichotomy i inside.length with hi | hi | hi
  · rw [List.getElem?_append_left hi] at hn
    have hlog := h i n hn
    rw [List.getElem?_append_left (List.getElem?_eq_some_iff.mp hlog).1]
    exact hlog
  · subst hi
    rw [List.getElem?_concat_length] at hn
    injection hn with hn
    subst hn
    rw [List.getElem?_concat_length, hb]
  · rw [List.getElem?_eq_none (by
      rw [List.length_append, List.length_singleton]; omega)] at hn
    cases hn

theorem Holds.getLast (h : Holds k log buffer t inside) {n : Nat} {b : Int}
    (hn : inside.getLast? = some n) (hb : b + 1 = t + inside.length) :
    log[n]? = some (buffer (cell k b)) := by
  have hne : inside ≠ [] := by rintro rfl; cases hn
  have hpos := List.length_pos_iff.mpr hne
  have := h (inside.length - 1) n (by rw [← List.getLast?_eq_getElem?]; exact hn)
  rwa [show t + ((inside.length - 1 : Nat) : Int) = b by omega] at this

-- == invariant

/-- How far `bottom_` is below the back of the queue. -/
def OwnerPc.hidden : OwnerPc α → Int
  | .popLoadTop _ | .popCas _ _ _ | .popRestore _ _ _ => 1
  | .popLoadItem b t _ => if t = b then 1 else 0
  | _ => 0

/-- The index right after the last item. -/
def State.back (s : State α τ) : Int := s.bottom + s.owner.hidden

/-- An item returned for the number taken is the one pushed under it. -/
def Returns (null : α) (log : List α) (item : α) : Option Nat → Prop
  | none => item = null
  | some n => log[n]? = some item

/-- What the owner's locals say about the queue. -/
def OwnerOk (k : Nat) (null : α) (s : State α τ) : OwnerPc α → Prop
  | .idle | .pushed _ | .pushLoadBottom _ | .popLoadBottom => True
  | .pushLoadTop _ b => b = s.bottom
  | .pushStoreItem _ b =>
      b = s.bottom ∧ s.deque.inside.length < kMaxSize k
  | .pushStoreBottom o b =>
      b = s.bottom ∧ s.deque.inside.length < kMaxSize k
        ∧ s.buffer (cell k b) = o
  | .popStoreBottom b => b = s.bottom - 1
  | .popLoadTop b => b = s.bottom
  | .popLoadItem b t took =>
      b = s.bottom ∧ (t = b → b ≤ s.top ∧ took = none)
        ∧ (t ≠ b → Returns null s.log (s.buffer (cell k b)) took)
  | .popCas b t item =>
      b = s.bottom ∧ t = b ∧ b ≤ s.top
        ∧ (s.top = b → s.buffer (cell k b) = item)
  | .popRestore b item took => b = s.bottom ∧ Returns null s.log item took
  | .popped item took => Returns null s.log item took

/-- What a thief's locals say about the queue. -/
def ThiefOk (k : Nat) (null : α) (s : State α τ) : ThiefPc α → Prop
  | .idle | .loadTop => True
  | .loadBottom t => t ≤ s.top
  | .loadItem t => t ≤ s.top ∧ (s.top = t → s.deque.inside ≠ [])
  | .cas t item =>
      t ≤ s.top
        ∧ (s.top = t → s.deque.inside ≠ [] ∧ s.buffer (cell k t) = item)
  | .stole item took => Returns null s.log item took

structure Inv (k : Nat) (null : α) (s : State α τ) : Prop where
  ledger : s.deque.Ok
  arrived : s.deque.arrived = s.log.length
  size : s.back = s.top + s.deque.inside.length
  room : s.deque.inside.length ≤ kMaxSize k
  holds : Holds k s.log s.buffer s.top s.deque.inside
  cached : s.cachedTop ≤ s.top
  owner : OwnerOk k null s s.owner
  thieves : ∀ i, ThiefOk k null s (s.thieves i)

theorem inv_start (h : Start s) : Inv k null s := by
  obtain ⟨buffer, rfl⟩ := h
  exact {
    ledger := Deque.ok_empty
    arrived := rfl
    size := rfl
    room := Nat.zero_le _
    holds := fun i n hn => by cases hn
    cached := le_rfl
    owner := trivial
    thieves := fun _ => trivial }

/-- A later log still has what a number stands for. -/
theorem Returns.append {item : α} {took : Option Nat}
    (h : Returns null log item took) (more : List α) :
    Returns null (log ++ more) item took := by
  cases took with
  | none => exact h
  | some n =>
      show (log ++ more)[n]? = some item
      have hlog : log[n]? = some item := h
      rw [List.getElem?_append_left (List.getElem?_eq_some_iff.mp hlog).1]
      exact hlog

-- == owner steps

/-- A step that moves only the owner. -/
theorem Inv.ownerTo (h : Inv k null s) {pc : OwnerPc α}
    (hpc : pc.hidden = s.owner.hidden)
    (hok : OwnerOk k null { s with owner := pc } pc) :
    Inv k null { s with owner := pc } where
  ledger := h.ledger
  arrived := h.arrived
  size := by
    show s.bottom + pc.hidden = _
    rw [hpc]
    exact h.size
  room := h.room
  holds := h.holds
  cached := h.cached
  owner := hok
  thieves := h.thieves

/-- Thieves do not mind a push: the front and its cell stay. -/
theorem Inv.storeItem (h : Inv k null s) {o : α} {b : Int}
    (hpc : s.owner = .pushStoreItem o b) :
    Inv k null { s with
      buffer := Function.update s.buffer (cell k b) o
      owner := .pushStoreBottom o b } := by
  have hown := h.owner
  have hsize := h.size
  rw [hpc] at hown
  rw [State.back, hpc] at hsize
  obtain ⟨hb, hroom⟩ := hown
  have hsize : b = s.top + s.deque.inside.length := by
    rw [hb, ← hsize]
    exact (add_zero _).symm
  exact {
    ledger := h.ledger
    arrived := h.arrived
    size := by
      show s.bottom + 0 = _
      rw [← hb, add_zero]
      exact hsize
    room := h.room
    holds := h.holds.write hsize hroom
    cached := h.cached
    owner := ⟨hb, hroom, Function.update_self _ _ _⟩
    thieves := by
      intro i
      have hi := h.thieves i
      show ThiefOk k null _ (s.thieves i)
      cases hthief : s.thieves i with
      | idle | loadTop => trivial
      | loadBottom t | loadItem t | stole item took => rw [hthief] at hi; exact hi
      | cas t item =>
          rw [hthief] at hi
          refine ⟨hi.1, fun htop => ⟨(hi.2 htop).1, ?_⟩⟩
          -- the front is in the queue, the written cell right after it
          have hpos := List.length_pos_iff.mpr (hi.2 htop).1
          have htop : s.top = t := htop
          show Function.update s.buffer (cell k b) o (cell k t) = item
          rw [Function.update_of_ne (cell_ne (by omega) (by omega))]
          exact (hi.2 htop).2 }

theorem Inv.storeBottom (h : Inv k null s) {o : α} {b : Int}
    (hpc : s.owner = .pushStoreBottom o b) :
    Inv k null { s with
      bottom := b + 1
      owner := .pushed true
      log := s.log ++ [o]
      deque := s.deque.push } := by
  have hown := h.owner
  have hsize := h.size
  rw [hpc] at hown
  rw [State.back, hpc] at hsize
  obtain ⟨hb, hroom, hcell⟩ := hown
  have hsize : b = s.top + s.deque.inside.length := by
    rw [hb, ← hsize]
    exact (add_zero _).symm
  have hlen : (s.deque.inside ++ [s.deque.arrived]).length
      = s.deque.inside.length + 1 := List.length_append
  exact {
    ledger := h.ledger.push
    arrived := by
      show s.deque.arrived + 1 = (s.log ++ [o]).length
      rw [h.arrived, List.length_append, List.length_singleton]
    size := by
      show b + 1 + 0 = s.top + ((s.deque.inside ++ [s.deque.arrived]).length : Nat)
      rw [hlen]
      omega
    room := by
      show (s.deque.inside ++ [s.deque.arrived]).length ≤ _
      rw [hlen]
      exact hroom
    holds := by
      have := h.holds.push hsize
      rw [hcell, ← h.arrived] at this
      exact this
    cached := h.cached
    owner := trivial
    thieves := by
      intro i
      have hi := h.thieves i
      show ThiefOk k null _ (s.thieves i)
      have hne : s.deque.inside ++ [s.deque.arrived] ≠ [] := by simp
      cases hthief : s.thieves i with
      | idle | loadTop => trivial
      | loadBottom t => rw [hthief] at hi; exact hi
      | loadItem t =>
          rw [hthief] at hi
          exact ⟨hi.1, fun _ => hne⟩
      | cas t item =>
          rw [hthief] at hi
          exact ⟨hi.1, fun htop => ⟨hne, (hi.2 htop).2⟩⟩
      | stole item took =>
          rw [hthief] at hi
          exact Returns.append hi _ }

/-- `bottom_` moves with how far it is hidden: the back stays. -/
theorem Inv.moveBottom (h : Inv k null s) {b : Int} {pc : OwnerPc α}
    (hback : b + pc.hidden = s.back)
    (hok : OwnerOk k null { s with bottom := b, owner := pc } pc) :
    Inv k null { s with bottom := b, owner := pc } where
  ledger := h.ledger
  arrived := h.arrived
  size := by
    show b + pc.hidden = _
    rw [hback]
    exact h.size
  room := h.room
  holds := h.holds
  cached := h.cached
  owner := hok
  thieves := h.thieves

/-- The owner takes the back, with more than one item there: no thief's
front goes with it. -/
theorem Inv.takeBack (h : Inv k null s) {b : Int}
    (hpc : s.owner = .popLoadTop b) (hlt : s.top < b) :
    Inv k null { s with
      owner := .popLoadItem b s.top s.deque.inside.getLast?
      deque := s.deque.popBack } := by
  have hb := h.owner
  have hsize := h.size
  rw [hpc] at hb
  rw [State.back, hpc] at hsize
  have hb : b = s.bottom := hb
  have hsize : s.bottom + 1 = s.top + s.deque.inside.length := hsize
  have hlen : s.deque.inside.dropLast.length
      = s.deque.inside.length - 1 := List.length_dropLast
  exact {
    ledger := h.ledger.popBack
    arrived := by
      show s.deque.popBack.arrived = _
      rw [Deque.popBack_arrived]
      exact h.arrived
    size := by
      show s.bottom + (if s.top = b then 1 else 0)
        = s.top + (s.deque.popBack.inside.length : Nat)
      rw [if_neg (by omega), Deque.popBack_inside, hlen]
      omega
    room := by
      have := h.room
      show s.deque.popBack.inside.length ≤ _
      rw [Deque.popBack_inside, hlen]
      omega
    holds := by
      show Holds k s.log s.buffer s.top s.deque.popBack.inside
      rw [Deque.popBack_inside]
      exact h.holds.dropLast
    cached := h.cached
    owner := by
      refine ⟨hb, fun heq => absurd heq (by omega), fun _ => ?_⟩
      cases hlast : s.deque.inside.getLast? with
      | none =>
          rw [List.getLast?_eq_none_iff.mp hlast] at hsize
          have hsize : s.bottom + 1 = s.top + (0 : Nat) := hsize
          omega
      | some n => exact h.holds.getLast hlast (by omega)
    thieves := by
      have hne : s.deque.popBack.inside ≠ [] := by
        rw [Deque.popBack_inside]
        refine List.length_pos_iff.mp ?_
        rw [hlen]
        omega
      intro i
      have hi := h.thieves i
      show ThiefOk k null _ (s.thieves i)
      cases hthief : s.thieves i with
      | idle | loadTop => trivial
      | loadBottom t | stole item took => rw [hthief] at hi; exact hi
      | loadItem t =>
          rw [hthief] at hi
          exact ⟨hi.1, fun _ => hne⟩
      | cas t item =>
          rw [hthief] at hi
          exact ⟨hi.1, fun htop => ⟨hne, (hi.2 htop).2⟩⟩ }

/-- After `top_` moved on, what a thief loaded before is stale. -/
theorem ThiefOk.stale {pc : ThiefPc α} (h : ThiefOk k null s pc)
    (hlog : s'.log = s.log) (htop : s'.top = s.top + 1) :
    ThiefOk k null s' pc := by
  cases pc with
  | idle | loadTop => trivial
  | loadBottom t =>
      show t ≤ s'.top
      have h : t ≤ s.top := h
      omega
  | loadItem t | cas t item =>
      refine ⟨?_, fun heq => ?_⟩
      · have h := h.1
        omega
      · have h := h.1
        omega
  | stole item took =>
      show Returns null s'.log item took
      rw [hlog]
      exact h

/-- The owner wins the race for the last item. -/
theorem Inv.takeLast (h : Inv k null s) {b t : Int} {item : α}
    (hpc : s.owner = .popCas b t item) (htop : s.top = t) :
    Inv k null { s with
      top := t + 1
      owner := .popRestore b item s.deque.inside.getLast?
      deque := s.deque.popBack } := by
  have hown := h.owner
  have hsize := h.size
  rw [hpc] at hown
  rw [State.back, hpc] at hsize
  obtain ⟨hb, rfl, hle, hcell⟩ := hown
  have hsize : s.bottom + 1 = s.top + s.deque.inside.length := hsize
  obtain ⟨n, hn⟩ := List.length_eq_one_iff.mp
    (show s.deque.inside.length = 1 by omega)
  have hinside : s.deque.popBack.inside = [] := by
    rw [Deque.popBack_inside, hn]
    rfl
  exact {
    ledger := h.ledger.popBack
    arrived := by
      show s.deque.popBack.arrived = _
      rw [Deque.popBack_arrived]
      exact h.arrived
    size := by
      show s.bottom + 1 = t + 1 + (s.deque.popBack.inside.length : Nat)
      rw [hinside, hb]
      exact (add_zero _).symm
    room := by
      show s.deque.popBack.inside.length ≤ _
      rw [hinside]
      exact Nat.zero_le _
    holds := by
      show Holds k s.log s.buffer _ s.deque.popBack.inside
      rw [hinside]
      intro i m hm
      cases hm
    cached := by
      have := h.cached
      show s.cachedTop ≤ t + 1
      omega
    owner := by
      refine ⟨hb, ?_⟩
      rw [hn]
      have := h.holds 0 n (by rw [hn]; rfl)
      rw [htop, show t + ((0 : Nat) : Int) = t by omega, hcell htop] at this
      exact this
    thieves := fun i => by
      refine (h.thieves i).stale rfl ?_
      show t + 1 = s.top + 1
      rw [htop] }

theorem Inv.execOwner (h : Inv k null s)
    (hs : execOwner k null s s.owner = some s') : Inv k null s' := by
  have hown := h.owner
  have hsize := h.size
  rw [State.back] at hsize
  generalize hpc : s.owner = pc at hs hown hsize
  cases pc with
  | idle => cases hs
  | pushLoadBottom o =>
      simp only [Spmc.execOwner] at hs
      have hsize : s.bottom + 0 = s.top + s.deque.inside.length := hsize
      have hcached := h.cached
      split at hs <;> cases hs
      · exact h.ownerTo (by rw [hpc]; rfl) rfl
      · next hlt => exact h.ownerTo (by rw [hpc]; rfl) ⟨rfl, by
          show s.deque.inside.length < kMaxSize k
          omega⟩
  | pushLoadTop o b =>
      simp only [Spmc.execOwner] at hs
      have hsize : s.bottom + 0 = s.top + s.deque.inside.length := hsize
      have hb : b = s.bottom := hown
      have h' : Inv k null { s with cachedTop := s.top } :=
        { h with cached := le_rfl }
      split at hs <;> cases hs
      · exact h'.ownerTo (by show _ = s.owner.hidden; rw [hpc]; rfl) trivial
      · next hlt =>
        exact h'.ownerTo (by show _ = s.owner.hidden; rw [hpc]; rfl) ⟨hb, by
          show s.deque.inside.length < kMaxSize k
          omega⟩
  | pushStoreItem o b =>
      cases hs
      exact h.storeItem hpc
  | pushStoreBottom o b =>
      cases hs
      exact h.storeBottom hpc
  | pushed accepted =>
      cases hs
      exact h.ownerTo (by rw [hpc]; rfl) trivial
  | popLoadBottom =>
      cases hs
      exact h.ownerTo (by rw [hpc]; rfl) rfl
  | popStoreBottom b =>
      cases hs
      have hb : b = s.bottom - 1 := hown
      refine h.moveBottom ?_ rfl
      show b + 1 = s.bottom + s.owner.hidden
      rw [hpc, hb]
      show s.bottom - 1 + 1 = s.bottom + 0
      omega
  | popLoadTop b =>
      simp only [Spmc.execOwner] at hs
      have hb : b = s.bottom := hown
      split at hs
      · next hlt =>
        cases hs
        exact h.takeBack hpc hlt
      · split at hs <;> cases hs
        · next htop =>
          refine h.ownerTo ?_ ⟨hb, fun _ => ⟨htop.ge, rfl⟩, fun hne => ?_⟩
          · rw [hpc]
            exact if_pos htop
          · exact absurd htop hne
        · exact h.ownerTo (by rw [hpc]; rfl) ⟨hb, rfl⟩
  | popLoadItem b t took =>
      simp only [Spmc.execOwner] at hs
      obtain ⟨hb, heq, hne⟩ := hown
      split at hs <;> cases hs
      · next ht =>
        refine h.ownerTo ?_ ⟨hb, ht, (heq ht).1, fun _ => rfl⟩
        rw [hpc]
        exact (if_pos ht).symm
      · next ht =>
        refine h.ownerTo ?_ (hne ht)
        rw [hpc]
        exact (if_neg ht).symm
  | popCas b t item =>
      simp only [Spmc.execOwner] at hs
      split at hs <;> cases hs
      · next htop => exact h.takeLast hpc htop
      · exact h.ownerTo (by rw [hpc]; rfl) ⟨hown.1, rfl⟩
  | popRestore b item took =>
      cases hs
      obtain ⟨hb, hret⟩ := hown
      refine h.moveBottom ?_ hret
      show b + 1 + 0 = s.bottom + s.owner.hidden
      rw [hpc, hb]
      exact add_zero _
  | popped item took =>
      cases hs
      exact h.ownerTo (by rw [hpc]; rfl) trivial

-- == thief steps

/-- A thief wins the front: the owner's last-item race is lost if that
was it. -/
theorem Inv.takeFront (h : Inv k null s) {t : Int} {item : α}
    (hok : ThiefOk k null s (.cas t item)) (htop : s.top = t) :
    Inv k null { s with top := t + 1, deque := s.deque.popFront }
      ∧ Returns null s.log item s.deque.inside.head? := by
  obtain ⟨-, hok⟩ := hok
  obtain ⟨hne, hcell⟩ := hok htop
  obtain ⟨n, rest, hn⟩ := List.exists_cons_of_ne_nil hne
  have hfront : s.deque.popFront
      = { s.deque with inside := rest, stolen := s.deque.stolen ++ [n] } := by
    simp only [Lib.Deque.popFront, hn]
  have hholds := h.holds
  have hsize := h.size
  have hroom := h.room
  have hledger := h.ledger.popFront
  rw [hn] at hholds hsize hroom
  rw [hfront] at hledger ⊢
  rw [List.length_cons] at hsize hroom
  refine ⟨?_, ?_⟩
  · exact {
      ledger := hledger
      arrived := h.arrived
      size := by
        show s.back = t + 1 + (rest.length : Nat)
        rw [hsize, htop]
        omega
      room := by
        show rest.length ≤ _
        omega
      holds := by
        rw [htop] at hholds
        exact hholds.tail
      cached := by
        have := h.cached
        show s.cachedTop ≤ t + 1
        omega
      owner := by
        have hown := h.owner
        have hback : s.bottom + s.owner.hidden = _ := hsize
        cases hpc : s.owner with
        | idle | pushed accepted | pushLoadBottom o | popLoadBottom => trivial
        | pushLoadTop o b | popStoreBottom b | popLoadTop b
        | popRestore b item took | popped item took =>
            rw [hpc] at hown
            exact hown
        | pushStoreItem o b =>
            rw [hpc] at hown
            refine ⟨hown.1, ?_⟩
            show rest.length < _
            omega
        | pushStoreBottom o b =>
            rw [hpc] at hown
            refine ⟨hown.1, ?_, hown.2.2⟩
            show rest.length < _
            omega
        | popLoadItem b t' took =>
            rw [hpc] at hown
            refine ⟨hown.1, fun ht => ⟨?_, (hown.2.1 ht).2⟩, hown.2.2⟩
            have := (hown.2.1 ht).1
            show b ≤ t + 1
            omega
        | popCas b t' item =>
            rw [hpc] at hown
            obtain ⟨hb, ht, hle, -⟩ := hown
            refine ⟨hb, ht, ?_, fun heq => ?_⟩
            · show b ≤ t + 1
              omega
            · have heq : t + 1 = b := heq
              omega
      thieves := fun i => by
        refine (h.thieves i).stale rfl ?_
        show t + 1 = s.top + 1
        rw [htop] }
  · rw [hn]
    have := hholds 0 n rfl
    rw [htop, show t + ((0 : Nat) : Int) = t by omega, hcell] at this
    exact this

variable [DecidableEq τ]

/-- A step that moves only one thief. -/
theorem Inv.thiefTo (h : Inv k null s) {i : τ} {pc : ThiefPc α}
    (hok : ThiefOk k null s pc) : Inv k null (s.thiefTo i pc) where
  ledger := h.ledger
  arrived := h.arrived
  size := h.size
  room := h.room
  holds := h.holds
  cached := h.cached
  owner := h.owner
  thieves := by
    intro j
    show ThiefOk k null s (Function.update s.thieves i pc j)
    rcases eq_or_ne j i with rfl | hne
    · rw [Function.update_self]
      exact hok
    · rw [Function.update_of_ne hne]
      exact h.thieves j

theorem Inv.execThief (h : Inv k null s) {i : τ}
    (hs : execThief k null i s (s.thieves i) = some s') :
    Inv k null s' := by
  have hthief := h.thieves i
  have hsize := h.size
  rw [State.back] at hsize
  generalize s.thieves i = pc at hs hthief
  cases pc with
  | idle => cases hs
  | loadTop =>
      cases hs
      exact h.thiefTo le_rfl
  | loadBottom t =>
      simp only [Spmc.execThief] at hs
      have ht : t ≤ s.top := hthief
      split at hs <;> cases hs
      · next hlt =>
        refine h.thiefTo ⟨ht, fun htop => List.length_pos_iff.mp ?_⟩
        have hhidden : 0 ≤ s.owner.hidden := by
          unfold OwnerPc.hidden
          split <;> try split
          all_goals omega
        omega
      · exact h.thiefTo rfl
  | loadItem t =>
      cases hs
      exact h.thiefTo ⟨hthief.1, fun htop => ⟨hthief.2 htop, rfl⟩⟩
  | cas t item =>
      simp only [Spmc.execThief] at hs
      split at hs <;> cases hs
      · next htop =>
        obtain ⟨hinv, hret⟩ := h.takeFront hthief htop
        exact hinv.thiefTo hret
      · exact h.thiefTo rfl
  | stole item took =>
      cases hs
      exact h.thiefTo trivial

theorem inv_apply {a : Action α τ} (h : Inv k null s)
    (hs : apply k null a s = some s') : Inv k null s' := by
  cases a with
  | push o | tryPop =>
      simp only [apply] at hs
      split at hs <;> cases hs
      next hpc => exact h.ownerTo (by rw [hpc]; rfl) trivial
  | owner => exact h.execOwner hs
  | steal i =>
      simp only [apply] at hs
      split at hs <;> cases hs
      exact h.thiefTo trivial
  | thief i => exact h.execThief hs

theorem inv_reachable
    (h : (machine k null).Reachable s) : Inv k null s :=
  h.invariant (I := Inv k null) (fun _ => inv_start)
    (fun _ _ _ _ hinv _ hs => inv_apply hinv hs)

-- == exactly once

/-- The number a `TryPop` took, once it has decided. -/
def OwnerPc.decision : OwnerPc α → Option (Option Nat)
  | .popLoadItem b t took => if t = b then none else some took
  | .popRestore _ _ took | .popped _ took => some took
  | _ => none

/-- The item an unfinished `Push` was called with. -/
def OwnerPc.pushing : OwnerPc α → Option α
  | .pushLoadBottom o | .pushLoadTop o _ | .pushStoreItem o _
  | .pushStoreBottom o _ => some o
  | _ => none

/-- What a step of the owner does to the ledger and to its result. -/
inductive OwnerMove (k : Nat) (s s' : State α τ) (pc : OwnerPc α) : Prop
  | goes (hlog : s'.log = s.log) (hdeque : s'.deque = s.deque)
      (hpushing : s'.owner.pushing = pc.pushing)
      (hdecision : s'.owner.decision = pc.decision)
      (hopen : s'.owner ≠ .pushed false)
  | refuses {o : α} {b : Int} (hlog : s'.log = s.log)
      (hdeque : s'.deque = s.deque) (hpc : pc = .pushLoadTop o b)
      (hfull : s.deque.inside.length = kMaxSize k)
      (hafter : s'.owner = .pushed false)
  | puts {o : α} {b : Int} (hpc : pc = .pushStoreBottom o b)
      (hlog : s'.log = s.log ++ [o]) (hdeque : s'.deque = s.deque.push)
      (hafter : s'.owner = .pushed true)
  | takes (hpushing : pc.pushing = none) (hbefore : pc.decision = none)
      (hdeque : s'.deque = s.deque.popBack)
      (hafter : s'.owner.decision = some s.deque.inside.getLast?)
      (hopen : s'.owner ≠ .pushed false)
  | returns (hdeque : s'.deque = s.deque) (hpushing : pc.pushing = none)
      (hpc : ∀ took, pc.decision = some took →
        ∃ item, pc = .popped item took)
      (hafter : s'.owner = .idle)

omit [DecidableEq τ] in
theorem execOwner_moves (hinv : Inv k null s)
    (hs : execOwner k null s s.owner = some s') :
    s'.thieves = s.thieves ∧ OwnerMove k s s' s.owner := by
  have hown := hinv.owner
  have hsize := hinv.size
  have hroom := hinv.room
  rw [State.back] at hsize
  -- a decision for nothing is made in an empty queue
  have hnone {pc : OwnerPc α} {b : Int} (hempty : s.deque.inside.length = 0)
      (hpushing : pc.pushing = none) (hbefore : pc.decision = none) :
      OwnerMove k s { s with owner := .popRestore b null none } pc := by
    have hnil := List.length_eq_zero_iff.mp hempty
    refine .takes hpushing hbefore ?_ ?_ nofun
    · simp only [Deque.popBack, hnil, List.getLast?_nil]
    · rw [hnil]
      rfl
  generalize s.owner = pc at hs hown hsize ⊢
  cases pc with
  | idle => cases hs
  | pushLoadBottom o =>
      simp only [execOwner] at hs
      split at hs <;> cases hs <;>
        exact ⟨rfl, .goes rfl rfl rfl rfl nofun⟩
  | pushLoadTop o b =>
      have hb : b = s.bottom := hown
      have hsize : s.bottom + 0 = s.top + s.deque.inside.length := hsize
      simp only [execOwner] at hs
      split at hs <;> cases hs
      · exact ⟨rfl, .refuses rfl rfl rfl (by omega) rfl⟩
      · exact ⟨rfl, .goes rfl rfl rfl rfl nofun⟩
  | pushStoreItem o b | popLoadBottom | popStoreBottom b
  | popRestore b item took =>
      cases hs
      exact ⟨rfl, .goes rfl rfl rfl rfl nofun⟩
  | pushStoreBottom o b =>
      cases hs
      exact ⟨rfl, .puts rfl rfl rfl rfl⟩
  | pushed accepted =>
      cases hs
      exact ⟨rfl, .returns rfl rfl nofun rfl⟩
  | popLoadTop b =>
      have hb : b = s.bottom := hown
      have hsize : s.bottom + 1 = s.top + s.deque.inside.length := hsize
      simp only [execOwner] at hs
      split at hs
      · next hlt =>
        cases hs
        exact ⟨rfl, .takes rfl rfl rfl (if_neg hlt.ne) nofun⟩
      · split at hs <;> cases hs
        · next htop =>
          exact ⟨rfl, .goes rfl rfl rfl (if_pos htop) nofun⟩
        · exact ⟨rfl, hnone (by omega) rfl rfl⟩
  | popLoadItem b t took =>
      simp only [execOwner] at hs
      split at hs <;> cases hs
      · next ht => exact ⟨rfl, .goes rfl rfl rfl (if_pos ht).symm nofun⟩
      · next ht => exact ⟨rfl, .goes rfl rfl rfl (if_neg ht).symm nofun⟩
  | popCas b t item =>
      obtain ⟨hb, ht, hle, -⟩ := hown
      have hsize : s.bottom + 1 = s.top + s.deque.inside.length := hsize
      simp only [execOwner] at hs
      split at hs <;> cases hs
      · exact ⟨rfl, .takes rfl rfl rfl rfl nofun⟩
      · exact ⟨rfl, hnone (by omega) rfl rfl⟩
  | popped item took =>
      cases hs
      refine ⟨rfl, .returns rfl rfl (fun took' hd => ?_) rfl⟩
      cases hd
      exact ⟨item, rfl⟩

/-- The number a `Steal` took, once it is about to return. -/
def ThiefPc.result : ThiefPc α → Option (Option Nat)
  | .stole _ took => some took
  | _ => none

/-- What a step of a thief does to the ledger and to its result. -/
inductive ThiefMove (d d' : Deque) (pc pc' : ThiefPc α) : Prop
  | goes (hsame : d' = d) (hbefore : pc.result = none)
      (hafter : pc'.result = none)
  | misses (hsame : d' = d) (hbefore : pc.result = none)
      (hafter : pc'.result = some none)
  | takes {n : Nat} (hfront : d.inside.head? = some n)
      (htaken : d' = d.popFront) (hbefore : pc.result = none)
      (hafter : pc'.result = some (some n))
  | returns (hsame : d' = d) (hafter : pc' = .idle)

theorem execThief_moves {i : τ} (hinv : Inv k null s)
    (hs : execThief k null i s (s.thieves i) = some s') :
    s'.owner = s.owner ∧ s'.log = s.log
      ∧ (∀ j, j ≠ i → s'.thieves j = s.thieves j)
      ∧ ThiefMove s.deque s'.deque (s.thieves i) (s'.thieves i) := by
  have hthief := hinv.thieves i
  have hself (s₁ : State α τ) (pc : ThiefPc α) :
      (s₁.thiefTo i pc).thieves i = pc := Function.update_self ..
  have hother (s₁ : State α τ) (pc : ThiefPc α) : ∀ j, j ≠ i →
      (s₁.thiefTo i pc).thieves j = s₁.thieves j :=
    fun j hj => Function.update_of_ne hj ..
  generalize s.thieves i = pc at hs hthief ⊢
  cases pc with
  | idle => cases hs
  | loadTop | loadItem t =>
      cases hs
      exact ⟨rfl, rfl, hother _ _, .goes rfl rfl (by rw [hself]; rfl)⟩
  | loadBottom t =>
      simp only [execThief] at hs
      split at hs <;> cases hs
      · exact ⟨rfl, rfl, hother _ _, .goes rfl rfl (by rw [hself]; rfl)⟩
      · exact ⟨rfl, rfl, hother _ _, .misses rfl rfl (by rw [hself]; rfl)⟩
  | cas t item =>
      simp only [execThief] at hs
      split at hs <;> cases hs
      · next htop =>
        -- `top_` is what it was, so there is a front
        obtain ⟨n, rest, hn⟩ :=
          List.exists_cons_of_ne_nil (hthief.2 htop).1
        have hfront : s.deque.inside.head? = some n := by rw [hn]; rfl
        refine ⟨rfl, rfl, hother _ _, .takes hfront rfl rfl ?_⟩
        rw [hself, hfront]
        rfl
      · exact ⟨rfl, rfl, hother _ _, .misses rfl rfl (by rw [hself]; rfl)⟩
  | stole item took =>
      cases hs
      exact ⟨rfl, rfl, hother _ _, .returns rfl (hself ..)⟩

/-- Every item pushed is in the queue or was taken once; what is in the
queue is in its cells; what an operation returns is what it took. -/
structure Accounted (k : Nat) (null : α) (s : State α τ) : Prop where
  once : ∀ n, n < s.log.length →
    s.deque.inside.count n + s.deque.popped.count n
      + s.deque.stolen.count n = 1
  known : ∀ n, n ∈ s.deque.inside ++ s.deque.popped ++ s.deque.stolen →
    n < s.log.length
  kept : Holds k s.log s.buffer s.top s.deque.inside
  fits : s.deque.inside.length ≤ kMaxSize k
  stealOrder : s.deque.stolen.Pairwise (· < ·)
  popped : ∀ item took, s.owner = .popped item took →
    Returns null s.log item took
  stole : ∀ i item took, s.thieves i = .stole item took →
    Returns null s.log item took

/-- What one step may do to the owner. A `Push` that returns true has put
its item in; one that returns false found the queue full. A `TryPop`
takes the latest item there is, which nobody took before, and returns
it. -/
structure OwnerStepOk (k : Nat) (s s' : State α τ) : Prop where
  pushes : ∀ o, s.owner.pushing = some o →
    s'.log = s.log
        ∧ (s'.owner.pushing = some o ∨ s'.owner = .pushed false)
      ∨ s'.log = s.log ++ [o] ∧ s'.deque = s.deque.push
        ∧ s'.owner = .pushed true
  refuses : s.owner ≠ .pushed false → s'.owner = .pushed false →
    s.deque.inside.length = kMaxSize k ∧ ∃ o b, s.owner = .pushLoadTop o b
  pops : ∀ took, s.owner.decision = none →
    s'.owner.decision = some took →
    took = s.deque.inside.getLast? ∧ s'.deque = s.deque.popBack
      ∧ ∀ n, took = some n → (∀ m ∈ s.deque.inside, m ≤ n)
        ∧ n ∉ s.deque.popped ∧ n ∉ s.deque.stolen
  returns : ∀ took, s.owner.decision = some took →
    s'.owner.decision = some took
      ∨ (∃ item, s.owner = .popped item took) ∧ s'.owner = .idle

/-- What one step may do to the thieves. A `Steal` that finds something
takes the earliest item there is, which nobody took before, and returns
it. -/
structure ThiefStepOk (s s' : State α τ) : Prop where
  steals : ∀ i took, (s.thieves i).result = none →
    (s'.thieves i).result = some took →
    took = none ∧ s'.deque = s.deque
      ∨ ∃ n, took = some n ∧ s.deque.inside.head? = some n
        ∧ s'.deque = s.deque.popFront ∧ (∀ m ∈ s.deque.inside, n ≤ m)
        ∧ n ∉ s.deque.popped ∧ n ∉ s.deque.stolen
  hands : ∀ i took, (s.thieves i).result = some took →
    s'.thieves i = s.thieves i ∨ s'.thieves i = .idle

/-- What one step may do. What was taken stays taken, and nothing leaves
the queue but to an operation that returns it. -/
structure StepOk (k : Nat) (s s' : State α τ) : Prop extends
    OwnerStepOk k s s', ThiefStepOk s s' where
  kept : s.deque.popped <+: s'.deque.popped
    ∧ s.deque.stolen <+: s'.deque.stolen
  popper : ∀ n ∈ s'.deque.popped, n ∉ s.deque.popped →
    s.owner.decision = none ∧ s'.owner.decision = some (some n)
  thief : ∀ n ∈ s'.deque.stolen, n ∉ s.deque.stolen →
    ∃ i, (s.thieves i).result = none
      ∧ (s'.thieves i).result = some (some n)

omit [DecidableEq τ] in
theorem Inv.accounted (h : Inv k null s) : Accounted k null s where
  once n hn := h.ledger.count_eq_one (by rw [h.arrived]; exact hn)
  known n hn := by
    rw [← h.arrived]
    exact h.ledger.lt_arrived hn
  kept := h.holds
  fits := h.room
  stealOrder := (List.pairwise_append.mp h.ledger.sorted).1
  popped item took hpc := by
    have := h.owner
    rw [hpc] at this
    exact this
  stole i item took hpc := by
    have := h.thieves i
    rw [hpc] at this
    exact this

omit [DecidableEq τ] in
/-- Nothing happens to an owner that stays or starts an operation. -/
theorem OwnerStepOk.frame (hlog : s'.log = s.log)
    (howner : s'.owner = s.owner ∨ s.owner = .idle
      ∧ ((∃ o, s'.owner = .pushLoadBottom o)
        ∨ s'.owner = .popLoadBottom)) : OwnerStepOk k s s' := by
  rcases howner with heq | ⟨hidle, hnew⟩
  · refine ⟨fun o hpush => .inl ⟨hlog, .inl ?_⟩, fun hbefore hafter => ?_,
      fun took hbefore hafter => ?_, fun took hbefore => .inl ?_⟩
    · rw [heq]
      exact hpush
    · rw [heq] at hafter
      exact absurd hafter hbefore
    · rw [heq, hbefore] at hafter
      cases hafter
    · rw [heq]
      exact hbefore
  · have hundecided : s'.owner.decision = none ∧ s'.owner ≠ .pushed false := by
      rcases hnew with ⟨o, hnew⟩ | hnew <;> rw [hnew] <;>
        exact ⟨rfl, fun h => by cases h⟩
    refine ⟨fun o hpush => ?_, fun _ hafter => absurd hafter hundecided.2,
      fun took _ hafter => ?_, fun took hbefore => ?_⟩
    · rw [hidle] at hpush
      cases hpush
    · rw [hundecided.1] at hafter
      cases hafter
    · rw [hidle] at hbefore
      cases hbefore

omit [DecidableEq τ] in
theorem OwnerStepOk.move (h : Inv k null s)
    (hmove : OwnerMove k s s' s.owner) : OwnerStepOk k s s' := by
  cases hmove with
  | goes hlog hdeque hpushing hdecision hopen =>
      refine ⟨fun o hpush => .inl ⟨hlog, .inl (hpushing.trans hpush)⟩,
        fun _ hafter => absurd hafter hopen, fun took hbefore hafter => ?_,
        fun took hbefore => .inl (hdecision.trans hbefore)⟩
      rw [hdecision, hbefore] at hafter
      cases hafter
  | refuses hlog hdeque hpc hfull hafter =>
      refine ⟨fun o _ => .inl ⟨hlog, .inr hafter⟩, fun _ _ => ⟨hfull, _, _, hpc⟩,
        ?_, ?_⟩
      · rw [hafter]
        nofun
      · rw [hpc]
        nofun
  | puts hpc hlog hdeque hafter =>
      refine ⟨fun o hpush => ?_, ?_, ?_, ?_⟩
      · rw [hpc] at hpush
        cases hpush
        exact .inr ⟨hlog, hdeque, hafter⟩
      · rw [hafter]
        nofun
      · rw [hafter]
        nofun
      · rw [hpc]
        nofun
  | takes hpushing hbefore hdeque hafter hopen =>
      refine ⟨by rw [hpushing]; nofun, fun _ h => absurd h hopen,
        fun took _ htook => ?_, by rw [hbefore]; nofun⟩
      cases hafter.symm.trans htook
      refine ⟨rfl, hdeque, fun n hn => ?_⟩
      exact ⟨fun m hm => h.ledger.le_getLast hn hm,
        h.ledger.not_left (List.mem_of_getLast? hn)⟩
  | returns hdeque hpushing hpc hafter =>
      refine ⟨by rw [hpushing]; nofun, by rw [hafter]; nofun,
        by rw [hafter]; nofun, fun took hbefore => .inr ⟨?_, hafter⟩⟩
      exact hpc took hbefore

omit [DecidableEq τ] in
theorem ThiefStepOk.frame (hthieves : ∀ i, s'.thieves i = s.thieves i
      ∨ (s.thieves i).result = none ∧ (s'.thieves i).result = none) :
    ThiefStepOk s s' where
  steals i took hbefore hafter := by
    rcases hthieves i with heq | ⟨-, hnone⟩
    · rw [heq, hbefore] at hafter
      cases hafter
    · rw [hnone] at hafter
      cases hafter
  hands i took hbefore := by
    rcases hthieves i with heq | ⟨hnone, -⟩
    · exact .inl heq
    · rw [hnone] at hbefore
      cases hbefore

omit [DecidableEq τ] in
theorem ThiefStepOk.move (h : Inv k null s) {i : τ}
    (hothers : ∀ j, j ≠ i → s'.thieves j = s.thieves j)
    (hmove : ThiefMove s.deque s'.deque (s.thieves i) (s'.thieves i)) :
    ThiefStepOk s s' where
  steals j took hbefore hafter := by
    by_cases hj : j = i
    · subst hj
      cases hmove with
      | goes _ _ hnone =>
          rw [hnone] at hafter
          cases hafter
      | misses hsame _ hmiss =>
          cases hmiss.symm.trans hafter
          exact .inl ⟨rfl, hsame⟩
      | @takes n hfront htaken _ htook =>
          cases htook.symm.trans hafter
          exact .inr ⟨n, rfl, hfront, htaken,
            fun m hm => h.ledger.head_le hfront hm,
            h.ledger.not_left (List.mem_of_head? hfront)⟩
      | returns _ hidle =>
          rw [hidle] at hafter
          cases hafter
    · rw [hothers j hj, hbefore] at hafter
      cases hafter
  hands j took hbefore := by
    by_cases hj : j = i
    · subst hj
      cases hmove with
      | goes _ hnone _ | misses _ hnone _ | takes _ _ hnone _ =>
          rw [hnone] at hbefore
          cases hbefore
      | returns _ hidle => exact .inr hidle
    · exact .inl (hothers j hj)

omit [DecidableEq τ] in
/-- A step that leaves the ledger alone. -/
theorem StepOk.same (howner : OwnerStepOk k s s')
    (hthieves : ThiefStepOk s s') (hdeque : s'.deque = s.deque) :
    StepOk k s s' where
  toOwnerStepOk := howner
  toThiefStepOk := hthieves
  kept := by
    rw [hdeque]
    exact ⟨List.prefix_rfl, List.prefix_rfl⟩
  popper n hn hnew := absurd (hdeque ▸ hn) hnew
  thief n hn hnew := absurd (hdeque ▸ hn) hnew

omit [DecidableEq τ] in
/-- A step of the owner. -/
theorem stepOk_owner (h : Inv k null s)
    (hs : execOwner k null s s.owner = some s') : StepOk k s s' := by
  obtain ⟨hthieves, hmove⟩ := execOwner_moves h hs
  have hown : OwnerStepOk k s s' := .move h hmove
  have hthief : ThiefStepOk s s' := .frame fun i => .inl (by rw [hthieves])
  cases hmove with
  | goes _ hdeque | refuses _ hdeque | returns hdeque =>
      exact .same hown hthief hdeque
  | puts _ _ hdeque =>
      refine ⟨hown, hthief, ?_, fun n hn hnew => ?_, fun n hn hnew => ?_⟩
      · rw [hdeque]
        exact ⟨List.prefix_rfl, List.prefix_rfl⟩
      · rw [hdeque] at hn
        exact absurd hn hnew
      · rw [hdeque] at hn
        exact absurd hn hnew
  | takes _ hbefore hdeque hafter =>
      refine ⟨hown, hthief, ?_, fun n hn hnew => ?_, fun n hn hnew => ?_⟩
      · rw [hdeque, Deque.popBack_popped, Deque.popBack_stolen]
        exact ⟨List.prefix_append .., List.prefix_rfl⟩
      · rw [hdeque, Deque.popBack_popped, List.mem_append] at hn
        have hlast := Option.mem_toList.mp (hn.resolve_left hnew)
        exact ⟨hbefore, hafter.trans (congrArg some hlast)⟩
      · rw [hdeque, Deque.popBack_stolen] at hn
        exact absurd hn hnew

/-- A step of a thief. -/
theorem stepOk_thief (h : Inv k null s) {i : τ}
    (hs : execThief k null i s (s.thieves i) = some s') :
    StepOk k s s' := by
  obtain ⟨howner, hlog, hothers, hmove⟩ := execThief_moves h hs
  have hown : OwnerStepOk k s s' := .frame hlog (.inl howner)
  have hthief : ThiefStepOk s s' := .move h hothers hmove
  cases hmove with
  | goes hsame | misses hsame | returns hsame =>
      exact .same hown hthief hsame
  | @takes n hfront htaken hbefore hafter =>
      rw [Deque.popFront_of_head hfront] at htaken
      refine ⟨hown, hthief, ?_, fun m hm hnew => ?_, fun m hm hnew => ?_⟩
      · rw [htaken]
        exact ⟨List.prefix_rfl, List.prefix_append ..⟩
      · rw [htaken] at hm
        exact absurd hm hnew
      · rw [htaken] at hm
        obtain rfl := List.mem_singleton.mp
          ((List.mem_append.mp hm).resolve_left hnew)
        exact ⟨i, hbefore, hafter⟩

theorem stepOk_apply {a : Action α τ} (h : Inv k null s)
    (hs : apply k null a s = some s') : StepOk k s s' := by
  cases a with
  | push o =>
      simp only [apply] at hs
      split at hs <;> cases hs
      next hidle =>
        exact .same (.frame rfl (.inr ⟨hidle, .inl ⟨o, rfl⟩⟩))
          (.frame fun _ => .inl rfl) rfl
  | tryPop =>
      simp only [apply] at hs
      split at hs <;> cases hs
      next hidle =>
        exact .same (.frame rfl (.inr ⟨hidle, .inr rfl⟩))
          (.frame fun _ => .inl rfl) rfl
  | owner => exact stepOk_owner h hs
  | steal i =>
      simp only [apply] at hs
      split at hs <;> cases hs
      next hidle =>
        refine .same (.frame rfl (.inl rfl)) (.frame fun j => ?_) rfl
        by_cases hj : j = i
        · subst hj
          have hnow : (s.thiefTo j .loadTop).thieves j = .loadTop :=
            Function.update_self ..
          exact .inr ⟨by rw [hidle]; rfl, by rw [hnow]; rfl⟩
        · exact .inl (Function.update_of_ne hj ..)
  | thief i => exact stepOk_thief h hs

/-- In every interleaving of the owner with any number of thieves, each
item pushed is taken once or still there, and what is taken is returned
by the one operation that took it; steals come in push order, `TryPop`
takes the latest item, and `Push` fails on a full queue only. -/
theorem items_taken_once (k : Nat) (null : α) {s : State α τ}
    (h : (machine k null).Reachable s) :
    Accounted k null s
      ∧ ∀ a s', apply k null a s = some s' → StepOk k s s' := by
  have hinv := inv_reachable h
  exact ⟨hinv.accounted, fun _ _ hs => stepOk_apply hinv hs⟩

/-- One operation of the owner, and `n` of its steps. -/
def ownerOp (a : Action Nat Unit) (n : Nat) : List (Action Nat Unit) :=
  a :: List.replicate n Action.owner

/-- A `Steal`, and `n` of its steps. -/
def thiefOp (n : Nat) : List (Action Nat Unit) :=
  Action.steal () :: List.replicate n (Action.thief ())

/-- Two items, a thief that has read the front, and an owner that took
the back and races it for the front. -/
def raceRun : List (Action Nat Unit) :=
  List.flatten
    [ownerOp (.push 5) 4, ownerOp (.push 6) 4, thiefOp 3,
      ownerOp .tryPop 5, ownerOp .tryPop 4, [Action.thief ()]]

def raceState : State Nat Unit :=
  (machine 1 0).final raceRun { buffer := fun _ => 0 }

/-- The thief wins: both items are taken, the owner is about to find its
compare-exchange lost. -/
theorem raceState_accounted :
    raceState.deque = ⟨2, [], [1], [0]⟩
      ∧ raceState.thieves () = .stole 5 (some 0)
      ∧ Accounted 1 0 raceState
      ∧ ∀ a s', apply 1 0 a raceState = some s' → StepOk 1 raceState s' := by
  refine ⟨by decide +kernel, by decide +kernel, ?_⟩
  refine items_taken_once 1 0 ?_
  exact Machine.reachable_final ⟨_, rfl⟩ (by decide +kernel)

end AntRpc.Scheduler.Spmc
