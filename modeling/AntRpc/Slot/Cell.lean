/-
The life of one cell, apart from any program: who may touch it, when,
and what its word and fields say meanwhile.

# What a cell is for

A cell serves one allocation after another. Allocation number `g` of a
cell is taken off the free list by one thread, armed, lives while its
word says so, is seized by exactly one thread, is recorded, released,
and dispatched by that thread; or it is seized by its sender and
discarded. `Fate` is that story, `CellStep t` is what one step of thread
`t` may do to it.

# Why the rules are enough

Each rule that touches the fields or stores the word names the thread
that holds the cell, and only the two compare-and-swap rules act on a
cell nobody holds. So a thread that holds a cell sees it unchanged by
everybody else (`CellStep.frame`), and the word's state alone says
whether the cell can be seized (`CellInv.live_of_state`).
-/
import AntRpc.Slot.Basic

namespace AntRpc.Slot

variable {τ : Type}

/-- What became of one allocation. `fresh` is an allocation that has not
happened. -/
inductive Fate (τ : Type) where
  | fresh
  | allocating (t : τ)
  | live
  | holding (t : τ) (recorded : Bool)
  | released (t : τ)
  | dispatched
  | discarded
deriving DecidableEq

/-- The allocation no longer occupies its cell. -/
def Fate.Closed : Fate τ → Prop
  | .fresh | .released _ | .dispatched | .discarded => True
  | .allocating _ | .live | .holding _ _ => False

/-- How often a completion was recorded for an allocation with this
fate. -/
def Fate.recorded : Fate τ → Nat
  | .holding _ true | .released _ | .dispatched => 1
  | .fresh | .allocating _ | .live | .holding _ false | .discarded => 0

/-- How often the continuation of an allocation with this fate may have
been scheduled. -/
def Fate.maxDispatches : Fate τ → Nat
  | .dispatched => 1
  | .fresh | .allocating _ | .live | .holding _ _ | .released _
  | .discarded => 0

/-- The allocations of one cell so far: how many, with which arguments,
and what became of them. Allocation numbers start at 1. -/
structure CellLife (τ : Type) where
  gen : Nat := 0
  argsOf : Nat → CallArgs := fun _ => {}
  fate : Nat → Fate τ := fun _ => .fresh
  records : Nat → Nat := fun _ => 0
  dispatches : Nat → Nat := fun _ => 0

namespace CellLife

/-- A new allocation by `t`. -/
def pop (l : CellLife τ) (t : τ) (args : CallArgs) : CellLife τ :=
  { l with
    gen := l.gen + 1
    argsOf := Function.update l.argsOf (l.gen + 1) args
    fate := Function.update l.fate (l.gen + 1) (.allocating t) }

/-- The next chapter of allocation `g`. -/
def setFate (l : CellLife τ) (g : Nat) (f : Fate τ) : CellLife τ :=
  { l with fate := Function.update l.fate g f }

/-- A completion recorded for allocation `g`. -/
def record (l : CellLife τ) (g : Nat) : CellLife τ :=
  { l with records := Function.update l.records g (l.records g + 1) }

/-- The continuation of allocation `g` scheduled `n` times. -/
def dispatch (l : CellLife τ) (g n : Nat) : CellLife τ :=
  { l with dispatches := Function.update l.dispatches g (l.dispatches g + n) }

/-- The fate of the current allocation. -/
def now (l : CellLife τ) : Fate τ := l.fate l.gen

@[simp] theorem setFate_gen (l : CellLife τ) (g : Nat) (f : Fate τ) :
    (l.setFate g f).gen = l.gen := rfl

@[simp] theorem setFate_argsOf (l : CellLife τ) (g : Nat) (f : Fate τ) :
    (l.setFate g f).argsOf = l.argsOf := rfl

@[simp] theorem setFate_records (l : CellLife τ) (g : Nat) (f : Fate τ) :
    (l.setFate g f).records = l.records := rfl

@[simp] theorem setFate_dispatches (l : CellLife τ) (g : Nat)
    (f : Fate τ) : (l.setFate g f).dispatches = l.dispatches := rfl

theorem setFate_fate (l : CellLife τ) (g h : Nat) (f : Fate τ) :
    (l.setFate g f).fate h = if h = g then f else l.fate h :=
  Function.update_apply ..

theorem pop_fate (l : CellLife τ) (t : τ) (args : CallArgs) (h : Nat) :
    (l.pop t args).fate h
      = if h = l.gen + 1 then .allocating t else l.fate h :=
  Function.update_apply ..

theorem pop_argsOf (l : CellLife τ) (t : τ) (args : CallArgs) (h : Nat) :
    (l.pop t args).argsOf h
      = if h = l.gen + 1 then args else l.argsOf h :=
  Function.update_apply ..

@[simp] theorem pop_gen (l : CellLife τ) (t : τ) (args : CallArgs) :
    (l.pop t args).gen = l.gen + 1 := rfl

@[simp] theorem pop_now (l : CellLife τ) (t : τ) (args : CallArgs) :
    (l.pop t args).now = .allocating t :=
  Function.update_self ..

@[simp] theorem record_gen (l : CellLife τ) (g : Nat) :
    (l.record g).gen = l.gen := rfl

@[simp] theorem record_fate (l : CellLife τ) (g : Nat) :
    (l.record g).fate = l.fate := rfl

@[simp] theorem record_argsOf (l : CellLife τ) (g : Nat) :
    (l.record g).argsOf = l.argsOf := rfl

@[simp] theorem record_dispatches (l : CellLife τ) (g : Nat) :
    (l.record g).dispatches = l.dispatches := rfl

theorem record_records (l : CellLife τ) (g h : Nat) :
    (l.record g).records h
      = if h = g then l.records g + 1 else l.records h :=
  Function.update_apply ..

@[simp] theorem dispatch_gen (l : CellLife τ) (g n : Nat) :
    (l.dispatch g n).gen = l.gen := rfl

@[simp] theorem dispatch_fate (l : CellLife τ) (g n : Nat) :
    (l.dispatch g n).fate = l.fate := rfl

@[simp] theorem dispatch_argsOf (l : CellLife τ) (g n : Nat) :
    (l.dispatch g n).argsOf = l.argsOf := rfl

@[simp] theorem dispatch_records (l : CellLife τ) (g n : Nat) :
    (l.dispatch g n).records = l.records := rfl

theorem dispatch_dispatches (l : CellLife τ) (g n h : Nat) :
    (l.dispatch g n).dispatches h
      = if h = g then l.dispatches g + n else l.dispatches h :=
  Function.update_apply ..

theorem setFate_now_eq (l : CellLife τ) (g : Nat) (f : Fate τ) :
    (l.setFate g f).now = if l.gen = g then f else l.now :=
  setFate_fate ..

@[simp] theorem setFate_now (l : CellLife τ) (f : Fate τ) :
    (l.setFate l.gen f).now = f :=
  Function.update_self ..

end CellLife

/-- A cell and its story. -/
structure CellView (τ : Type) where
  word : Lifecycle
  fields : CallArgs
  life : CellLife τ

/-- What one step of thread `t` may do to a cell. -/
inductive CellStep (t : τ) (v : CellView τ) : CellView τ → Prop
  | stay : CellStep t v v
  | pop (args : CallArgs) (h : v.life.now.Closed) :
      CellStep t v { v with life := v.life.pop t args }
  | write (h : v.life.now = .allocating t) :
      CellStep t v { v with fields := v.life.argsOf v.life.gen }
  | arm (h : v.life.now = .allocating t)
      (hf : v.fields = v.life.argsOf v.life.gen) :
      CellStep t v
        { v with
          word := ⟨v.word.version + 1, .arming⟩
          life := v.life.setFate v.life.gen .live }
  | shift (st : SlotState) (h : v.word.state.Live) (hst : st.Live) :
      CellStep t v { v with word := ⟨v.word.version, st⟩ }
  | seize (st : SlotState) (h : v.word.state.Live) (hst : ¬ st.Live) :
      CellStep t v
        { v with
          word := ⟨v.word.version, st⟩
          life := v.life.setFate v.life.gen (.holding t false) }
  | record (h : v.life.now = .holding t false) :
      CellStep t v
        { v with
          life := (v.life.record v.life.gen).setFate v.life.gen
            (.holding t true) }
  | clear (b : Bool) (h : v.life.now = .holding t b) :
      CellStep t v { v with fields := {} }
  | storeFree (b : Bool) (h : v.life.now = .holding t b) :
      CellStep t v { v with word := ⟨v.word.version, .free⟩ }
  | release (h : v.life.now = .holding t true)
      (hw : v.word.state = .free) :
      CellStep t v
        { v with life := v.life.setFate v.life.gen (.released t) }
  | discard (h : v.life.now = .holding t false)
      (hw : v.word.state = .free) :
      CellStep t v
        { v with life := v.life.setFate v.life.gen .discarded }
  | dispatch (g n : Nat) (hn : n ≤ 1) (h : v.life.fate g = .released t) :
      CellStep t v
        { v with life := (v.life.dispatch g n).setFate g .dispatched }

-- == invariant

/-- What word, fields and story say about each other. -/
structure CellInv (v : CellView τ) : Prop where
  /-- Taken off the free list, not yet armed. -/
  allocating : ∀ t, v.life.now = .allocating t →
    0 < v.life.gen ∧ v.word.state = .free
      ∧ v.word.version + 1 = UInt32.ofNat v.life.gen
  /-- A live cell has a live word, its allocation's version and its
  allocation's arguments. -/
  live : v.life.now = .live →
    0 < v.life.gen ∧ v.word.state.Live
      ∧ v.word.version = UInt32.ofNat v.life.gen
      ∧ v.fields = v.life.argsOf v.life.gen
  /-- A held cell cannot be seized again. -/
  holding : ∀ t b, v.life.now = .holding t b →
    0 < v.life.gen ∧ ¬ v.word.state.Live
      ∧ v.word.version = UInt32.ofNat v.life.gen
  /-- An unoccupied cell is free. -/
  closed : v.life.now.Closed →
    v.word.state = .free ∧ v.word.version = UInt32.ofNat v.life.gen
  /-- Only the current allocation occupies the cell. -/
  older : ∀ g, g < v.life.gen → (v.life.fate g).Closed
  newer : ∀ g, v.life.gen < g → v.life.fate g = .fresh
  /-- Completions and dispatches are what the fates say. -/
  records : ∀ g, v.life.records g = (v.life.fate g).recorded
  dispatches : ∀ g, v.life.dispatches g ≤ (v.life.fate g).maxDispatches

/-- A live word means a live allocation. -/
theorem CellInv.live_of_state {v : CellView τ} (hv : CellInv v)
    (h : v.word.state.Live) : v.life.now = .live := by
  cases hnow : v.life.now with
  | live => rfl
  | allocating t =>
      rw [(hv.allocating t hnow).2.1] at h
      exact absurd h SlotState.free_not_live
  | holding t b => exact absurd h (hv.holding t b hnow).2.1
  | fresh | released | dispatched | discarded =>
      rw [(hv.closed (by rw [hnow]; trivial)).1] at h
      exact absurd h SlotState.free_not_live

/-- The rules keep the invariant when they only turn the page of the
current allocation. -/
theorem CellInv.setFate {v : CellView τ} (hv : CellInv v) {f : Fate τ}
    {word : Lifecycle} {fields : CallArgs}
    (halloc : ∀ t, f = .allocating t → 0 < v.life.gen
      ∧ word.state = .free
      ∧ word.version + 1 = UInt32.ofNat v.life.gen)
    (hlive : f = .live → 0 < v.life.gen ∧ word.state.Live
      ∧ word.version = UInt32.ofNat v.life.gen
      ∧ fields = v.life.argsOf v.life.gen)
    (hhold : ∀ t b, f = .holding t b → 0 < v.life.gen
      ∧ ¬ word.state.Live ∧ word.version = UInt32.ofNat v.life.gen)
    (hclosed : f.Closed → word.state = .free
      ∧ word.version = UInt32.ofNat v.life.gen)
    (hrec : v.life.now.recorded = f.recorded)
    (hdis : v.life.now.maxDispatches = 0) :
    CellInv ⟨word, fields, v.life.setFate v.life.gen f⟩ where
  allocating t h := halloc t (by simpa using h)
  live h := hlive (by simpa using h)
  holding t b h := hhold t b (by simpa using h)
  closed h := hclosed (by simpa using h)
  older g hg := by
    have hne : g ≠ v.life.gen := Nat.ne_of_lt hg
    rw [CellLife.setFate_fate, if_neg hne]
    exact hv.older g hg
  newer g hg := by
    have hne : g ≠ v.life.gen := Nat.ne_of_gt hg
    rw [CellLife.setFate_fate, if_neg hne]
    exact hv.newer g hg
  records g := by
    rw [CellLife.setFate_fate]
    split
    · next h => rw [h]; exact (hv.records _).trans hrec
    · exact hv.records g
  dispatches g := by
    rw [CellLife.setFate_fate]
    split
    · next h =>
      rw [h]
      exact (hv.dispatches _).trans (hdis ▸ Nat.zero_le _)
    · exact hv.dispatches g

theorem cellInv_init : CellInv (τ := τ) ⟨⟨0, .free⟩, {}, {}⟩ where
  allocating t h := by cases h
  live h := by cases h
  holding t b h := by cases h
  closed _ := ⟨rfl, rfl⟩
  older g hg := absurd hg (Nat.not_lt_zero g)
  newer g _ := rfl
  records g := rfl
  dispatches g := Nat.le_refl _

/-- A new allocation of an unoccupied cell. -/
theorem CellInv.pop {v : CellView τ} (hv : CellInv v) (t : τ)
    (args : CallArgs) (h : v.life.now.Closed) :
    CellInv { v with life := v.life.pop t args } where
  allocating u _ := by
    obtain ⟨hfree, hver⟩ := hv.closed h
    refine ⟨Nat.succ_pos _, hfree, ?_⟩
    rw [hver, CellLife.pop_gen, UInt32.ofNat_add]
    rfl
  live hl := by simp at hl
  holding u b hl := by simp at hl
  closed hl := by
    simp only [CellLife.pop_now] at hl
    exact hl.elim
  older g hg := by
    simp only [CellLife.pop_gen] at hg
    rw [CellLife.pop_fate, if_neg (by omega)]
    by_cases hlt : g < v.life.gen
    · exact hv.older g hlt
    · have heq : g = v.life.gen := by omega
      exact heq ▸ h
  newer g hg := by
    simp only [CellLife.pop_gen] at hg
    rw [CellLife.pop_fate, if_neg (by omega)]
    exact hv.newer g (by omega)
  records g := by
    rw [CellLife.pop_fate]
    split
    · next heq =>
      have hrec := hv.records g
      rw [hv.newer g (by omega)] at hrec
      exact hrec
    · exact hv.records g
  dispatches g := by
    rw [CellLife.pop_fate]
    split
    · next heq =>
      have hdis := hv.dispatches g
      rw [hv.newer g (by omega)] at hdis
      exact hdis
    · exact hv.dispatches g

/-- A completion recorded by the holder. -/
theorem CellInv.record {v : CellView τ} (hv : CellInv v) {t : τ}
    (h : v.life.now = .holding t false) :
    CellInv { v with
      life := (v.life.record v.life.gen).setFate v.life.gen
        (.holding t true) } := by
  have hnow : ((v.life.record v.life.gen).setFate v.life.gen
      (.holding t true)).now = .holding t true := by
    rw [CellLife.setFate_now_eq, CellLife.record_gen, if_pos rfl]
  refine ⟨?_, ?_, ?_, ?_, ?_, ?_, ?_, ?_⟩
  · intro u hu
    rw [hnow] at hu
    cases hu
  · intro hl
    rw [hnow] at hl
    cases hl
  · intro u b _
    exact hv.holding t false h
  · intro hc
    rw [hnow] at hc
    exact hc.elim
  · intro g hg
    have hne : g ≠ v.life.gen := Nat.ne_of_lt hg
    rw [CellLife.setFate_fate, if_neg hne]
    exact hv.older g hg
  · intro g hg
    have hne : g ≠ v.life.gen := Nat.ne_of_gt hg
    rw [CellLife.setFate_fate, if_neg hne]
    exact hv.newer g hg
  · intro g
    rw [CellLife.setFate_fate, CellLife.setFate_records,
      CellLife.record_records]
    split
    · have hrec : v.life.records v.life.gen = v.life.now.recorded :=
        hv.records _
      rw [hrec, h]
      rfl
    · exact hv.records g
  · intro g
    rw [CellLife.setFate_fate, CellLife.setFate_dispatches,
      CellLife.record_dispatches]
    split
    · next heq =>
      have hdis : v.life.dispatches v.life.gen
          ≤ v.life.now.maxDispatches := hv.dispatches _
      rw [h] at hdis
      rw [heq]
      exact hdis
    · exact hv.dispatches g

/-- The continuation handed over by the thread that released the cell. -/
theorem CellInv.dispatch {v : CellView τ} (hv : CellInv v) {t : τ}
    {g n : Nat} (hn : n ≤ 1) (h : v.life.fate g = .released t) :
    CellInv { v with
      life := (v.life.dispatch g n).setFate g .dispatched } := by
  -- current or not, the allocation was closed and stays closed
  have hnow : ((v.life.dispatch g n).setFate g .dispatched).now = v.life.now
      ∨ v.life.now = .released t
        ∧ ((v.life.dispatch g n).setFate g .dispatched).now
            = .dispatched := by
    rw [CellLife.setFate_now_eq, CellLife.dispatch_gen]
    split
    · next heq => exact Or.inr ⟨by rw [CellLife.now, heq, h], rfl⟩
    · exact Or.inl rfl
  refine ⟨?_, ?_, ?_, ?_, ?_, ?_, ?_, ?_⟩
  · intro u hu
    rcases hnow with hnow | ⟨-, hnow⟩
    · exact hv.allocating u (hnow.symm.trans hu)
    · rw [hnow] at hu
      cases hu
  · intro hl
    rcases hnow with hnow | ⟨-, hnow⟩
    · exact hv.live (hnow.symm.trans hl)
    · rw [hnow] at hl
      cases hl
  · intro u b hu
    rcases hnow with hnow | ⟨-, hnow⟩
    · exact hv.holding u b (hnow.symm.trans hu)
    · rw [hnow] at hu
      cases hu
  · intro hc
    rcases hnow with hnow | ⟨hrel, -⟩
    · rw [hnow] at hc
      exact hv.closed hc
    · exact hv.closed (by rw [hrel]; trivial)
  · intro g' hg
    rw [CellLife.setFate_fate]
    split
    · trivial
    · exact hv.older g' hg
  · intro g' hg
    rw [CellLife.setFate_fate]
    split
    · next heq =>
      have hfresh := hv.newer g' hg
      rw [heq, h] at hfresh
      cases hfresh
    · exact hv.newer g' hg
  · intro g'
    rw [CellLife.setFate_fate, CellLife.setFate_records,
      CellLife.dispatch_records, hv.records]
    split
    · next heq => rw [heq, h]; rfl
    · rfl
  · intro g'
    have hdis := hv.dispatches g
    rw [h] at hdis
    rw [CellLife.setFate_fate, CellLife.setFate_dispatches,
      CellLife.dispatch_dispatches]
    split
    · have hzero : v.life.dispatches g = 0 := Nat.le_zero.mp hdis
      rw [hzero, Nat.zero_add]
      exact hn
    · exact hv.dispatches g'

/-- Every rule keeps the invariant. -/
theorem CellStep.inv {t : τ} {v v' : CellView τ} (hs : CellStep t v v')
    (hv : CellInv v) : CellInv v' := by
  cases hs with
  | stay => exact hv
  | pop args h => exact hv.pop t args h
  | write h =>
      refine { hv with live := ?_ }
      intro hl
      rw [h] at hl
      cases hl
  | arm h hf =>
      obtain ⟨hpos, -, hver⟩ := hv.allocating t h
      refine hv.setFate nofun ?_ nofun nofun (by rw [h]; rfl)
        (by rw [h]; rfl)
      intro _
      exact ⟨hpos, Or.inl rfl, hver, hf⟩
  | shift st h hst =>
      have hl := hv.live_of_state h
      obtain ⟨hpos, -, hver, hfields⟩ := hv.live hl
      refine { hv with
        allocating := ?_, live := ?_, holding := ?_, closed := ?_ }
      · intro u hu
        rw [hl] at hu
        cases hu
      · intro _
        exact ⟨hpos, hst, hver, hfields⟩
      · intro u b hu
        rw [hl] at hu
        cases hu
      · intro hc
        rw [hl] at hc
        exact hc.elim
  | seize st h hst =>
      have hl := hv.live_of_state h
      obtain ⟨hpos, -, hver, -⟩ := hv.live hl
      refine hv.setFate nofun nofun ?_ nofun (by rw [hl]; rfl)
        (by rw [hl]; rfl)
      intro u b _
      exact ⟨hpos, hst, hver⟩
  | record h =>
      exact hv.record h
  | clear b h =>
      refine { hv with live := ?_ }
      intro hl
      rw [h] at hl
      cases hl
  | storeFree b h =>
      obtain ⟨hpos, -, hver⟩ := hv.holding t b h
      refine { hv with
        allocating := ?_, live := ?_, holding := ?_, closed := ?_ }
      · intro u hu
        rw [h] at hu
        cases hu
      · intro hl
        rw [h] at hl
        cases hl
      · intro u b' _
        exact ⟨hpos, SlotState.free_not_live, hver⟩
      · intro hc
        rw [h] at hc
        exact hc.elim
  | release h hw =>
      obtain ⟨-, -, hver⟩ := hv.holding t true h
      exact hv.setFate nofun nofun nofun (fun _ => ⟨hw, hver⟩)
        (by rw [h]; rfl) (by rw [h]; rfl)
  | discard h hw =>
      obtain ⟨-, -, hver⟩ := hv.holding t false h
      exact hv.setFate nofun nofun nofun (fun _ => ⟨hw, hver⟩)
        (by rw [h]; rfl) (by rw [h]; rfl)
  | dispatch g n hn h => exact hv.dispatch hn h

-- == frame

/-- Thread `u` holds the cell, as its allocator or as its winner. -/
def CellView.HeldBy (v : CellView τ) (u : τ) : Prop :=
  v.life.now = .allocating u ∨ ∃ b, v.life.now = .holding u b

/-- What a holder relies on while it does not step. -/
structure SameCell (v v' : CellView τ) : Prop where
  word : v'.word = v.word
  fields : v'.fields = v.fields
  gen : v'.life.gen = v.life.gen
  argsOf : v'.life.argsOf = v.life.argsOf
  now : v'.life.now = v.life.now

/-- A held cell is left alone by everybody else. -/
theorem CellStep.frame {t u : τ} {v v' : CellView τ}
    (hs : CellStep t v v') (hv : CellInv v) (hne : u ≠ t)
    (hu : v.HeldBy u) : SameCell v v' := by
  have hnlive : ¬ v.word.state.Live := by
    intro hl
    have hnow := hv.live_of_state hl
    rcases hu with hu | ⟨b, hu⟩ <;> rw [hnow] at hu <;> cases hu
  have halloc : v.life.now ≠ .allocating t := by
    rintro h
    rcases hu with hu | ⟨b, hu⟩ <;> rw [h] at hu <;> cases hu
    exact hne rfl
  have hhold : ∀ b, v.life.now ≠ .holding t b := by
    rintro b h
    rcases hu with hu | ⟨b', hu⟩ <;> rw [h] at hu <;> cases hu
    exact hne rfl
  have hopen : ¬ v.life.now.Closed := by
    rcases hu with hu | ⟨b', hu⟩ <;> rw [hu] <;> exact id
  cases hs with
  | stay => exact ⟨rfl, rfl, rfl, rfl, rfl⟩
  | pop args h => exact absurd h hopen
  | write h => exact absurd h halloc
  | arm h hf => exact absurd h halloc
  | shift st h hst => exact absurd h hnlive
  | seize st h hst => exact absurd h hnlive
  | record h | clear b h | storeFree b h | release h hw | discard h hw =>
      exact absurd h (hhold _)
  | dispatch g n hn h =>
      refine ⟨rfl, rfl, rfl, rfl, ?_⟩
      rw [CellLife.setFate_now_eq, CellLife.dispatch_gen, if_neg]
      · rfl
      · intro heq
        rw [CellLife.now, heq, h] at hopen
        exact hopen trivial

/-- A released allocation waits for the thread that released it. -/
theorem CellStep.frame_released {t u : τ} {v v' : CellView τ} {g : Nat}
    (hs : CellStep t v v') (hv : CellInv v) (hne : u ≠ t)
    (hu : v.life.fate g = .released u) : v'.life.fate g = .released u := by
  have hgen : ∀ f : Fate τ, v.life.now = f → f ≠ .released u →
      g ≠ v.life.gen := by
    rintro f hf hfu rfl
    exact hfu (hf.symm.trans hu)
  have hpage : ∀ (f f' : Fate τ), v.life.now = f → f ≠ .released u →
      (v.life.setFate v.life.gen f').fate g = .released u := by
    intro f f' hf hfu
    rw [CellLife.setFate_fate, if_neg (hgen f hf hfu)]
    exact hu
  cases hs with
  | stay => exact hu
  | pop args h =>
      have hle : ¬ v.life.gen < g := by
        intro hlt
        rw [hv.newer g hlt] at hu
        cases hu
      rw [CellLife.pop_fate, if_neg (by omega)]
      exact hu
  | write h => exact hu
  | arm h hf | record h | release h hw | discard h hw =>
      exact hpage _ _ h nofun
  | shift st h hst => exact hu
  | seize st h hst => exact hpage _ _ (hv.live_of_state h) nofun
  | clear b h => exact hu
  | storeFree b h => exact hu
  | dispatch g' n hn h =>
      rw [CellLife.setFate_fate, if_neg]
      · exact hu
      · rintro rfl
        rw [h] at hu
        cases hu
        exact hne rfl

/-- Allocations are only added. -/
theorem CellStep.gen_le {t : τ} {v v' : CellView τ}
    (hs : CellStep t v v') : v.life.gen ≤ v'.life.gen := by
  cases hs <;> simp

/-- The arguments of an allocation never change. -/
theorem CellStep.argsOf_eq {t : τ} {v v' : CellView τ}
    (hs : CellStep t v v') {g : Nat} (hg : g ≤ v.life.gen) :
    v'.life.argsOf g = v.life.argsOf g := by
  cases hs with
  | pop args h =>
      rw [CellLife.pop_argsOf, if_neg (by omega)]
  | _ => rfl

/-- What a step leaves of a live cell. -/
theorem CellStep.of_live {t : τ} {v v' : CellView τ}
    (hs : CellStep t v v') (hv : CellInv v) (hl : v.word.state.Live) :
    v'.life.gen = v.life.gen ∧ v'.life.argsOf = v.life.argsOf
      ∧ v'.word.version = v.word.version := by
  have hnow := hv.live_of_state hl
  have hne : ∀ f : Fate τ, v.life.now = f → f = .live :=
    fun f hf => hf.symm.trans hnow
  cases hs with
  | stay | shift | seize | dispatch => exact ⟨rfl, rfl, rfl⟩
  | pop args h =>
      rw [hnow] at h
      exact h.elim
  | write h | arm h | record h | clear b h | storeFree b h | release h
  | discard h => exact absurd (hne _ h) nofun

/-- A discarded allocation stays discarded. -/
theorem CellStep.discarded {t : τ} {v v' : CellView τ} {g : Nat}
    (hs : CellStep t v v') (hv : CellInv v)
    (hd : v.life.fate g = .discarded) : v'.life.fate g = .discarded := by
  have hpage : ∀ (f f' : Fate τ), v.life.now = f → f ≠ .discarded →
      (v.life.setFate v.life.gen f').fate g = .discarded := by
    intro f f' hf hfd
    rw [CellLife.setFate_fate, if_neg]
    · exact hd
    · rintro rfl
      exact hfd (hf.symm.trans hd)
  cases hs with
  | stay => exact hd
  | pop args h =>
      have hle : ¬ v.life.gen < g := by
        intro hlt
        rw [hv.newer g hlt] at hd
        cases hd
      rw [CellLife.pop_fate, if_neg (by omega)]
      exact hd
  | write h => exact hd
  | arm h hf | record h | release h hw | discard h hw =>
      exact hpage _ _ h nofun
  | shift st h hst => exact hd
  | seize st h hst => exact hpage _ _ (hv.live_of_state h) nofun
  | clear b h => exact hd
  | storeFree b h => exact hd
  | dispatch g' n hn h =>
      rw [CellLife.setFate_fate, if_neg]
      · exact hd
      · rintro rfl
        rw [h] at hd
        cases hd

end AntRpc.Slot
