/-
The parent of `when_any` goes on exactly once, unless a task completes in
the window `await_suspend` leaves open.

# The window

`await_suspend` clears `starting` and then reads `winner`. A task that
wins before the clear and reads `starting` after it, or wins between the
two, resumes the parent although `await_suspend` returns false. `apart`
keeps runs out of it: no winner is about to read `starting` when it is
cleared, and no task wins before `winner` is read.

# The invariant

`Kept` are the facts that need no condition: the flag goes with
`await_suspend`, and only the winner comes past its compare-and-swap.
`Settled` says for each point of the winner's `Complete` where
`await_suspend` can be and what the parent has been told. `Faithful` is
about what it took.
-/
import AntRpc.Coroutine.WhenAny

namespace AntRpc.Coroutine

open Lib

variable {ε α φ ψ κ : Type}

/-- The steps outside the window. -/
def apart (s : State ε φ ψ κ) : Action ε φ ψ → Bool
  | .await =>
      s.await != .clearStarting
        || (s.tasks .first != .loadStarting
          && s.tasks .second != .loadStarting)
  | .complete i =>
      !(s.await == .readWinner && s.tasks i == .casWinner
        && s.shared.winner == none)
  | _ => true

/-- `starting` is set. -/
def AwaitPc.open : AwaitPc → Bool
  | .runFirst | .inTask _ | .runSecond | .clearStarting => true
  | .storeParent | .storeStarting | .readWinner | .returned _ => false

/-- Task `i` has not been started. -/
def AwaitPc.before : AwaitPc → Index → Bool
  | .storeParent, _ | .storeStarting, _ | .runFirst, _ => true
  | .inTask .first, .second | .runSecond, .second => true
  | _, _ => false

/-- The task is past the compare-and-swap of `Complete`. -/
def TaskPc.decided : TaskPc → Bool
  | .loadStarting | .resume | .done => true
  | .unstarted | .running | .casWinner => false

/-- The task won and has not handed over. -/
def TaskPc.deciding : TaskPc → Bool
  | .loadStarting | .resume => true
  | .unstarted | .running | .casWinner | .done => false

section Leave

variable {p : AwaitPc} {i j : Index}

@[simp]
theorem AwaitPc.leave_open : (p.leave i).open = p.open := by
  unfold AwaitPc.leave
  split
  · next h => cases i <;> rw [h] <;> rfl
  · rfl

theorem AwaitPc.leave_before (h : (p.leave i).before j = true) :
    p.before j = true := by
  unfold AwaitPc.leave at h
  split at h
  · next hp =>
    subst hp
    cases i <;> cases j <;> first | rfl | cases h
  · exact h

theorem AwaitPc.leave_eq {q : AwaitPc} (hq : q ≠ .runSecond)
    (hq' : q ≠ .clearStarting) (h : p.leave i = q) : p = q := by
  unfold AwaitPc.leave at h
  split at h
  · cases i with
    | first => exact absurd h.symm hq
    | second => exact absurd h.symm hq'
  · exact h

theorem TaskPc.decided_of_deciding {q : TaskPc} (h : q.deciding = true) :
    q.decided = true := by
  cases q <;> first | rfl | cases h

end Leave

-- == every run

structure Kept (parent : κ) (s : State ε φ ψ κ) : Prop where
  parent : s.await ≠ .storeParent → s.shared.parent = some parent
  before : ∀ i, s.await.before i = true → s.tasks i = .unstarted
  starting : s.shared.starting = s.await.open
  unwon : s.shared.winner = none → ∀ i, (s.tasks i).decided = false
  won : ∀ i, s.shared.winner = some i → (s.tasks i).decided = true
  sole : ∀ i j, s.shared.winner = some i → (s.tasks j).deciding = true →
    j = i

section Kept

variable {parent : κ} {s s' : State ε φ ψ κ} {i : Index}

theorem Kept.congr (h : Kept parent s) (hawait : s'.await = s.await)
    (htasks : s'.tasks = s.tasks)
    (hparent : s'.shared.parent = s.shared.parent)
    (hstarting : s'.shared.starting = s.shared.starting)
    (hwinner : s'.shared.winner = s.shared.winner) : Kept parent s' := by
  obtain ⟨h1, h2, h3, h4, h5, h6⟩ := h
  constructor <;> simp only [hawait, htasks, hparent, hstarting, hwinner] <;>
    assumption

/-- A task that ran inside `await_suspend` lets it go on. -/
theorem Kept.leave (h : Kept parent s) :
    Kept parent { s with await := s.await.leave i } where
  parent hne := h.parent fun heq => hne (by rw [heq]; rfl)
  before j hj := h.before j (AwaitPc.leave_before hj)
  starting := h.starting.trans AwaitPc.leave_open.symm
  unwon := h.unwon
  won := h.won
  sole := h.sole

/-- A started task moves on. -/
theorem Kept.goto (h : Kept parent s) {q : TaskPc}
    (hi : s.tasks i ≠ .unstarted)
    (hkeep : (s.tasks i).decided = true → q.decided = true)
    (hnew : q.decided = true → s.shared.winner ≠ none)
    (hdec : q.deciding = true → (s.tasks i).deciding = true) :
    Kept parent (s.goto i q) := by
  have hother : ∀ j, j ≠ i → Function.update s.tasks i q j = s.tasks j :=
    fun j hj => Function.update_of_ne hj ..
  refine ⟨h.parent, fun j hj => ?_, h.starting, fun hnone j => ?_,
    fun j hj => ?_, fun j k hj hk => ?_⟩ <;> simp only [State.goto] at *
  · have hij : j ≠ i := fun heq => hi (heq ▸ h.before j hj)
    rw [hother j hij]
    exact h.before j hj
  · by_cases hij : j = i
    · subst hij
      rw [Function.update_self]
      exact Bool.eq_false_iff.mpr fun hq => hnew hq hnone
    · rw [hother j hij]
      exact h.unwon hnone j
  · by_cases hij : j = i
    · subst hij
      rw [Function.update_self]
      exact hkeep (h.won j hj)
    · rw [hother j hij]
      exact h.won j hj
  · by_cases hik : k = i
    · subst hik
      rw [Function.update_self] at hk
      exact h.sole j k hj (hdec hk)
    · rw [hother k hik] at hk
      exact h.sole j k hj hk

/-- A started task is over. -/
theorem Kept.finish (h : Kept parent s) (hi : s.tasks i ≠ .unstarted)
    (hwon : s.shared.winner ≠ none) : Kept parent (s.finish i) :=
  Kept.goto (s := { s with await := s.await.leave i }) h.leave hi
    (fun _ => rfl) (fun _ => hwon) nofun

/-- A task wins. -/
theorem Kept.win (h : Kept parent s) (hi : s.tasks i = .casWinner)
    (hnone : s.shared.winner = none) :
    Kept parent ({ s with
      shared := { s.shared with winner := some i } }.goto i
        .loadStarting) := by
  refine ⟨h.parent, fun j hj => ?_, h.starting, nofun, fun j hj => ?_,
    fun j k hj hk => ?_⟩ <;> simp only [State.goto] at *
  · have hij : j ≠ i := by
      rintro rfl
      cases hi.symm.trans (h.before j hj)
    rw [Function.update_of_ne hij]
    exact h.before j hj
  · cases hj
    rw [Function.update_self]
    rfl
  · cases hj
    by_contra hik
    rw [Function.update_of_ne hik] at hk
    have hfree := h.unwon hnone k
    rw [TaskPc.decided_of_deciding hk] at hfree
    cases hfree

/-- `await_suspend` starts a task. -/
theorem Kept.launch (h : Kept parent s) (hopen : s.await.open = true)
    (hi : s.await.before i = true)
    (hafter : ∀ j, (AwaitPc.inTask i).before j = true → j ≠ i
      ∧ s.await.before j = true) : Kept parent (s.launch i) := by
  have hun := h.before i hi
  have hother : ∀ j, j ≠ i →
      Function.update s.tasks i .running j = s.tasks j :=
    fun j hj => Function.update_of_ne hj ..
  have hparent : s.await ≠ .storeParent := by
    rintro heq
    rw [heq] at hopen
    cases hopen
  refine ⟨fun _ => h.parent hparent, fun j hj => ?_,
    h.starting.trans hopen, fun hnone j => ?_, fun j hj => ?_,
    fun j k hj hk => ?_⟩ <;> simp only [State.launch, State.goto] at *
  · rw [hother j (hafter j hj).1]
    exact h.before j (hafter j hj).2
  · by_cases hij : j = i
    · rw [hij, Function.update_self]
      rfl
    · rw [hother j hij]
      exact h.unwon hnone j
  · have hij : j ≠ i := by
      rintro rfl
      have hdec := h.won j hj
      rw [hun] at hdec
      cases hdec
    rw [hother j hij]
    exact h.won j hj
  · by_cases hik : k = i
    · rw [hik, Function.update_self] at hk
      cases hk
    · rw [hother k hik] at hk
      exact h.sole j k hj hk

theorem kept_await (h : Kept parent s)
    (hs : execAwait parent s = some s') : Kept parent s' := by
  -- a step that only moves `await_suspend`
  have hmove : ∀ {p : AwaitPc} {sh : Shared ε φ ψ κ}
      {cs : List (Continuation κ)}, sh.parent = some parent →
      (∀ i, p.before i = true → s.await.before i = true) →
      sh.starting = p.open → sh.winner = s.shared.winner →
      Kept parent { s with shared := sh, await := p, continued := cs } := by
    intro p sh cs hparent hbefore hstarting hwinner
    exact ⟨fun _ => hparent, fun i hi => h.before i (hbefore i hi),
      hstarting, fun hnone => h.unwon (hwinner.symm.trans hnone),
      fun i hi => h.won i (hwinner.symm.trans hi),
      fun i j hi => h.sole i j (hwinner.symm.trans hi)⟩
  unfold execAwait at hs
  split at hs
  · next hp =>
    cases hs
    refine hmove rfl (fun i _ => ?_) ?_ rfl
    · rw [hp]
      rfl
    · rw [h.starting, hp]
      rfl
  · next hp =>
    cases hs
    refine hmove (h.parent (by rw [hp]; nofun)) (fun i _ => ?_) rfl rfl
    rw [hp]
    rfl
  · next hp =>
    cases hs
    refine h.launch (by rw [hp]; rfl) (by rw [hp]; rfl) fun j hj => ?_
    cases j with
    | first => cases hj
    | second => exact ⟨nofun, by rw [hp]; rfl⟩
  · next hp =>
    cases hs
    refine h.launch (by rw [hp]; rfl) (by rw [hp]; rfl) fun j hj => ?_
    cases j <;> cases hj
  · cases hs
  · next hp =>
    cases hs
    exact hmove (h.parent (by rw [hp]; nofun)) nofun rfl rfl
  · next hp =>
    have hclosed : s.shared.starting = false := by
      rw [h.starting, hp]
      rfl
    split at hs <;> cases hs <;>
      exact hmove (h.parent (by rw [hp]; nofun)) nofun hclosed rfl
  · cases hs

/-- A task that won stays the winner. -/
theorem Kept.winner_of_deciding (h : Kept parent s)
    (hi : (s.tasks i).deciding = true) : s.shared.winner = some i := by
  cases hw : s.shared.winner with
  | none =>
      have hfree := h.unwon hw i
      rw [TaskPc.decided_of_deciding hi] at hfree
      cases hfree
  | some j => rw [h.sole j i hw hi]

theorem kept_complete (h : Kept parent s)
    (hs : execComplete i s = some s') : Kept parent s' := by
  unfold execComplete at hs
  split at hs
  · next hi =>
    split at hs <;> cases hs
    · next hnone => exact h.win hi hnone
    · next hsome => exact h.finish (by rw [hi]; nofun) hsome
  · next hi =>
    have hwin : s.shared.winner ≠ none := by
      rw [h.winner_of_deciding (by rw [hi]; rfl)]
      nofun
    split at hs <;> cases hs
    · exact h.finish (by rw [hi]; nofun) hwin
    · exact h.goto (by rw [hi]; nofun) (fun _ => rfl) (fun _ => hwin)
        fun _ => by rw [hi]; rfl
  · next hi =>
    have hwin : s.shared.winner ≠ none := by
      rw [h.winner_of_deciding (by rw [hi]; rfl)]
      nofun
    split at hs <;> cases hs
    exact Kept.finish (h.congr rfl rfl rfl rfl rfl)
      (show s.tasks i ≠ _ by rw [hi]; nofun) hwin
  all_goals cases hs

theorem awaitResume_keeps (sh : Shared ε φ ψ κ) :
    (awaitResume sh).2.parent = sh.parent
      ∧ (awaitResume sh).2.starting = sh.starting
      ∧ (awaitResume sh).2.winner = sh.winner := by
  unfold awaitResume
  split <;> exact ⟨rfl, rfl, rfl⟩

theorem kept_apply {a : Action ε φ ψ} (h : Kept parent s)
    (hs : apply parent a s = some s') : Kept parent s' := by
  -- a task is over and its result stored
  have hends : ∀ {i : Index} {sh : Shared ε φ ψ κ},
      s.tasks i = .running → sh.parent = s.shared.parent →
      sh.starting = s.shared.starting → sh.winner = s.shared.winner →
      Kept parent ({ s with shared := sh }.goto i .casWinner) := by
    intro i sh hi hparent hstarting hwinner
    have hnot : (s.tasks i).decided = true →
        TaskPc.decided .casWinner = true := by
      rw [hi]
      nofun
    have hk : Kept parent { s with shared := sh } :=
      h.congr rfl rfl hparent hstarting hwinner
    exact hk.goto (show s.tasks i ≠ _ by rw [hi]; nofun) hnot nofun nofun
  cases a with
  | await => exact kept_await h hs
  | complete i => exact kept_complete h hs
  | suspend i =>
      simp only [apply] at hs
      split at hs <;> cases hs
      exact h.leave
  | firstEnds outcome | secondEnds outcome =>
      simp only [apply] at hs
      split at hs <;> cases hs
      next hi => exact hends hi rfl rfl rfl
  | parent =>
      simp only [apply] at hs
      split at hs <;> cases hs
      obtain ⟨hparent, hstarting, hwinner⟩ := awaitResume_keeps s.shared
      exact h.congr rfl rfl hparent hstarting hwinner

end Kept

-- == outside the window

/-- What the parent was told when the winner's `Complete` is over. -/
def AwaitPc.told (parent : κ) (continued : List (Continuation κ)) :
    AwaitPc → Prop
  | .returned true => continued = [.resumed parent]
  | .returned false => continued = [.notSuspended]
  | _ => continued = []

/-- Where the winner, `await_suspend` and the parent stand to each
other. -/
structure Settled (parent : κ) (s : State ε φ ψ κ) : Prop where
  unwon : s.shared.winner = none →
    s.continued = [] ∧ s.await ≠ .returned false
  loading : ∀ i, s.tasks i = .loadStarting →
    s.continued = [] ∧ (s.await.open = true ∨ s.await = .returned true)
  resuming : ∀ i, s.tasks i = .resume →
    s.continued = [] ∧ s.await = .returned true
  complete : ∀ i, s.shared.winner = some i → s.tasks i = .done →
    s.await.told parent s.continued

section Settled

variable {parent : κ} {s s' : State ε φ ψ κ} {i : Index}

theorem AwaitPc.told_of_open {p : AwaitPc} {cs : List (Continuation κ)}
    (hp : p.open = true) : p.told parent cs ↔ cs = [] := by
  cases p <;> first | rfl | cases hp

theorem AwaitPc.told_leave {p : AwaitPc} {cs : List (Continuation κ)} :
    (p.leave i).told parent cs ↔ p.told parent cs := by
  unfold AwaitPc.leave
  split
  · next hp =>
    subst hp
    cases i <;> rfl
  · rfl

/-- Nothing is decided before the tasks run. -/
theorem Kept.undecided (hk : Kept parent s)
    (hp : ∀ i, s.await.before i = true) :
    s.shared.winner = none ∧ ∀ i, s.tasks i = .unstarted := by
  have hun : ∀ i, s.tasks i = .unstarted := fun i => hk.before i (hp i)
  refine ⟨?_, hun⟩
  cases hw : s.shared.winner with
  | none => rfl
  | some i =>
      have hdec := hk.won i hw
      rw [hun i] at hdec
      cases hdec

theorem Kept.not_winner (hk : Kept parent s)
    (hi : (s.tasks i).decided = false) : s.shared.winner ≠ some i := by
  intro hw
  have hdec := hk.won i hw
  rw [hi] at hdec
  cases hdec

theorem Settled.leave (h : Settled parent s) :
    Settled parent { s with await := s.await.leave i } where
  unwon hnone := ⟨(h.unwon hnone).1, fun heq =>
    (h.unwon hnone).2 (AwaitPc.leave_eq nofun nofun heq)⟩
  loading j hj := by
    obtain ⟨hc, ho | hr⟩ := h.loading j hj
    · exact ⟨hc, Or.inl (AwaitPc.leave_open.trans ho)⟩
    · exact ⟨hc, Or.inr (by rw [hr]; rfl)⟩
  resuming j hj := by
    obtain ⟨hc, hr⟩ := h.resuming j hj
    exact ⟨hc, by rw [hr]; rfl⟩
  complete j hw hj := AwaitPc.told_leave.mpr (h.complete j hw hj)

/-- A task that is not the winner moves on. -/
theorem Settled.goto (h : Settled parent s) {q : TaskPc}
    (hi : s.shared.winner ≠ some i) (hq : q.deciding = false) :
    Settled parent (s.goto i q) := by
  have hother : ∀ j, Function.update s.tasks i q j = s.tasks j
      ∨ j = i ∧ Function.update s.tasks i q j = q := by
    intro j
    by_cases hij : j = i
    · exact Or.inr ⟨hij, hij ▸ Function.update_self ..⟩
    · exact Or.inl (Function.update_of_ne hij ..)
  refine ⟨h.unwon, fun j hj => ?_, fun j hj => ?_, fun j hw hj => ?_⟩ <;>
    simp only [State.goto] at * <;> rcases hother j with heq | ⟨rfl, heq⟩
  · exact h.loading j (heq ▸ hj)
  · rw [heq.symm.trans hj] at hq
    cases hq
  · exact h.resuming j (heq ▸ hj)
  · rw [heq.symm.trans hj] at hq
    cases hq
  · exact h.complete j hw (heq ▸ hj)
  · exact absurd hw hi

/-- `await_suspend` goes on to `p`. -/
theorem Settled.await (h : Settled parent s) {p : AwaitPc}
    {sh : Shared ε φ ψ κ} (hwinner : sh.winner = s.shared.winner)
    (hfalse : p ≠ .returned false)
    (hload : ∀ i, s.tasks i = .loadStarting → p.open = true)
    (hres : ∀ i, s.tasks i ≠ .resume)
    (htold : ∀ cs, s.await.told parent cs → p.told parent cs) :
    Settled parent { s with shared := sh, await := p } where
  unwon hnone := ⟨(h.unwon (hwinner.symm.trans hnone)).1, hfalse⟩
  loading i hi := ⟨(h.loading i hi).1, Or.inl (hload i hi)⟩
  resuming i hi := absurd hi (hres i)
  complete i hw hi := htold _ (h.complete i (hwinner.symm.trans hw) hi)

theorem settled_await (hk : Kept parent s) (h : Settled parent s)
    (hok : apart s (.await : Action ε φ ψ) = true)
    (hs : execAwait parent s = some s') : Settled parent s' := by
  -- nobody resumes the parent before `await_suspend` returns
  have hres : ∀ {p}, s.await = p → p ≠ .returned true →
      ∀ i, s.tasks i ≠ .resume :=
    fun hp hne i hi => hne (hp.symm.trans (h.resuming i hi).2)
  have hlaunch : ∀ {p : AwaitPc} {i : Index}, s.await = p →
      p.before i = true → p.open = true →
      (∀ cs, p.told parent cs → (AwaitPc.inTask i).told parent cs) →
      Settled parent (s.launch i) := by
    intro p i hp hbefore hopen htold
    subst hp
    have hinside : Settled parent { s with await := .inTask i } := by
      refine h.await rfl nofun (fun _ _ => rfl) (hres rfl ?_) htold
      rintro heq
      rw [heq] at hopen
      cases hopen
    exact hinside.goto (hk.not_winner (by rw [hk.before i hbefore]; rfl)) rfl
  unfold execAwait at hs
  split at hs
  · next hp =>
    cases hs
    obtain ⟨-, hun⟩ := hk.undecided fun i => by rw [hp]; rfl
    refine h.await rfl nofun (fun i hi => ?_) (hres hp nofun) ?_
    · rw [hun i] at hi
      cases hi
    · rw [hp]
      exact fun _ => id
  · next hp =>
    cases hs
    refine h.await rfl nofun (fun _ _ => rfl) (hres hp nofun) ?_
    rw [hp]
    exact fun _ => id
  · next hp =>
    cases hs
    exact hlaunch hp rfl rfl fun _ => id
  · next hp =>
    cases hs
    exact hlaunch hp rfl rfl fun _ => id
  · cases hs
  · next hp =>
    cases hs
    refine h.await rfl nofun (fun i hi => ?_) (hres hp nofun) ?_
    · simp only [apart, hp] at hok
      cases i <;> simp [hi] at hok
    · rw [hp]
      exact fun _ => id
  · next hp =>
    split at hs <;> cases hs
    · next hnone =>
      refine ⟨fun _ => ⟨(h.unwon hnone).1, nofun⟩,
        fun i hi => ⟨(h.loading i hi).1, Or.inr rfl⟩,
        fun i hi => absurd hi (hres hp nofun i), fun i hw => ?_⟩
      cases hnone.symm.trans hw
    · next hsome =>
      refine ⟨fun hnone => absurd hnone hsome, fun i hi => ?_,
        fun i hi => absurd hi (hres hp nofun i), fun i hw hi => ?_⟩
      · have := (h.loading i hi).2
        rw [hp] at this
        rcases this with h | h <;> cases h
      · have htold := h.complete i hw hi
        rw [hp] at htold
        show s.continued ++ _ = _
        rw [show s.continued = [] from htold]
        rfl
  · cases hs

/-- The winner moves on. -/
theorem Settled.turn {q : TaskPc} {p : AwaitPc}
    {cs : List (Continuation κ)} (hi : s.shared.winner = some i)
    (hsole : ∀ j, (s.tasks j).deciding = true → j = i)
    (hload : q = .loadStarting →
      cs = [] ∧ (p.open = true ∨ p = .returned true))
    (hres : q = .resume → cs = [] ∧ p = .returned true)
    (hdone : q = .done → p.told parent cs) :
    Settled parent ({ s with await := p, continued := cs }.goto i q) := by
  have honly : ∀ j, (Function.update s.tasks i q j).deciding = true →
      j = i := by
    intro j hj
    by_contra hij
    rw [Function.update_of_ne hij] at hj
    exact hij (hsole j hj)
  have hself : ∀ {j q'}, Function.update s.tasks i q j = q' →
      j = i → q = q' := by
    rintro j q' hj rfl
    rwa [Function.update_self] at hj
  refine ⟨fun hnone => ?_, fun j hj => ?_, fun j hj => ?_,
    fun j hw hj => ?_⟩ <;> simp only [State.goto] at *
  · cases hi.symm.trans hnone
  · exact hload (hself hj (honly j (by rw [hj]; rfl)))
  · exact hres (hself hj (honly j (by rw [hj]; rfl)))
  · cases Option.some.inj (hi.symm.trans hw)
    exact hdone (hself hj rfl)

theorem settled_complete (hk : Kept parent s) (h : Settled parent s)
    (hok : apart s (.complete i : Action ε φ ψ) = true)
    (hs : execComplete i s = some s') : Settled parent s' := by
  unfold execComplete at hs
  split at hs
  · next hi =>
    have hnot := hk.not_winner (i := i) (by rw [hi]; rfl)
    split at hs <;> cases hs
    · next hnone =>
      obtain ⟨hnil, hfalse⟩ := h.unwon hnone
      refine Settled.turn (q := .loadStarting) (p := s.await)
        (s := { s with shared := { s.shared with winner := some i } }) rfl
        (fun j hj => ?_) (fun _ => ⟨hnil, ?_⟩) nofun nofun
      · have hfree := hk.unwon hnone j
        rw [TaskPc.decided_of_deciding hj] at hfree
        cases hfree
      · -- the task was started, and nobody wins before `winner` is read
        have hstarted : s.await.before i ≠ true := by
          intro hb
          cases hi.symm.trans (hk.before i hb)
        simp only [apart, hi, hnone] at hok
        cases hp : s.await with
        | returned b =>
            cases b with
            | true => exact Or.inr rfl
            | false => exact absurd hp hfalse
        | readWinner => simp [hp] at hok
        | storeParent | storeStarting => exact absurd (hp ▸ rfl) hstarted
        | _ => exact Or.inl rfl
    · exact h.leave.goto hnot rfl
  · next hi =>
    have hwin := hk.winner_of_deciding (i := i) (by rw [hi]; rfl)
    obtain ⟨hnil, hpos⟩ := h.loading i hi
    split at hs <;> cases hs
    · next hstarting =>
      rw [hk.starting] at hstarting
      exact .turn hwin (hk.sole i · hwin) nofun nofun fun _ =>
        AwaitPc.told_leave.mpr ((AwaitPc.told_of_open hstarting).mpr hnil)
    · next hstarting =>
      rw [hk.starting] at hstarting
      exact .turn hwin (hk.sole i · hwin) nofun
        (fun _ => ⟨hnil, hpos.resolve_left hstarting⟩) nofun
  · next hi =>
    have hwin := hk.winner_of_deciding (i := i) (by rw [hi]; rfl)
    obtain ⟨hnil, hreturned⟩ := h.resuming i hi
    have hparent := hk.parent (by rw [hreturned]; nofun)
    split at hs <;> cases hs
    next handle hhandle =>
    cases hparent.symm.trans hhandle
    refine .turn hwin (hk.sole i · hwin) nofun nofun fun _ =>
      AwaitPc.told_leave.mpr ?_
    rw [hreturned, hnil]
    rfl
  all_goals cases hs

theorem settled_apply {a : Action ε φ ψ} (hk : Kept parent s)
    (h : Settled parent s) (hok : apart s a = true)
    (hs : apply parent a s = some s') : Settled parent s' := by
  -- what is stored and taken concerns nobody here
  have hshared : ∀ {sh : Shared ε φ ψ κ} {os : List (Outcome ε φ ψ)},
      sh.winner = s.shared.winner →
      Settled parent { s with shared := sh, observed := os } := by
    intro sh os hwinner
    exact ⟨fun hnone => h.unwon (hwinner.symm.trans hnone), h.loading,
      h.resuming, fun i hw => h.complete i (hwinner.symm.trans hw)⟩
  have hends : ∀ {i : Index} {sh : Shared ε φ ψ κ},
      s.tasks i = .running → sh.winner = s.shared.winner →
      Settled parent ({ s with shared := sh }.goto i .casWinner) := by
    intro i sh hi hwinner
    have hstored : Settled parent { s with shared := sh } :=
      hshared hwinner
    refine hstored.goto (fun hw => ?_) rfl
    exact hk.not_winner (by rw [hi]; rfl) (hwinner.symm.trans hw)
  cases a with
  | await => exact settled_await hk h hok hs
  | complete i => exact settled_complete hk h hok hs
  | suspend i =>
      simp only [apply] at hs
      split at hs <;> cases hs
      exact h.leave
  | firstEnds outcome | secondEnds outcome =>
      simp only [apply] at hs
      split at hs <;> cases hs
      next hi =>
      exact hends hi rfl
  | parent =>
      simp only [apply] at hs
      split at hs <;> cases hs
      exact hshared (awaitResume_keeps s.shared).2.2

/-- The parent is never told twice. -/
theorem Settled.length_le (hk : Kept parent s) (h : Settled parent s) :
    s.continued.length ≤ 1 := by
  have htold : ∀ {p : AwaitPc} {cs : List (Continuation κ)},
      p.told parent cs → cs.length ≤ 1 := by
    intro p cs hp
    cases p with
    | returned b =>
        cases b <;> rw [show cs = _ from hp] <;> exact le_rfl
    | _ =>
        rw [show cs = [] from hp]
        exact Nat.zero_le 1
  cases hw : s.shared.winner with
  | none => rw [(h.unwon hw).1]; exact Nat.zero_le 1
  | some i =>
      have hdec := hk.won i hw
      cases hi : s.tasks i with
      | loadStarting => rw [(h.loading i hi).1]; exact Nat.zero_le 1
      | resume => rw [(h.resuming i hi).1]; exact Nat.zero_le 1
      | done => exact htold (h.complete i hw hi)
      | unstarted | running | casWinner =>
          rw [hi] at hdec
          cases hdec

end Settled

-- == results

/-- What a task came to. -/
def Branch.outcome (b : Branch ε α) (wrap : α → Outcome ε φ ψ) :
    Outcome ε φ ψ :=
  match b.exception, b.result with
  | some e, _ => .thrown e
  | none, some value => wrap value
  | none, none => .undefined

def Shared.outcome (sh : Shared ε φ ψ κ) : Index → Outcome ε φ ψ
  | .first => sh.first.outcome .first
  | .second => sh.second.outcome .second

/-- The task is over and its result stored. -/
def TaskPc.ended : TaskPc → Bool
  | .casWinner | .loadStarting | .resume | .done => true
  | .unstarted | .running => false

/-- What the parent took is what the winner came to. -/
structure Faithful (s : State ε φ ψ κ) : Prop where
  stored : ∀ i, (s.tasks i).ended = true → s.shared.outcome i ≠ .undefined
  unmoved : s.observed = [] →
    s.shared.first.moved = false ∧ s.shared.second.moved = false
  counted : s.observed.length ≤ s.continued.length
  observed : ∀ o ∈ s.observed, ∃ i, s.shared.winner = some i
    ∧ o = s.shared.outcome i

section Faithful

variable {parent : κ} {s s' : State ε φ ψ κ} {i : Index}

theorem Branch.store_outcome (b : Branch ε α) (o : Except ε α)
    (wrap : α → Outcome ε φ ψ) (hwrap : ∀ v, wrap v ≠ .undefined) :
    (b.store o).outcome wrap ≠ .undefined := by
  unfold Branch.store Branch.outcome
  cases o with
  | ok value =>
      cases b.exception with
      | none => exact hwrap value
      | some e => nofun
  | error e => nofun

/-- The first to take gets what the task came to. -/
theorem Branch.take_fst {b : Branch ε α} {wrap : α → Outcome ε φ ψ}
    (hb : b.moved = false) : (b.take wrap).1 = b.outcome wrap := by
  unfold Branch.take Branch.outcome
  cases b.exception with
  | some e => rfl
  | none =>
      cases b.result with
      | none => rfl
      | some value => simp [hb]

theorem Branch.take_outcome {β : Type} (b : Branch ε α)
    (wrap : α → Outcome ε φ ψ) (wrap' : α → Outcome ε φ β) :
    (b.take wrap).2.outcome wrap' = b.outcome wrap' := by
  unfold Branch.take Branch.outcome
  cases he : b.exception with
  | some e => simp [he]
  | none =>
      cases hr : b.result with
      | none => simp [he, hr]
      | some value => rfl

/-- A step that stores and takes nothing. -/
theorem Faithful.frame (h : Faithful s)
    (hfirst : s'.shared.first = s.shared.first)
    (hsecond : s'.shared.second = s.shared.second)
    (hended : ∀ i, (s'.tasks i).ended = true → (s.tasks i).ended = true)
    (hobserved : s'.observed = s.observed)
    (hcounted : s.continued.length ≤ s'.continued.length)
    (hwinner : ∀ i, s.shared.winner = some i →
      s'.shared.winner = some i) : Faithful s' := by
  have houtcome : ∀ i, s'.shared.outcome i = s.shared.outcome i := by
    intro i
    cases i with
    | first => rw [Shared.outcome, hfirst]; rfl
    | second => rw [Shared.outcome, hsecond]; rfl
  refine ⟨fun i hi => ?_, fun hnil => ?_, ?_, fun o ho => ?_⟩
  · rw [houtcome]
    exact h.stored i (hended i hi)
  · rw [hfirst, hsecond]
    exact h.unmoved (hobserved ▸ hnil)
  · rw [hobserved]
    exact h.counted.trans hcounted
  · rw [hobserved] at ho
    obtain ⟨i, hw, rfl⟩ := h.observed o ho
    exact ⟨i, hwinner i hw, (houtcome i).symm⟩

/-- A task that ended moves on. -/
theorem ended_update {q : TaskPc} (hi : q.ended = true →
    (s.tasks i).ended = true) (j : Index)
    (hj : (Function.update s.tasks i q j).ended = true) :
    (s.tasks j).ended = true := by
  by_cases hij : j = i
  · subst hij
    rw [Function.update_self] at hj
    exact hi hj
  · rwa [Function.update_of_ne hij] at hj

theorem faithful_await (h : Faithful s)
    (hs : execAwait parent s = some s') : Faithful s' := by
  unfold execAwait at hs
  split at hs
  · cases hs
    exact h.frame rfl rfl (fun _ => id) rfl le_rfl fun _ => id
  · cases hs
    exact h.frame rfl rfl (fun _ => id) rfl le_rfl fun _ => id
  · cases hs
    exact h.frame rfl rfl (ended_update nofun) rfl le_rfl fun _ => id
  · cases hs
    exact h.frame rfl rfl (ended_update nofun) rfl le_rfl fun _ => id
  · cases hs
  · cases hs
    exact h.frame rfl rfl (fun _ => id) rfl le_rfl fun _ => id
  · split at hs <;> cases hs
    · exact h.frame rfl rfl (fun _ => id) rfl le_rfl fun _ => id
    · exact h.frame rfl rfl (fun _ => id) rfl
        (by simp) fun _ => id
  · cases hs

theorem faithful_complete (h : Faithful s)
    (hs : execComplete i s = some s') : Faithful s' := by
  have hturn : ∀ {p q : TaskPc}, s.tasks i = p → p.ended = true →
      ∀ j, (Function.update s.tasks i q j).ended = true →
        (s.tasks j).ended = true :=
    fun hp hended => ended_update fun _ => hp ▸ hended
  unfold execComplete at hs
  split at hs
  · next hi =>
    split at hs <;> cases hs
    · next hnone =>
      refine h.frame rfl rfl (hturn hi rfl) rfl le_rfl fun j hw => ?_
      cases hnone.symm.trans hw
    · exact h.frame rfl rfl (hturn hi rfl) rfl le_rfl fun _ => id
  · next hi =>
    split at hs <;> cases hs
    · exact h.frame rfl rfl (hturn hi rfl) rfl le_rfl fun _ => id
    · exact h.frame rfl rfl (hturn hi rfl) rfl le_rfl fun _ => id
  · next hi =>
    split at hs <;> cases hs
    refine h.frame rfl rfl (hturn hi rfl) rfl ?_ fun _ => id
    simp [State.finish, State.goto]
  all_goals cases hs

theorem faithful_parent (hk : Kept parent s) (hset : Settled parent s)
    (h : Faithful s) (hlt : s.observed.length < s.continued.length) :
    Faithful { s with
      shared := (awaitResume s.shared).2
      observed := s.observed ++ [(awaitResume s.shared).1] } := by
  have hlen := hset.length_le hk
  have hnil : s.observed = [] := by
    rw [← List.length_eq_zero_iff]
    omega
  obtain ⟨hfirst, hsecond⟩ := h.unmoved hnil
  have hwinner := (awaitResume_keeps s.shared).2.2
  have houtcome : ∀ j, (awaitResume s.shared).2.outcome j
      = s.shared.outcome j := by
    intro j
    unfold awaitResume
    split <;> cases j <;>
      first
      | rfl
      | exact Branch.take_outcome ..
  refine ⟨fun j hj => ?_, fun hnil' => ?_, ?_, fun o ho => ?_⟩
  · rw [houtcome]
    exact h.stored j hj
  · simp at hnil'
  · simpa using hlt
  · rw [hnil] at ho
    cases List.mem_singleton.mp ho
    cases hw : s.shared.winner with
    | none =>
        rw [(hset.unwon hw).1] at hlt
        cases hlt
    | some i =>
        refine ⟨i, hwinner.trans hw, ?_⟩
        rw [houtcome, awaitResume, hw]
        cases i with
        | first => exact Branch.take_fst hfirst
        | second => exact Branch.take_fst hsecond

/-- A task is over: what it came to is stored, and the winner is
another. -/
theorem Faithful.ends (hk : Kept parent s) (h : Faithful s)
    {sh : Shared ε φ ψ κ} (hi : s.tasks i = .running)
    (hwinner : sh.winner = s.shared.winner)
    (hmoved : sh.first.moved = s.shared.first.moved
      ∧ sh.second.moved = s.shared.second.moved)
    (hstored : sh.outcome i ≠ .undefined)
    (hother : ∀ j, j ≠ i → sh.outcome j = s.shared.outcome j) :
    Faithful ({ s with shared := sh }.goto i .casWinner) := by
  refine ⟨fun j hj => ?_, fun hnil => ?_, h.counted, fun o ho => ?_⟩
  · by_cases hij : j = i
    · rw [hij]
      exact hstored
    · have hj' : (Function.update s.tasks i .casWinner j).ended = true := hj
      rw [Function.update_of_ne hij] at hj'
      show sh.outcome j ≠ _
      rw [hother j hij]
      exact h.stored j hj'
  · show sh.first.moved = false ∧ sh.second.moved = false
    rw [hmoved.1, hmoved.2]
    exact h.unmoved hnil
  · obtain ⟨j, hw, rfl⟩ := h.observed o ho
    have hij : j ≠ i := by
      rintro rfl
      exact hk.not_winner (by rw [hi]; rfl) hw
    exact ⟨j, hwinner.trans hw, (hother j hij).symm⟩

theorem Branch.store_moved (b : Branch ε α) (o : Except ε α) :
    (b.store o).moved = b.moved := by
  cases o <;> rfl

theorem faithful_apply {a : Action ε φ ψ} (hk : Kept parent s)
    (hset : Settled parent s) (h : Faithful s)
    (hs : apply parent a s = some s') : Faithful s' := by
  cases a with
  | await => exact faithful_await h hs
  | complete i => exact faithful_complete h hs
  | suspend i =>
      simp only [apply] at hs
      split at hs <;> cases hs
      exact h.frame rfl rfl (fun _ => id) rfl le_rfl fun _ => id
  | firstEnds outcome =>
      simp only [apply] at hs
      split at hs <;> cases hs
      next hi =>
      refine h.ends hk hi rfl ⟨Branch.store_moved .., rfl⟩
        (Branch.store_outcome _ _ _ nofun) fun j hj => ?_
      cases j with
      | first => exact absurd rfl hj
      | second => rfl
  | secondEnds outcome =>
      simp only [apply] at hs
      split at hs <;> cases hs
      next hi =>
      refine h.ends hk hi rfl ⟨rfl, Branch.store_moved ..⟩
        (Branch.store_outcome _ _ _ nofun) fun j hj => ?_
      cases j with
      | first => rfl
      | second => exact absurd rfl hj
  | parent =>
      simp only [apply] at hs
      split at hs <;> cases hs
      next hlt => exact faithful_parent hk hset h hlt

end Faithful

-- == whole runs

theorem sound_reach {parent : κ} {s : State ε φ ψ κ}
    (h : (machine parent).Reach (fun s a => apart s a = true) s) :
    Kept parent s ∧ Settled parent s ∧ Faithful s := by
  refine h.invariant
    (I := fun s => Kept parent s ∧ Settled parent s ∧ Faithful s) ?_ ?_
  · rintro s rfl
    refine ⟨⟨?_, fun _ _ => rfl, rfl, fun _ _ => rfl, nofun, nofun⟩,
      ⟨fun _ => ⟨rfl, nofun⟩, nofun, nofun, nofun⟩,
      ⟨nofun, fun _ => ⟨rfl, rfl⟩, le_rfl, nofun⟩⟩
    exact fun hne => absurd rfl hne
  · rintro s s' a _ ⟨hk, hset, hf⟩ hok hs
    exact ⟨kept_apply hk hs, settled_apply hk hset hok hs,
      faithful_apply hk hset hf hs⟩

/-- **Continued once.** In every run outside the window the parent goes
on at most once, and exactly once when `await_suspend` has returned and
some task's `Complete`, with the winner's, is over; no `Complete` is ever
stuck; and what the parent takes is what the task came to whose
compare-and-swap won. -/
theorem continued_once (parent : κ) (s : State ε φ ψ κ)
    (h : (machine parent).Reach (fun s a => apart s a = true) s) :
    s.continued.length ≤ 1
      ∧ (∀ suspended i, s.await = .returned suspended →
        s.tasks i = .done → (∀ j, (s.tasks j).deciding = false) →
        s.continued
          = [if suspended then .resumed parent else .notSuspended])
      ∧ (∀ i, s.tasks i = .casWinner ∨ (s.tasks i).deciding = true →
        ∃ s', (machine parent).apply (.complete i) s = some s')
      ∧ ∀ o ∈ s.observed, ∃ i, s.shared.winner = some i
        ∧ o = s.shared.outcome i ∧ o ≠ .undefined := by
  obtain ⟨hk, hset, hf⟩ := sound_reach h
  refine ⟨hset.length_le hk, fun suspended i hret hi hquiet => ?_,
    fun i hi => ?_, fun o ho => ?_⟩
  · cases hw : s.shared.winner with
    | none =>
        have hfree := hk.unwon hw i
        rw [hi] at hfree
        cases hfree
    | some j =>
        have hdec := hk.won j hw
        have hdone : s.tasks j = .done := by
          have hj := hquiet j
          cases hp : s.tasks j with
          | done => rfl
          | loadStarting | resume =>
              rw [hp] at hj
              cases hj
          | unstarted | running | casWinner =>
              rw [hp] at hdec
              cases hdec
        have htold := hset.complete j hw hdone
        rw [hret] at htold
        cases suspended <;> exact htold
  · show ∃ s', execComplete i s = some s'
    unfold execComplete
    cases hp : s.tasks i with
    | casWinner => exact ⟨_, (apply_ite some _ _ _).symm⟩
    | loadStarting => exact ⟨_, (apply_ite some _ _ _).symm⟩
    | resume =>
        have hparent := hk.parent (by rw [(hset.resuming i hp).2]; nofun)
        simp only [hparent]
        exact ⟨_, rfl⟩
    | unstarted | running | done =>
        rw [hp] at hi
        rcases hi with h | h <;> cases h
  · obtain ⟨i, hw, rfl⟩ := hf.observed o ho
    refine ⟨i, hw, rfl, hf.stored i ?_⟩
    have hdec := hk.won i hw
    cases hp : s.tasks i <;> rw [hp] at hdec <;> first | rfl | cases hdec

/-- Both tasks wait elsewhere; the second is over once `await_suspend`
has returned. -/
def lateRun : List (Action Nat Nat Nat) :=
  [.await, .await, .await, .suspend .first, .await, .suspend .second,
    .await, .await, .secondEnds (.ok 22), .complete .second,
    .complete .second, .complete .second, .parent]

def lateState : State Nat Nat Nat Unit :=
  (machine ()).finalWhile apart lateRun {}

/-- The parent was resumed, once, and took 22. -/
theorem lateState_once :
    lateState.continued = [.resumed ()]
      ∧ lateState.observed = [.second 22]
      ∧ lateState.continued.length ≤ 1 :=
  ⟨by decide, by decide, (continued_once () lateState
    (Machine.reach_finalWhile rfl (by decide))).1⟩

/-- The first task, elsewhere, wins before `starting` is cleared and
reads it afterwards. -/
def windowRun : List (Action Nat Nat Nat) :=
  [.await, .await, .await, .suspend .first, .await, .suspend .second,
    .firstEnds (.ok 7), .complete .first, .await, .await,
    .complete .first, .complete .first, .parent, .parent]

/-- Then the parent goes on twice, and the second time takes what is not
there. -/
theorem windowRun_twice :
    ∃ s : State Nat Nat Nat Unit, (machine ()).Reachable s
      ∧ s.continued = [.notSuspended, .resumed ()]
      ∧ s.observed = [.first 7, .undefined] :=
  ⟨(machine ()).final windowRun {},
    Machine.reachable_final rfl (by decide), by decide, by decide⟩

end AntRpc.Coroutine
