/-
Coroutine frames run a body as direct style does.

# The invariant

The frames that are alive are the stack of a direct-style run: from the
one at work, each continuation leads to the frame that awaits it, up to
the root (`Above`). What is left to do is the code of the first frame
inside the contexts of the others (`wrap`), and it comes to what the
root's body comes to after the answers given so far. A step either
leaves this code as it is, while the stack grows, or does what `norm`
does.

# Progress

A body that runs gets to its end or to a wait by induction on the code;
then the frames above it go on in turn.
-/
import AntRpc.Coroutine.Task

namespace AntRpc.Coroutine.Task

open Lib

variable {α ε ω β : Type} {s s' : State α ε ω β} {c : Code α ε ω β}

-- == direct style

/-- The frames that await, from the inside out, and what they do next. -/
abbrev Context (α ε ω β : Type) :=
  List (Nat × (Except ε α → Code α ε ω β))

/-- The code of a frame inside those that await it. -/
def wrap (c : Code α ε ω β) : Context α ε ω β → Code α ε ω β
  | [] => c
  | (_, k) :: up => wrap (.await c k) up

def Code.ofOutcome : Except ε α → Code α ε ω β
  | .ok v => .ret v
  | .error e => .throw e

theorem norm_ofOutcome (r : Except ε α) :
    (Code.ofOutcome r : Code α ε ω β).norm = .done r := by cases r <;> rfl

/-- What a context makes of a code depends on what the code comes to. -/
theorem norm_wrap {c c' : Code α ε ω β} (h : c.norm = c'.norm)
    (up : Context α ε ω β) : (wrap c up).norm = (wrap c' up).norm := by
  induction up generalizing c c' with
  | nil => exact h
  | cons pk up ih => exact ih (by rw [Code.norm, Code.norm, h])

theorem norm_wrap_done {r : Except ε α} (h : c.norm = .done r) (p : Nat)
    (k : Except ε α → Code α ε ω β) (up : Context α ε ω β) :
    (wrap c ((p, k) :: up)).norm = (wrap (k r) up).norm :=
  norm_wrap (by rw [Code.norm, h]) up

theorem norm_wrap_blocked {o : ω} {k : β → Code α ε ω β}
    (h : c.norm = .blocked o k) (up : Context α ε ω β) :
    (wrap c up).norm = .blocked o fun b => wrap (k b) up := by
  induction up generalizing c k with
  | nil => exact h
  | cons pk up ih =>
      exact ih (k := fun b => .await (k b) pk.2) (by rw [Code.norm, h])

theorem feed_snoc {bs : List β} {o : ω} {k : β → Code α ε ω β}
    (h : c.feed bs = some (.blocked o k)) (b : β) :
    c.feed (bs ++ [b]) = some (k b).norm := by
  induction bs generalizing c with
  | nil =>
      have hn : c.norm = .blocked o k := Option.some.inj h
      rw [List.nil_append, Code.feed, hn]
      rfl
  | cons b' bs ih =>
      rw [Code.feed] at h
      rw [List.cons_append, Code.feed]
      cases hn : c.norm with
      | done r =>
          rw [hn] at h
          cases h
      | blocked o' k' =>
          rw [hn] at h
          exact ih h

-- == the stack

/-- The outermost of the frames above `f`, or `f`. -/
def top (f : Nat) : Context α ε ω β → Nat
  | [] => f
  | (p, _) :: up => top p up

/-- `up` are the frames above `f`, which continues with `cont`. -/
def Above (frames : Nat → Option (Frame α ε ω β)) :
    Nat → Option Nat → Context α ε ω β → Prop
  | _, cont, [] => cont = none
  | f, cont, (p, k) :: up => cont = some p ∧ ∃ fp, frames p = some fp ∧
      fp.point = .awaiting f k ∧ fp.result = none ∧ fp.exception = none ∧
      Above frames p fp.continuation up

/-- The frames above are all that matters. -/
theorem Above.congr {frames frames' : Nat → Option (Frame α ε ω β)}
    {f : Nat} {cont : Option Nat} {up : Context α ε ω β}
    (h : Above frames f cont up)
    (hf : ∀ p ∈ up.map Prod.fst, frames' p = frames p) :
    Above frames' f cont up := by
  induction up generalizing f cont with
  | nil => exact h
  | cons pk up ih =>
      obtain ⟨p, k⟩ := pk
      obtain ⟨hcont, fp, hp, hpoint, hr, he, hup⟩ := h
      refine ⟨hcont, fp, ?_, hpoint, hr, he, ih hup fun q hq =>
        hf q (List.mem_cons_of_mem p hq)⟩
      rw [hf p List.mem_cons_self, hp]

/-- A frame above awaits. -/
theorem Above.awaits {frames : Nat → Option (Frame α ε ω β)} {f : Nat}
    {cont : Option Nat} {up : Context α ε ω β} (h : Above frames f cont up)
    {p : Nat} (hp : p ∈ up.map Prod.fst) :
    ∃ fp g k, frames p = some fp ∧ fp.point = .awaiting g k := by
  induction up generalizing f cont with
  | nil => cases hp
  | cons pk up ih =>
      obtain ⟨q, k⟩ := pk
      obtain ⟨-, fp, hq, hpoint, -, -, hup⟩ := h
      rcases List.mem_cons.mp hp with rfl | hp
      · exact ⟨fp, f, k, hq, hpoint⟩
      · exact ih hup hp

/-- The frame that awaits the last of some frames awaits it. -/
theorem Above.awaits_top {frames : Nat → Option (Frame α ε ω β)} {f : Nat}
    {cont : Option Nat} {up₁ up₂ : Context α ε ω β} {p : Nat}
    {k : Except ε α → Code α ε ω β}
    (h : Above frames f cont (up₁ ++ (p, k) :: up₂)) :
    ∃ fp, frames p = some fp ∧ fp.point = .awaiting (top f up₁) k := by
  induction up₁ generalizing f cont with
  | nil =>
      obtain ⟨-, fp, hp, hpoint, -, -, -⟩ := h
      exact ⟨fp, hp, hpoint⟩
  | cons qk up₁ ih =>
      obtain ⟨-, fq, -, -, -, -, hup⟩ := h
      exact ih hup

/-- The frames from the one at work to the root. -/
def ids (f : Nat) (up : Context α ε ω β) : List Nat := f :: up.map Prod.fst

/-- Exactly these frames are alive. -/
structure Live (s : State α ε ω β) (f : Nat) (fr : Frame α ε ω β)
    (up : Context α ε ω β) : Prop where
  leaf : s.frames f = some fr
  above : Above s.frames f fr.continuation up
  alive : ∀ x, (s.frames x).isSome = true ↔ x ∈ ids f up
  perm : (s.freed ++ ids f up).Perm (List.range s.allocated)
  root : top f up = 0

section Live

variable {f : Nat} {fr fr' : Frame α ε ω β} {up : Context α ε ω β}

theorem Live.nodup (h : Live s f fr up) : (s.freed ++ ids f up).Nodup :=
  h.perm.nodup_iff.mpr List.nodup_range

theorem Live.not_above (h : Live s f fr up) : f ∉ up.map Prod.fst :=
  (List.nodup_cons.mp (List.Nodup.of_append_right h.nodup)).1

theorem Live.above_ne (h : Live s f fr up) {p : Nat}
    (hp : p ∈ up.map Prod.fst) : p ≠ f :=
  fun heq => h.not_above (heq ▸ hp)

/-- A new frame's number is not in use. -/
theorem Live.new (h : Live s f fr up) :
    s.allocated ∉ ids f up ∧ s.frames s.allocated = none := by
  have hout : s.allocated ∉ ids f up := fun hmem => by
    have := h.perm.mem_iff.mp (List.mem_append_right s.freed hmem)
    exact absurd (List.mem_range.mp this) (Nat.lt_irrefl _)
  refine ⟨hout, ?_⟩
  cases hfr : s.frames s.allocated with
  | none => rfl
  | some x => exact absurd ((h.alive _).mp (by rw [hfr]; rfl)) hout

/-- The frame at work changes. -/
theorem Live.change (h : Live s f fr up)
    (hfr : s'.frames = Function.update s.frames f (some fr'))
    (hcont : fr'.continuation = fr.continuation)
    (ha : s'.allocated = s.allocated) (hfreed : s'.freed = s.freed) :
    Live s' f fr' up where
  leaf := by rw [hfr, Function.update_self]
  above := by
    rw [hcont]
    refine h.above.congr fun p hp => ?_
    rw [hfr, Function.update_of_ne (h.above_ne hp)]
  alive x := by
    rw [← h.alive x, hfr]
    by_cases hx : x = f
    · subst hx
      rw [Function.update_self, h.leaf]
      exact Iff.rfl
    · rw [Function.update_of_ne hx]
  perm := by
    rw [ha, hfreed]
    exact h.perm
  root := h.root

/-- The frame at work awaits a new one. -/
theorem Live.push (h : Live s f fr up) {g : Frame α ε ω β}
    {k : Except ε α → Code α ε ω β}
    (hfr : s'.frames = Function.update
      (Function.update s.frames f (some fr')) s.allocated (some g))
    (hp : fr'.point = .awaiting s.allocated k)
    (hcont : fr'.continuation = fr.continuation) (hr : fr'.result = none)
    (he : fr'.exception = none) (hg : g.continuation = some f)
    (ha : s'.allocated = s.allocated + 1) (hfreed : s'.freed = s.freed) :
    Live s' s.allocated g ((f, k) :: up) := by
  have hne : ∀ x ∈ ids f up, x ≠ s.allocated := fun x hx heq =>
    h.new.1 (heq ▸ hx)
  have hf : s'.frames f = some fr' := by
    rw [hfr, Function.update_of_ne (hne f List.mem_cons_self),
      Function.update_self]
  refine ⟨?_, ⟨hg, fr', hf, hp, hr, he, ?_⟩, fun x => ?_, ?_, h.root⟩
  · rw [hfr, Function.update_self]
  · rw [hcont]
    refine h.above.congr fun p hp => ?_
    rw [hfr, Function.update_of_ne (hne p (List.mem_cons_of_mem f hp)),
      Function.update_of_ne (h.above_ne hp)]
  · show _ ↔ x ∈ s.allocated :: ids f up
    rw [List.mem_cons, ← h.alive x]
    by_cases hx : x = s.allocated
    · subst hx
      rw [hfr, Function.update_self]
      exact iff_of_true rfl (.inl rfl)
    · rw [hfr, Function.update_of_ne hx, or_iff_right hx]
      by_cases hxf : x = f
      · subst hxf
        rw [Function.update_self, h.leaf]
        exact Iff.rfl
      · rw [Function.update_of_ne hxf]
  · rw [ha, hfreed, List.range_succ]
    show (s.freed ++ s.allocated :: ids f up).Perm _
    exact List.perm_middle.trans
      ((h.perm.cons _).trans (List.perm_append_singleton _ _).symm)

/-- The frame at work is at its end and the one that awaits it goes on. -/
theorem Live.pop {p : Nat} {k : Except ε α → Code α ε ω β}
    (h : Live s f fr ((p, k) :: up)) :
    ∃ fp, s.frames p = some fp ∧ fp.point = .awaiting f k ∧
      fp.result = none ∧ fp.exception = none ∧ ∀ s' fp',
        s'.frames = Function.update
          (Function.update s.frames p (some fp')) f none →
        fp'.continuation = fp.continuation →
        s'.allocated = s.allocated → s'.freed = s.freed ++ [f] →
        Live s' p fp' up := by
  obtain ⟨-, fp, hp, hpoint, hr, he, hup⟩ := h.above
  have hpf : p ≠ f := h.above_ne List.mem_cons_self
  have hnp : p ∉ up.map Prod.fst :=
    (List.nodup_cons.mp (List.nodup_cons.mp
      (List.Nodup.of_append_right h.nodup)).2).1
  have hother : ∀ x, x ≠ f → x ≠ p → ∀ fp', Function.update
      (Function.update s.frames p (some fp')) f none x = s.frames x :=
    fun x hxf hxp fp' => by
      rw [Function.update_of_ne hxf, Function.update_of_ne hxp]
  refine ⟨fp, hp, hpoint, hr, he, fun s' fp' hfr hcont ha hfreed =>
    ⟨?_, ?_, fun x => ?_, ?_, h.root⟩⟩
  · rw [hfr, Function.update_of_ne hpf, Function.update_self]
  · rw [hcont]
    refine hup.congr fun q hq => ?_
    rw [hfr, hother q (h.above_ne (List.mem_cons_of_mem p hq))
      fun heq => hnp (heq ▸ hq)]
  · have hal : (s.frames x).isSome = true ↔ x ∈ f :: ids p up := h.alive x
    by_cases hxf : x = f
    · subst hxf
      rw [hfr, Function.update_self]
      exact iff_of_false Bool.false_ne_true h.not_above
    by_cases hxp : x = p
    · subst hxp
      rw [hfr, Function.update_of_ne hpf, Function.update_self]
      exact iff_of_true rfl List.mem_cons_self
    rw [hfr, hother x hxf hxp, hal, List.mem_cons, or_iff_right hxf]
  · rw [ha, hfreed, List.append_assoc]
    exact h.perm

/-- A frame is made and destroyed at once. -/
theorem Live.drop (h : Live s f fr up) {g : Frame α ε ω β}
    (hfr : s'.frames = Function.update
      (Function.update s.frames s.allocated (some g)) s.allocated none)
    (ha : s'.allocated = s.allocated + 1)
    (hfreed : s'.freed = s.freed ++ [s.allocated]) : Live s' f fr up := by
  have heq : s'.frames = s.frames := by
    rw [hfr, Function.update_idem]
    exact Function.update_eq_self_iff.mpr h.new.2.symm
  refine ⟨heq ▸ h.leaf, heq ▸ h.above, heq ▸ h.alive, ?_, h.root⟩
  rw [ha, hfreed, List.range_succ, List.append_assoc]
  exact List.perm_middle.trans
    ((h.perm.cons _).trans (List.perm_append_singleton _ _).symm)

end Live

-- == the run

/-- What the frame at work does: it runs, was made just now, waits for
something outside or is at its end. -/
inductive Phase (α ε ω β : Type) where
  | exec (c : Code α ε ω β)
  | start (c : Code α ε ω β)
  | blocked (o : ω) (k : β → Code α ε ω β)
  | ended (r : Except ε α)

/-- What it has left to do. -/
def Phase.code : Phase α ε ω β → Code α ε ω β
  | .exec c => c
  | .start c => c
  | .blocked o k => .wait o k
  | .ended r => .ofOutcome r

def Phase.Holds (s : State α ε ω β) (f : Nat) (fr : Frame α ε ω β) :
    Phase α ε ω β → Prop
  | .exec c => s.control = .exec f c ∧ fr.result = none ∧
      fr.exception = none
  | .start c => s.control = .resume f ∧ fr.point = .initial c ∧
      fr.result = none ∧ fr.exception = none
  | .blocked o k => s.control = .idle ∧ fr.point = .blocked o k ∧
      fr.result = none ∧ fr.exception = none
  | .ended r => s.control = fr.transfer ∧ fr.point = .final ∧
      fr.outcome = some r

/-- The frames do what is left of the root's body. -/
structure Inv (root : Code α ε ω β) (s : State α ε ω β) (f : Nat)
    (fr : Frame α ε ω β) (up : Context α ε ω β) (ph : Phase α ε ω β) :
    Prop where
  live : Live s f fr up
  phase : ph.Holds s f fr
  rest : root.feed s.given = some (wrap ph.code up).norm
  kept : s.destroyed = false

section Steps

variable {root : Code α ε ω β} {f : Nat} {fr : Frame α ε ω β}
  {up : Context α ε ω β}

/-- One step from `s` leads to `s'`. -/
def Steps (root : Code α ε ω β) (s s' : State α ε ω β) : Prop :=
  (machine root).apply .step s = some s'

theorem Inv.init (root : Code α ε ω β) :
    Inv root (State.init root) 0 { point := .initial root } []
      (.start root) where
  live :=
    { leaf := rfl
      above := rfl
      alive := fun x => by
        by_cases hx : x = 0
        · subst hx
          exact iff_of_true rfl List.mem_cons_self
        · have hn : (State.init root).frames x = none := by
            simp only [State.init]
            exact Function.update_of_ne hx ..
          rw [hn]
          exact iff_of_false Bool.false_ne_true fun hmem =>
            hx (List.mem_singleton.mp hmem)
      perm := .refl _
      root := rfl }
  phase := ⟨rfl, rfl, rfl, rfl⟩
  rest := rfl
  kept := rfl

/-- A frame starts its body. -/
theorem Inv.start (h : Inv root s f fr up (.start c)) :
    ∃ s' fr', Steps root s s' ∧ Inv root s' f fr' up (.exec c) := by
  obtain ⟨hc, hp, hr, he⟩ := h.phase
  refine ⟨{ s.setFrame f { fr with point := .running } with
    control := .exec f c }, { fr with point := .running }, ?_, ?_⟩
  · simp only [Steps, machine, hc, execResume, h.live.leaf, hp]
  · exact ⟨h.live.change rfl rfl rfl rfl, ⟨rfl, hr, he⟩, h.rest, h.kept⟩

/-- A body comes to its end. -/
theorem Inv.finish {r : Except ε α}
    (h : Inv root s f fr up (.exec (.ofOutcome r))) :
    ∃ s' fr', Steps root s s' ∧ Inv root s' f fr' up (.ended r) := by
  obtain ⟨hc, hr, he⟩ := h.phase
  cases r with
  | ok v =>
      refine ⟨{ s.setFrame f { fr with result := some v, point := .final }
          with control := fr.transfer },
        { fr with result := some v, point := .final }, ?_,
        h.live.change rfl rfl rfl rfl, ⟨rfl, rfl, ?_⟩, h.rest, h.kept⟩
      · simp only [Steps, machine, hc, Code.ofOutcome, execBody,
          h.live.leaf, Option.map_some]
      · simp only [Frame.outcome, he, Option.map_some]
  | error e =>
      refine ⟨{ s.setFrame f { fr with exception := some e, point := .final }
          with control := fr.transfer },
        { fr with exception := some e, point := .final }, ?_,
        h.live.change rfl rfl rfl rfl, ⟨rfl, rfl, rfl⟩, h.rest, h.kept⟩
      simp only [Steps, machine, hc, Code.ofOutcome, execBody,
        h.live.leaf, Option.map_some]

/-- A body awaits a task: a frame more. -/
theorem Inv.await {child : Code α ε ω β} {k : Except ε α → Code α ε ω β}
    (h : Inv root s f fr up (.exec (.await child k))) :
    ∃ s' g fr', Steps root s s' ∧
      Inv root s' g fr' ((f, k) :: up) (.start child) := by
  obtain ⟨hc, hr, he⟩ := h.phase
  let fr' : Frame α ε ω β := { fr with point := .awaiting s.allocated k }
  let g : Frame α ε ω β :=
    { point := .initial child, continuation := some f }
  refine ⟨{ (s.setFrame f fr').setFrame s.allocated g with
      allocated := s.allocated + 1
      control := .resume s.allocated }, s.allocated, g, ?_,
    h.live.push rfl rfl rfl hr he rfl rfl rfl, ⟨rfl, rfl, rfl, rfl⟩,
    h.rest, h.kept⟩
  simp only [Steps, machine, hc, execBody, h.live.leaf, Option.map_some,
    fr', g]

/-- A body makes a task and drops it. -/
theorem Inv.discard {child k : Code α ε ω β}
    (h : Inv root s f fr up (.exec (.discard child k))) :
    ∃ s', Steps root s s' ∧ Inv root s' f fr up (.exec k) := by
  obtain ⟨hc, hr, he⟩ := h.phase
  have hnorm : (Code.discard child k).norm = k.norm := by rw [Code.norm]
  refine ⟨{ (s.setFrame s.allocated { point := .initial child }).free
      s.allocated with
      allocated := s.allocated + 1
      control := .exec f k }, ?_, h.live.drop rfl rfl rfl, ⟨rfl, hr, he⟩,
    h.rest.trans (congrArg some (norm_wrap hnorm up)), h.kept⟩
  simp only [Steps, machine, hc, execBody]

/-- A body waits for something outside. -/
theorem Inv.wait {o : ω} {k : β → Code α ε ω β}
    (h : Inv root s f fr up (.exec (.wait o k))) :
    ∃ s' fr', Steps root s s' ∧ Inv root s' f fr' up (.blocked o k) := by
  obtain ⟨hc, hr, he⟩ := h.phase
  refine ⟨{ s.setFrame f { fr with point := .blocked o k } with
      control := .idle }, { fr with point := .blocked o k }, ?_,
    h.live.change rfl rfl rfl rfl, ⟨rfl, rfl, hr, he⟩, h.rest, h.kept⟩
  simp only [Steps, machine, hc, execBody, h.live.leaf, Option.map_some]

/-- A frame is at its end and the one above goes on with what it came
to. -/
theorem Inv.back {r : Except ε α} {p : Nat}
    {k : Except ε α → Code α ε ω β}
    (h : Inv root s f fr ((p, k) :: up) (.ended r)) :
    ∃ s' fp, Steps root s s' ∧ Inv root s' p fp up (.exec (k r)) := by
  obtain ⟨hc, -, hr⟩ := h.phase
  obtain ⟨fp, hp, hpoint, hpr, hpe, hlive⟩ := h.live.pop
  have hcont : fr.continuation = some p := h.live.above.1
  have hrest : root.feed s.given = some (wrap (k r) up).norm :=
    h.rest.trans (congrArg some (norm_wrap_done (norm_ofOutcome r) p k up))
  refine ⟨{ (s.setFrame p { fp with point := .running }).free f with
      control := .exec p (k r) }, { fp with point := .running }, ?_,
    hlive _ _ rfl rfl rfl rfl, ⟨rfl, hpr, hpe⟩, hrest, h.kept⟩
  simp only [Steps, machine, hc, Frame.transfer, hcont, execResume, hp,
    hpoint, h.live.leaf, Option.bind_some, hr, Option.map_some]

/-- At rest a frame waits, or the root has ended. -/
theorem Inv.at_rest {ph : Phase α ε ω β} (h : Inv root s f fr up ph)
    (hi : s.control = .idle) :
    (∃ o k, ph = .blocked o k ∧ fr.point = .blocked o k) ∨
    ∃ r, ph = .ended r ∧ fr.point = .final ∧ up = [] := by
  cases ph with
  | exec c => cases hi.symm.trans h.phase.1
  | start c => cases hi.symm.trans h.phase.1
  | blocked o k => exact .inl ⟨o, k, rfl, h.phase.2.1⟩
  | ended r =>
      refine .inr ⟨r, rfl, h.phase.2.1, ?_⟩
      cases up with
      | nil => rfl
      | cons pk up =>
          have hc := hi.symm.trans h.phase.1
          rw [Frame.transfer, h.live.above.1] at hc
          cases hc

/-- The frame that can go on from outside is the one at work. -/
theorem Inv.of_blocked {ph : Phase α ε ω β} (h : Inv root s f fr up ph)
    (hi : s.control = .idle) {x : Nat} {fx : Frame α ε ω β} {o : ω}
    {k : β → Code α ε ω β} (hx : s.frames x = some fx)
    (hp : fx.point = .blocked o k) : x = f ∧ ph = .blocked o k := by
  have hmem := (h.live.alive x).mp (by rw [hx]; rfl)
  rcases List.mem_cons.mp hmem with rfl | hup
  · obtain rfl : fr = fx := Option.some.inj (h.live.leaf.symm.trans hx)
    rcases h.at_rest hi with ⟨o', k', hph, hp'⟩ | ⟨r, -, hp', -⟩
    · injection hp.symm.trans hp' with ho hk
      exact ⟨rfl, by rw [hph, ho, hk]⟩
    · cases hp.symm.trans hp'
  · obtain ⟨fp, g, k', hfp, hpoint⟩ := h.live.above.awaits hup
    obtain rfl : fp = fx := Option.some.inj (hfp.symm.trans hx)
    cases hp.symm.trans hpoint

theorem Inv.feed_blocked {o : ω} {k : β → Code α ε ω β}
    (h : Inv root s f fr up (.blocked o k)) :
    root.feed s.given = some (.blocked o fun b => wrap (k b) up) := by
  have hn : (Code.wait o k : Code α ε ω β).norm = .blocked o k := by
    rw [Code.norm]
  exact h.rest.trans (congrArg some (norm_wrap_blocked hn up))

/-- The answer from outside is there. -/
theorem Inv.complete {o : ω} {k : β → Code α ε ω β}
    (h : Inv root s f fr up (.blocked o k)) (b : β) :
    Inv root { s.setFrame f { fr with point := .running } with
      control := .exec f (k b)
      given := s.given ++ [b] } f { fr with point := .running } up
      (.exec (k b)) := by
  obtain ⟨-, -, hr, he⟩ := h.phase
  exact ⟨h.live.change rfl rfl rfl rfl, ⟨rfl, hr, he⟩,
    feed_snoc h.feed_blocked b, h.kept⟩

/-- Nothing runs, or one step leads on. -/
theorem Inv.next {ph : Phase α ε ω β} (h : Inv root s f fr up ph) :
    s.control = .idle ∨ ∃ s' f' fr' up' ph', Steps root s s' ∧
      Inv root s' f' fr' up' ph' := by
  cases ph with
  | exec c =>
      right
      cases c with
      | ret v =>
          obtain ⟨s', fr', hs, h'⟩ := Inv.finish (r := .ok v) h
          exact ⟨s', f, fr', up, _, hs, h'⟩
      | throw e =>
          obtain ⟨s', fr', hs, h'⟩ := Inv.finish (r := .error e) h
          exact ⟨s', f, fr', up, _, hs, h'⟩
      | await child k =>
          obtain ⟨s', g, fr', hs, h'⟩ := h.await
          exact ⟨s', g, fr', _, _, hs, h'⟩
      | discard child k =>
          obtain ⟨s', hs, h'⟩ := h.discard
          exact ⟨s', f, fr, up, _, hs, h'⟩
      | wait o k =>
          obtain ⟨s', fr', hs, h'⟩ := h.wait
          exact ⟨s', f, fr', up, _, hs, h'⟩
  | start c =>
      obtain ⟨s', fr', hs, h'⟩ := h.start
      exact .inr ⟨s', f, fr', up, _, hs, h'⟩
  | blocked o k => exact .inl h.phase.1
  | ended r =>
      cases up with
      | nil =>
          have hcont : fr.continuation = none := h.live.above
          left
          rw [h.phase.1, Frame.transfer, hcont]
      | cons pk up =>
          obtain ⟨s', fp, hs, h'⟩ := h.back
          exact .inr ⟨s', pk.1, fp, up, _, hs, h'⟩

end Steps

-- == the owner

/-- The root was destroyed and nothing is left. -/
structure Gone (s : State α ε ω β) : Prop where
  idle : s.control = .idle
  gone : s.destroyed = true
  none_left : ∀ x, s.frames x = none
  perm : s.freed.Perm (List.range s.allocated)

section Destroy

variable {f : Nat} {fr : Frame α ε ω β}

theorem top_append (f p : Nat) (k : Except ε α → Code α ε ω β)
    (up : Context α ε ω β) : top f (up ++ [(p, k)]) = p := by
  induction up generalizing f with
  | nil => rfl
  | cons qk up ih => exact ih qk.1

theorem ids_append (f p : Nat) (k : Except ε α → Code α ε ω β)
    (up : Context α ε ω β) : ids f (up ++ [(p, k)]) = ids f up ++ [p] := by
  simp [ids]

/-- `handle.destroy()` of a frame destroys what it awaits, from the
inside out. -/
theorem destroyFrom_eq (hf : s.frames f = some fr)
    (hp : ∀ g k, fr.point ≠ .awaiting g k) {cont : Option Nat}
    {up₁ up₂ : Context α ε ω β}
    (h : Above s.frames f cont (up₁ ++ up₂)) {n : Nat}
    (hn : up₁.length < n) :
    s.destroyFrom n (top f up₁) = { s with
      frames := fun x => if x ∈ ids f up₁ then none else s.frames x
      freed := s.freed ++ ids f up₁ } := by
  induction up₁ using List.reverseRecOn generalizing up₂ n with
  | nil =>
      obtain ⟨m, rfl⟩ := Nat.exists_eq_add_one_of_ne_zero
        (Nat.ne_of_gt hn)
      have hfree : s.destroyFrom (m + 1) f = s.free f := by
        rw [State.destroyFrom, hf]
        cases hpt : fr.point with
        | awaiting g k => exact absurd hpt (hp g k)
        | _ => simp only [hpt]
      rw [show top f ([] : Context α ε ω β) = f from rfl, hfree,
        State.free]
      congr 1
      funext x
      simp [ids, Function.update_apply]
  | append_singleton up₁ pk ih =>
      obtain ⟨p, k⟩ := pk
      rw [List.length_append, List.length_singleton] at hn
      obtain ⟨m, rfl⟩ := Nat.exists_eq_add_one_of_ne_zero
        (Nat.ne_of_gt (Nat.zero_lt_of_lt hn))
      rw [List.append_assoc, List.singleton_append] at h
      obtain ⟨fp, hfp, hpoint⟩ := h.awaits_top
      rw [top_append, State.destroyFrom, hfp]
      simp only [hpoint]
      rw [ih h (by omega), State.free, ids_append]
      congr 1
      · funext x
        by_cases hx : x = p
        · simp [hx]
        · simp [hx]
      · rw [List.append_assoc]

variable {root : Code α ε ω β} {up : Context α ε ω β}

/-- When nothing runs, the owner may destroy the root. -/
theorem Inv.destroy {ph : Phase α ε ω β} (h : Inv root s f fr up ph)
    (hi : s.control = .idle) :
    Gone { s.destroyFrom s.allocated 0 with destroyed := true } := by
  have hp : ∀ g k, fr.point ≠ .awaiting g k := by
    intro g k hg
    rcases h.at_rest hi with ⟨o, k', -, hp⟩ | ⟨r, -, hp, -⟩
    · cases hg.symm.trans hp
    · cases hg.symm.trans hp
  have hlen : up.length < s.allocated := by
    have hl := h.live.perm.length_eq
    simp only [ids, List.length_append, List.length_cons, List.length_map,
      List.length_range] at hl
    omega
  have habove : Above s.frames f fr.continuation (up ++ []) := by
    rw [List.append_nil]
    exact h.live.above
  have heq := destroyFrom_eq h.live.leaf hp habove hlen
  rw [h.live.root] at heq
  rw [heq]
  refine ⟨hi, rfl, fun x => ?_, h.live.perm⟩
  show (if x ∈ ids f up then none else s.frames x) = none
  split
  · rfl
  · next hx =>
    cases hfr : s.frames x with
    | none => rfl
    | some fx => exact absurd ((h.live.alive x).mp (by rw [hfr]; rfl)) hx

end Destroy

-- == every run

/-- The frames are a stack, or the owner has destroyed the root. -/
def Ok (root : Code α ε ω β) (s : State α ε ω β) : Prop :=
  (∃ f fr up ph, Inv root s f fr up ph) ∨ Gone s

section Run

variable {root : Code α ε ω β}

theorem Gone.stays (h : Gone s) {a : Action β}
    (hs : (machine root).apply a s = some s') : False := by
  cases a with
  | step =>
      simp only [machine, h.idle] at hs
      cases hs
  | complete f b =>
      simp only [machine, h.idle, h.none_left] at hs
      cases hs
  | destroy =>
      simp only [machine, h.idle, h.gone] at hs
      cases hs

theorem complete_eq {x : Nat} {b : β}
    (hs : (machine root).apply (.complete x b) s = some s') :
    s.control = .idle ∧ ∃ fx o k, s.frames x = some fx ∧
      fx.point = .blocked o k ∧
      s' = { s.setFrame x { fx with point := .running } with
        control := .exec x (k b)
        given := s.given ++ [b] } := by
  simp only [machine] at hs
  split at hs
  · next fx hc hx =>
    split at hs
    · next o k hp =>
      injection hs with hs
      exact ⟨hc, fx, o, k, hx, hp, hs.symm⟩
    · cases hs
  · cases hs

theorem destroy_eq (hs : (machine root).apply .destroy s = some s') :
    s.control = .idle ∧
      s' = { s.destroyFrom s.allocated 0 with destroyed := true } := by
  simp only [machine] at hs
  split at hs
  · next hc _ =>
    injection hs with hs
    exact ⟨hc, hs.symm⟩
  · cases hs

theorem ok_step (h : Ok root s) {a : Action β}
    (hs : (machine root).apply a s = some s') : Ok root s' := by
  rcases h with ⟨f, fr, up, ph, h⟩ | h
  · cases a with
    | step =>
        rcases h.next with hi | ⟨s₁, f', fr', up', ph', hs₁, h'⟩
        · simp only [machine, hi] at hs
          cases hs
        · obtain rfl : s₁ = s' := Option.some.inj (hs₁.symm.trans hs)
          exact .inl ⟨f', fr', up', ph', h'⟩
    | complete x b =>
        obtain ⟨hi, fx, o, k, hx, hp, rfl⟩ := complete_eq hs
        obtain ⟨rfl, rfl⟩ := h.of_blocked hi hx hp
        obtain rfl : fr = fx := Option.some.inj (h.live.leaf.symm.trans hx)
        exact .inl ⟨x, _, up, _, h.complete b⟩
    | destroy =>
        obtain ⟨hi, rfl⟩ := destroy_eq hs
        exact .inr (h.destroy hi)
  · exact (h.stays hs).elim

theorem ok_reach (h : (machine root).Reachable s) : Ok root s := by
  refine h.invariant ?_ fun _ _ _ _ hi _ hs => ok_step hi hs
  rintro _ rfl
  exact .inl ⟨0, _, [], _, Inv.init root⟩

/-- A body gets to its end, or everything waits for something outside:
by induction on the code, as `norm` goes. -/
theorem Inv.run_body {f : Nat} {fr : Frame α ε ω β}
    {up : Context α ε ω β} (h : Inv root s f fr up (.exec c)) :
    (∃ s', (machine root).Leads (· = .step) s s' ∧ s'.control = .idle) ∨
    ∃ s' fr' r, (machine root).Leads (· = .step) s s' ∧
      Inv root s' f fr' up (.ended r) := by
  induction c generalizing s f fr up with
  | ret v =>
      obtain ⟨s', fr', hs, h'⟩ := Inv.finish (r := .ok v) h
      exact .inr ⟨s', fr', _, .head rfl hs (.refl _), h'⟩
  | throw e =>
      obtain ⟨s', fr', hs, h'⟩ := Inv.finish (r := .error e) h
      exact .inr ⟨s', fr', _, .head rfl hs (.refl _), h'⟩
  | await child k ihchild ihk =>
      obtain ⟨s₁, g, fr₁, hs₁, h₁⟩ := h.await
      obtain ⟨s₂, fr₂, hs₂, h₂⟩ := h₁.start
      rcases ihchild h₂ with ⟨s', hl, hi⟩ | ⟨s₃, fr₃, r, hl, h₃⟩
      · exact .inl ⟨s', .head rfl hs₁ (.head rfl hs₂ hl), hi⟩
      · obtain ⟨s₄, fr₄, hs₄, h₄⟩ := h₃.back
        have hl₄ : (machine root).Leads (· = .step) s s₄ :=
          .head rfl hs₁ (.head rfl hs₂
            (hl.trans (.head rfl hs₄ (.refl _))))
        rcases ihk r h₄ with ⟨s', hl', hi⟩ | ⟨s', fr', r', hl', h'⟩
        · exact .inl ⟨s', hl₄.trans hl', hi⟩
        · exact .inr ⟨s', fr', r', hl₄.trans hl', h'⟩
  | discard child k _ ih =>
      obtain ⟨s₁, hs₁, h₁⟩ := h.discard
      rcases ih h₁ with ⟨s', hl, hi⟩ | ⟨s', fr', r, hl, h'⟩
      · exact .inl ⟨s', .head rfl hs₁ hl, hi⟩
      · exact .inr ⟨s', fr', r, .head rfl hs₁ hl, h'⟩
  | wait o k _ =>
      obtain ⟨s', fr', hs, h'⟩ := h.wait
      exact .inl ⟨s', .head rfl hs (.refl _), h'.phase.1⟩

/-- The frames above a finished one go on in turn. -/
theorem Inv.run_up {f : Nat} {fr : Frame α ε ω β} {up : Context α ε ω β}
    {r : Except ε α} (h : Inv root s f fr up (.ended r)) :
    ∃ s', (machine root).Leads (· = .step) s s' ∧ s'.control = .idle := by
  induction up generalizing s f fr r with
  | nil =>
      have hcont : fr.continuation = none := h.live.above
      exact ⟨s, .refl s, by rw [h.phase.1, Frame.transfer, hcont]⟩
  | cons pk up ih =>
      obtain ⟨s₁, fp, hs₁, h₁⟩ := h.back
      rcases h₁.run_body with ⟨s', hl, hi⟩ | ⟨s₂, fr₂, r₂, hl, h₂⟩
      · exact ⟨s', .head rfl hs₁ hl, hi⟩
      · obtain ⟨s', hl', hi⟩ := ih h₂
        exact ⟨s', .head rfl hs₁ (hl.trans hl'), hi⟩

theorem Inv.comes_to_rest {f : Nat} {fr : Frame α ε ω β}
    {up : Context α ε ω β} {ph : Phase α ε ω β}
    (h : Inv root s f fr up ph) :
    ∃ s', (machine root).Leads (· = .step) s s' ∧ s'.control = .idle := by
  have hexec : ∀ {s₁ : State α ε ω β} {fr₁ : Frame α ε ω β} {c₁},
      Inv root s₁ f fr₁ up (.exec c₁) →
      ∃ s', (machine root).Leads (· = .step) s₁ s' ∧
        s'.control = .idle := by
    intro s₁ fr₁ c₁ h₁
    rcases h₁.run_body with hl | ⟨s₂, fr₂, r, hl, h₂⟩
    · exact hl
    · obtain ⟨s', hl', hi⟩ := h₂.run_up
      exact ⟨s', hl.trans hl', hi⟩
  cases ph with
  | exec c => exact hexec h
  | start c =>
      obtain ⟨s₁, fr₁, hs₁, h₁⟩ := h.start
      obtain ⟨s', hl, hi⟩ := hexec h₁
      exact ⟨s', .head rfl hs₁ hl, hi⟩
  | blocked o k => exact ⟨s, .refl s, h.phase.1⟩
  | ended r => exact h.run_up

/-- What was answered is not changed by the frames. -/
theorem step_given (hs : Steps root s s') : s'.given = s.given := by
  simp only [Steps, machine] at hs
  split at hs
  · cases hs
  · next f body _ =>
    cases body with
    | discard child k =>
        injection hs with hs
        rw [← hs]
        rfl
    | _ =>
        obtain ⟨fr, -, hs⟩ := Option.map_eq_some_iff.mp hs
        rw [← hs]
        rfl
  · next f _ =>
    simp only [execResume] at hs
    split at hs
    · cases hs
    · next fr _ =>
      split at hs
      · injection hs with hs
        rw [← hs]
        rfl
      · obtain ⟨ch, -, hs⟩ := Option.bind_eq_some_iff.mp hs
        obtain ⟨r, -, hs⟩ := Option.map_eq_some_iff.mp hs
        rw [← hs]
        rfl
      · cases hs

-- == main results

/-- The root came to its end with `r` and is the only frame left. -/
def Finished (s : State α ε ω β) (r : Except ε α) : Prop :=
  (∃ fr, s.frames 0 = some fr ∧ fr.point = .final ∧
    fr.outcome = some r) ∧ ∀ x, x ≠ 0 → s.frames x = none

/-- Frame `f` waits for `o`, and no other frame takes an answer. -/
def WaitsFor (root : Code α ε ω β) (s : State α ε ω β) (f : Nat) (o : ω) :
    Prop :=
  (∃ fr k, s.frames f = some fr ∧ fr.point = .blocked o k) ∧
  ∀ x b, ((machine root).apply (.complete x b) s).isSome = true ↔ x = f

theorem Inv.finished {fr : Frame α ε ω β} {f : Nat} {r : Except ε α}
    (h : Inv root s f fr [] (.ended r)) : Finished s r := by
  obtain rfl : f = 0 := h.live.root
  refine ⟨⟨fr, h.live.leaf, h.phase.2⟩, fun x hx => ?_⟩
  cases hfr : s.frames x with
  | none => rfl
  | some fx =>
      have hmem := (h.live.alive x).mp (by rw [hfr]; rfl)
      exact absurd (List.mem_singleton.mp hmem) hx

theorem Inv.waitsFor {f : Nat} {fr : Frame α ε ω β}
    {up : Context α ε ω β} {o : ω} {k : β → Code α ε ω β}
    (h : Inv root s f fr up (.blocked o k)) : WaitsFor root s f o := by
  obtain ⟨hi, hp, -, -⟩ := h.phase
  refine ⟨⟨fr, k, h.live.leaf, hp⟩, fun x b => ⟨fun hx => ?_, ?_⟩⟩
  · obtain ⟨s', hs'⟩ := Option.isSome_iff_exists.mp hx
    obtain ⟨-, fx, o', k', hfx, hpx, -⟩ := complete_eq hs'
    exact (h.of_blocked hi hfx hpx).1
  · rintro rfl
    simp only [machine, hi, h.live.leaf, hp]
    rfl

/-- Frames that hand control over do what direct style does: they come
to rest, and at rest the root has ended with the outcome of its body, or
one frame waits for what the body waits for. -/
theorem frames_run_direct_style (h : (machine root).Reachable s) :
    (∃ s', (machine root).Leads (· = .step) s s' ∧ s'.control = .idle ∧
      s'.given = s.given) ∧
    (s.control = .idle → s.destroyed = false →
      (∃ r, root.feed s.given = some (.done r) ∧ Finished s r) ∨
      ∃ o k f, root.feed s.given = some (.blocked o k) ∧
        WaitsFor root s f o) := by
  rcases ok_reach h with ⟨f, fr, up, ph, hinv⟩ | hgone
  · constructor
    · obtain ⟨s', hl, hi⟩ := hinv.comes_to_rest
      refine ⟨s', hl, hi, hl.keeps (I := fun t => t.given = s.given)
        ?_ rfl⟩
      rintro s₁ s₂ _ rfl hs hg
      exact (step_given hs).trans hg
    · intro hi _
      rcases hinv.at_rest hi with ⟨o, k, rfl, -⟩ | ⟨r, rfl, -, rfl⟩
      · exact .inr ⟨o, _, f, hinv.feed_blocked, hinv.waitsFor⟩
      · exact .inl ⟨r, hinv.rest.trans
          (congrArg some (norm_ofOutcome r)), hinv.finished⟩
  · refine ⟨⟨s, .refl s, hgone.idle, rfl⟩, fun _ hd => ?_⟩
    rw [hgone.gone] at hd
    cases hd

/-- A frame is alive from when it is made until it is destroyed, which
happens once; and whatever the frames wait for, nothing is left when the
root was destroyed. -/
theorem frames_destroyed_once (h : (machine root).Reachable s) :
    s.freed.Nodup ∧
    (∀ x, (s.frames x).isSome = true ↔
      x < s.allocated ∧ x ∉ s.freed) ∧
    (s.control = .idle → s.destroyed = false →
      ∃ s', (machine root).apply .destroy s = some s' ∧
        ∀ x, s'.frames x = none) := by
  rcases ok_reach h with ⟨f, fr, up, ph, hinv⟩ | hgone
  · have hnodup := hinv.live.nodup
    refine ⟨hnodup.of_append_left, fun x => ?_, fun hi hd => ?_⟩
    · rw [hinv.live.alive x, ← List.mem_range,
        ← hinv.live.perm.mem_iff, List.mem_append]
      have hdisj : x ∈ ids f up → x ∉ s.freed := fun hx hfreed =>
        List.disjoint_of_nodup_append hnodup hfreed hx
      tauto
    · refine ⟨_, ?_, (hinv.destroy hi).none_left⟩
      simp only [machine, hi, hd]
  · refine ⟨hgone.perm.nodup_iff.mpr List.nodup_range, fun x => ?_,
      fun _ hd => ?_⟩
    · rw [hgone.none_left x, hgone.perm.mem_iff, List.mem_range]
      exact iff_of_false Bool.false_ne_true fun hx => hx.2 hx.1
    · rw [hgone.gone] at hd
      cases hd

/-- A task that drops one, waits for a number and throws on zero; its
caller adds one. -/
def askCode : Code Nat String Unit Nat :=
  .await
    (.discard (.ret 0)
      (.wait () fun b => if b = 0 then .throw "zero" else .ret b))
    fun r => match r with
      | .ok v => .ret (v + 1)
      | .error _ => .ret 0

/-- It waits. -/
def askedState : State Nat String Unit Nat :=
  (machine askCode).final (List.replicate 5 .step) (State.init askCode)

/-- It got its number and ended. -/
def answeredState : State Nat String Unit Nat :=
  (machine askCode).final
    (List.replicate 5 .step ++ .complete 1 7 :: List.replicate 3 .step)
    (State.init askCode)

theorem answeredState_direct :
    (∃ r, askCode.feed answeredState.given = some (.done r) ∧
      Finished answeredState r) ∨
    ∃ o k f, askCode.feed answeredState.given = some (.blocked o k) ∧
      WaitsFor askCode answeredState f o :=
  (frames_run_direct_style
    (Machine.reachable_final rfl (by decide +kernel))).2 rfl rfl

theorem askedState_destroyed :
    ∃ s', (machine askCode).apply .destroy askedState = some s' ∧
      ∀ x, s'.frames x = none :=
  (frames_destroyed_once
    (Machine.reachable_final rfl (by decide +kernel))).2.2 rfl rfl

end Run

end AntRpc.Coroutine.Task
