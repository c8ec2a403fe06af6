/-
Framing a byte stream with an incremental parser: the parser looks at
the front of a buffer and either wants more bytes, recognises one frame
and says how long it is, or rejects the stream. The reader appends what
arrives and drains every complete frame before it reads again.

# What the parser has to promise

`Stable`: a verdict other than "more" survives any extension of the
buffer, and a recognised frame is non-empty and lies inside the buffer.
That is all a reader needs for its result to depend on the bytes alone
and not on how they were cut: draining a buffer, keeping the remainder,
and draining the remainder with the next chunk is draining the
concatenation (`drain_append`).

# The recursion

`drain` recurses on the buffer length; the bound that makes it
well-founded is the parser's own promise that a frame is non-empty, so
the parser is packaged with that promise (`Framer`) and the definition
cannot be written for a parser that may recognise an empty frame.
-/
import Mathlib

namespace AntRpc.Lib

/-- One verdict of an incremental parser on the front of a buffer. -/
inductive Verdict (φ ε : Type) where
  | more
  | frame (f : φ) (len : Nat)
  | reject (e : ε)

/-- Where a reader stands: still reading with a remainder, or stopped by
a rejection. -/
inductive Rest (β ε : Type) where
  | pending (buf : List β)
  | stopped (e : ε)
deriving DecidableEq

/-- An incremental parser whose recognised frames are non-empty and lie
inside the buffer. -/
structure Framer (β φ ε : Type) where
  parse : List β → Verdict φ ε
  frame_pos : ∀ {buf f n}, parse buf = .frame f n → 0 < n
  frame_le : ∀ {buf f n}, parse buf = .frame f n → n ≤ buf.length

variable {β φ ε : Type}

/-- Verdicts survive extension: the parser never reads past what its
verdict is about. -/
structure Framer.Stable (p : Framer β φ ε) : Prop where
  frame : ∀ {buf f n} (ext : List β), p.parse buf = .frame f n →
    p.parse (buf ++ ext) = .frame f n
  reject : ∀ {buf e} (ext : List β), p.parse buf = .reject e →
    p.parse (buf ++ ext) = .reject e

-- == the drain

/-- Take every complete frame off the front of the buffer. -/
def Framer.drain (p : Framer β φ ε) (buf : List β) :
    List φ × Rest β ε :=
  match _h : p.parse buf with
  | .more => ([], .pending buf)
  | .reject e => ([], .stopped e)
  | .frame f n =>
      let r := p.drain (buf.drop n)
      (f :: r.1, r.2)
termination_by buf.length
decreasing_by
  have h1 := p.frame_pos _h
  have h2 := p.frame_le _h
  rw [List.length_drop]
  omega

variable (p : Framer β φ ε)

theorem Framer.drain_more {buf : List β} (h : p.parse buf = .more) :
    p.drain buf = ([], .pending buf) := by
  rw [Framer.drain]
  split <;> simp_all

theorem Framer.drain_reject {buf : List β} {e : ε}
    (h : p.parse buf = .reject e) : p.drain buf = ([], .stopped e) := by
  rw [Framer.drain]
  split <;> simp_all

theorem Framer.drain_frame {buf : List β} {f : φ} {n : Nat}
    (h : p.parse buf = .frame f n) :
    p.drain buf
      = (f :: (p.drain (buf.drop n)).1, (p.drain (buf.drop n)).2) := by
  rw [Framer.drain]
  split <;> simp_all

/-- Recursion on the buffer the way `drain` recurses, packaged once. -/
theorem Framer.drain_induction {motive : List β → Prop}
    (more : ∀ buf, p.parse buf = .more → motive buf)
    (reject : ∀ buf e, p.parse buf = .reject e → motive buf)
    (frame : ∀ buf f n, p.parse buf = .frame f n →
      motive (buf.drop n) → motive buf)
    (buf : List β) : motive buf := by
  induction hlen : buf.length using Nat.strongRecOn generalizing buf with
  | _ len ih =>
      cases h : p.parse buf with
      | more => exact more buf h
      | reject e => exact reject buf e h
      | frame f n =>
          have h1 := p.frame_pos h
          have h2 := p.frame_le h
          refine frame buf f n h (ih _ ?_ _ rfl)
          rw [List.length_drop]
          omega

/-- A pending remainder is one the parser wants more bytes for. -/
theorem Framer.drain_pending (buf : List β) :
    ∀ rest, (p.drain buf).2 = .pending rest → p.parse rest = .more := by
  induction buf using p.drain_induction with
  | more buf h =>
      intro rest hr
      rw [p.drain_more h] at hr
      injection hr with hr
      rw [← hr]
      exact h
  | reject buf e h =>
      intro rest hr
      rw [p.drain_reject h] at hr
      cases hr
  | frame buf f n h ih =>
      intro rest hr
      rw [p.drain_frame h] at hr
      exact ih rest hr

-- == the drain of an extension

/-- Continue a drained buffer with the next bytes: what was handed over
stays, and only a pending remainder reads on. -/
def Framer.resume (r : List φ × Rest β ε) (ext : List β) :
    List φ × Rest β ε :=
  match r.2 with
  | .pending rest => (r.1 ++ (p.drain (rest ++ ext)).1, (p.drain (rest ++ ext)).2)
  | .stopped e => (r.1, .stopped e)

/-- Draining in two goes is draining once. The induction is `drain`'s
own: stability keeps each verdict under the extension, and a `more`
verdict is where the second go starts. -/
theorem Framer.drain_append (hp : p.Stable) (buf ext : List β) :
    p.drain (buf ++ ext) = p.resume (p.drain buf) ext := by
  induction buf using p.drain_induction with
  | more buf h =>
      rw [p.drain_more h]
      simp [Framer.resume]
  | reject buf e h =>
      rw [p.drain_reject h, p.drain_reject (hp.reject ext h)]
      simp [Framer.resume]
  | frame buf f n h ih =>
      have hn := p.frame_le h
      rw [p.drain_frame h, p.drain_frame (hp.frame ext h),
        List.drop_append_of_le_length hn, ih]
      unfold Framer.resume
      cases (p.drain (buf.drop n)).2 with
      | pending rest => simp
      | stopped e => simp

-- == readers

/-- Frames taken off earlier, and what the buffer drains to. -/
def Framer.after (fs : List φ) (buf : List β) : List φ × Rest β ε :=
  (fs ++ (p.drain buf).1, (p.drain buf).2)

theorem Framer.after_frame {buf : List β} {f : φ} {n : Nat} (fs : List φ)
    (h : p.parse buf = .frame f n) :
    p.after fs buf = p.after (fs ++ [f]) (buf.drop n) := by
  rw [after, p.drain_frame h, after, List.append_assoc]
  rfl

/-- A reader may append to its buffer what arrives. -/
theorem Framer.after_append (hp : p.Stable) {s buf : List β} {fs : List φ}
    (h : p.drain s = p.after fs buf) (ext : List β) :
    p.drain (s ++ ext) = p.after fs (buf ++ ext) := by
  rw [p.drain_append hp s, h, after, after, p.drain_append hp buf]
  unfold Framer.resume
  cases (p.drain buf).2 with
  | pending rest => simp
  | stopped e => rfl

/-- A beginning of a frame is no frame, and is not rejected. -/
theorem Framer.parse_beginning (hp : p.Stable) {s ext : List β} {f : φ}
    (h : p.parse (s ++ ext) = .frame f (s ++ ext).length)
    (hext : ext ≠ []) : p.parse s = .more := by
  have hpos : 0 < ext.length := List.length_pos_iff.mpr hext
  cases hs : p.parse s with
  | more => rfl
  | frame f' n =>
      have heq := (hp.frame ext hs).symm.trans h
      have hle := p.frame_le hs
      injection heq with _ hn
      rw [List.length_append] at hn
      omega
  | reject e => cases (hp.reject ext hs).symm.trans h

/-- What has arrived of a sequence of frames drains to some of them. -/
theorem Framer.drain_arrived (hp : p.Stable) (hnil : p.parse [] = .more)
    {bufs : List (List β)} {fs : List φ}
    (h : List.Forall₂ (fun buf f => p.parse buf = .frame f buf.length)
      bufs fs) {s : List β} (hs : s <+: bufs.flatten) :
    (p.drain s).1 <+: fs ∧ ∃ rest, (p.drain s).2 = .pending rest := by
  induction h generalizing s with
  | nil =>
      obtain rfl : s = [] := List.prefix_nil.mp hs
      rw [p.drain_more hnil]
      exact ⟨List.prefix_rfl, _, rfl⟩
  | @cons buf f bufs fs hparse _ ih =>
      rw [List.flatten_cons] at hs
      by_cases hbuf : buf <+: s
      · obtain ⟨s', rfl⟩ := hbuf
        have hs' : s' <+: bufs.flatten :=
          (List.prefix_append_right_inj buf).mp hs
        rw [p.drain_frame (hp.frame s' hparse), List.drop_left]
        obtain ⟨hpre, hrest⟩ := ih hs'
        exact ⟨List.cons_prefix_cons.mpr ⟨rfl, hpre⟩, hrest⟩
      · obtain ⟨ext, rfl⟩ := (List.prefix_or_prefix_of_prefix hs
          (List.prefix_append ..)).resolve_right hbuf
        have hext : ext ≠ [] := by
          rintro rfl
          exact hbuf (by rw [List.append_nil])
        rw [p.drain_more (p.parse_beginning hp hparse hext)]
        exact ⟨List.nil_prefix, _, rfl⟩

end AntRpc.Lib
