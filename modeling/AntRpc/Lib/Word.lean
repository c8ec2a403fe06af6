/-
Word arithmetic the wire format and the slot identifiers rest on: a
32-bit word written as four big-endian bytes, and a 64-bit word read as
two 32-bit halves.

Nothing here names a frame or a slot. The clients write the shifts the
way their own source does, so every lemma is stated on the raw shift
expression and not on an abbreviation of it; both sides then meet by
`rw` or `simp` without unfolding anything.

# Why the proofs go bit by bit

Both facts are extensionality over the bits: `getLsbD` pushes through
`|||`, the shifts and the width casts, and what is left is a boolean
identity in the bit index. The mask `&&& 0xFFFFFFFF` has no `getLsbD`
simp form with a symbolic index, so the low half is enumerated.
-/
import Mathlib

namespace AntRpc.Lib

-- == big-endian bytes

/-- Four big-endian bytes of a word, shifted back into place, are the
word. -/
theorem be32_join (x : UInt32) :
    ((x >>> 24).toUInt8.toUInt32 <<< 24)
        ||| ((x >>> 16).toUInt8.toUInt32 <<< 16)
        ||| ((x >>> 8).toUInt8.toUInt32 <<< 8)
        ||| x.toUInt8.toUInt32
      = x := by
  apply UInt32.eq_of_toBitVec_eq
  apply BitVec.eq_of_getLsbD_eq
  intro i hi
  simp only [UInt32.toBitVec_or, UInt32.toBitVec_shiftLeft,
    UInt8.toBitVec_toUInt32, UInt32.toBitVec_toUInt8,
    UInt32.toBitVec_shiftRight, BitVec.getLsbD_or]
  simp
  grind

/-- The number a big-endian byte string is. -/
def beNat (bytes : List UInt8) : Nat :=
  bytes.foldl (fun n b => 256 * n + b.toNat) 0

theorem beNat_four (a b c d : UInt8) :
    beNat [a, b, c, d]
      = 2 ^ 24 * a.toNat + 2 ^ 16 * b.toNat + 2 ^ 8 * c.toNat + d.toNat := by
  simp only [beNat, List.foldl_cons, List.foldl_nil]
  omega

/-- Four bytes shifted into place are their big-endian number. -/
theorem be32_toNat (a b c d : UInt8) :
    ((a.toUInt32 <<< 24) ||| (b.toUInt32 <<< 16) ||| (c.toUInt32 <<< 8)
        ||| d.toUInt32).toNat
      = beNat [a, b, c, d] := by
  have ha := a.toNat_lt
  have hb := b.toNat_lt
  have hc := c.toNat_lt
  have hd := d.toNat_lt
  have h1 : (a.toUInt32 <<< 24).toNat = a.toNat <<< 24 := by
    simp [UInt32.toNat_shiftLeft, Nat.shiftLeft_eq]
    omega
  have h2 : (b.toUInt32 <<< 16).toNat = b.toNat <<< 16 := by
    simp [UInt32.toNat_shiftLeft, Nat.shiftLeft_eq]
    omega
  have h3 : (c.toUInt32 <<< 8).toNat = c.toNat <<< 8 := by
    simp [UInt32.toNat_shiftLeft, Nat.shiftLeft_eq]
    omega
  rw [UInt32.toNat_or, UInt32.toNat_or, UInt32.toNat_or, h1, h2, h3,
    UInt8.toNat_toUInt32, beNat_four]
  -- the parts have no bit in common, so the or is a sum
  have hcd : c.toNat <<< 8 + d.toNat < 2 ^ 16 := by
    rw [Nat.shiftLeft_eq]
    omega
  have hbcd : b.toNat <<< 16 + (c.toNat <<< 8 + d.toNat) < 2 ^ 24 := by
    rw [Nat.shiftLeft_eq b.toNat]
    omega
  rw [Nat.or_assoc, Nat.or_assoc, ← Nat.shiftLeft_add_eq_or_of_lt hd,
    ← Nat.shiftLeft_add_eq_or_of_lt hcd, ← Nat.shiftLeft_add_eq_or_of_lt hbcd,
    Nat.shiftLeft_eq, Nat.shiftLeft_eq, Nat.shiftLeft_eq]
  omega

-- == two 32-bit halves

/-- The high half of a joined word. -/
theorem join_high (hi lo : UInt32) :
    (((hi.toUInt64 <<< 32) ||| lo.toUInt64) >>> 32).toUInt32 = hi := by
  apply UInt32.eq_of_toBitVec_eq
  apply BitVec.eq_of_getLsbD_eq
  intro k hk
  simp
  grind

/-- The low half of a joined word, read through the mask. -/
theorem join_low (hi lo : UInt32) :
    (((hi.toUInt64 <<< 32) ||| lo.toUInt64) &&& 0xFFFFFFFF).toUInt32
      = lo := by
  apply UInt32.eq_of_toBitVec_eq
  apply BitVec.eq_of_getLsbD_eq
  intro k hk
  simp
  interval_cases k <;> simp

/-- A word is the join of its halves. -/
theorem join_eta (c : UInt64) :
    ((c >>> 32).toUInt32.toUInt64 <<< 32)
        ||| (c &&& 0xFFFFFFFF).toUInt32.toUInt64
      = c := by
  apply UInt64.eq_of_toBitVec_eq
  apply BitVec.eq_of_getLsbD_eq
  intro k hk
  simp only [UInt64.toBitVec_or, UInt64.toBitVec_shiftLeft,
    UInt32.toBitVec_toUInt64, UInt64.toBitVec_toUInt32,
    UInt64.toBitVec_shiftRight, UInt64.toBitVec_and, BitVec.getLsbD_or]
  simp
  by_cases h : k < 32
  · interval_cases k <;> simp
  · grind

/-- Joining is injective in both halves at once. -/
theorem join_inj {hi lo hi' lo' : UInt32}
    (h : (hi.toUInt64 <<< 32) ||| lo.toUInt64
      = (hi'.toUInt64 <<< 32) ||| lo'.toUInt64) :
    hi = hi' ∧ lo = lo' := by
  constructor
  · rw [← join_high hi lo, h, join_high]
  · rw [← join_low hi lo, h, join_low]

end AntRpc.Lib
