/-
Codes that are read symbol by symbol: every symbol has a word, and a
reader gets the first symbol back from the front of any text that begins
with its word.

# Reading on

A reader that knows where each word ends reads a whole text back
(`decode_flatMap`). When no word begins with a given letter, that letter
ends a coded text unambiguously (`delimited_injective`), and this is how
such texts are put into larger ones. A text whose letters are all of one
sort ends where another sort begins (`span_injective`).
-/
import Mathlib

namespace AntRpc.Lib

/-- A code for the symbols `α` in the letters `β`, with its reader. -/
structure PrefixCode (α β : Type) where
  encode : α → List β
  read : List β → Option (α × List β)
  encode_ne_nil : ∀ a, encode a ≠ []
  read_encode : ∀ a rest, read (encode a ++ rest) = some (a, rest)

namespace PrefixCode

variable {α β : Type} (code : PrefixCode α β)

/-- Read at most `n` symbols, to the end of the text. -/
def decodeUpTo : Nat → List β → Option (List α)
  | _, [] => some []
  | 0, _ :: _ => none
  | n + 1, b :: text =>
      match code.read (b :: text) with
      | none => none
      | some (a, rest) => (decodeUpTo n rest).map (a :: ·)

/-- Read a whole text. -/
def decode (text : List β) : Option (List α) :=
  code.decodeUpTo text.length text

theorem length_le_flatMap (as : List α) :
    as.length ≤ (as.flatMap code.encode).length := by
  induction as with
  | nil => exact Nat.le_refl _
  | cons a as ih =>
      have hpos := List.length_pos_of_ne_nil (code.encode_ne_nil a)
      rw [List.flatMap_cons, List.length_append, List.length_cons]
      omega

theorem decodeUpTo_flatMap (as : List α) {n : Nat} (h : as.length ≤ n) :
    code.decodeUpTo n (as.flatMap code.encode) = some as := by
  induction as generalizing n with
  | nil => cases n <;> rfl
  | cons a as ih =>
      obtain ⟨m, rfl⟩ : ∃ m, n = m + 1 :=
        ⟨n - 1, by rw [List.length_cons] at h; omega⟩
      have hm : as.length ≤ m := by
        rw [List.length_cons] at h
        omega
      have hread := code.read_encode a (as.flatMap code.encode)
      rw [List.flatMap_cons]
      cases htext : code.encode a ++ as.flatMap code.encode with
      | nil =>
          exact absurd (List.append_eq_nil_iff.mp htext).1
            (code.encode_ne_nil a)
      | cons b text =>
          rw [htext] at hread
          rw [decodeUpTo, hread]
          show (code.decodeUpTo m (as.flatMap code.encode)).map (a :: ·)
            = some (a :: as)
          rw [ih hm]
          rfl

/-- Every coded text is read back. -/
theorem decode_flatMap (as : List α) :
    code.decode (as.flatMap code.encode) = some as :=
  code.decodeUpTo_flatMap as (code.length_le_flatMap as)

/-- A coded text in front of `rest` begins with its first word. -/
theorem head?_flatMap_cons (a : α) (as : List α) (rest : List β) :
    ((a :: as).flatMap code.encode ++ rest).head?
      = (code.encode a).head? := by
  rw [List.flatMap_cons, List.append_assoc]
  cases hword : code.encode a with
  | nil => exact absurd hword (code.encode_ne_nil a)
  | cons b word => rfl

/-- A letter that begins no word ends a coded text. -/
theorem delimited_injective {stop : β}
    (hstop : ∀ a, (code.encode a).head? ≠ some stop) {as bs : List α}
    {rest rest' : List β}
    (h : as.flatMap code.encode ++ stop :: rest
      = bs.flatMap code.encode ++ stop :: rest') :
    as = bs ∧ rest = rest' := by
  induction as generalizing bs with
  | nil =>
      cases bs with
      | nil => exact ⟨rfl, (List.cons.inj h).2⟩
      | cons b bs =>
          have hhead := congrArg List.head? h
          rw [code.head?_flatMap_cons] at hhead
          exact absurd hhead.symm (hstop b)
  | cons a as ih =>
      cases bs with
      | nil =>
          have hhead := congrArg List.head? h
          rw [code.head?_flatMap_cons] at hhead
          exact absurd hhead (hstop a)
      | cons b bs =>
          rw [List.flatMap_cons, List.flatMap_cons, List.append_assoc,
            List.append_assoc] at h
          have hread := congrArg code.read h
          rw [code.read_encode, code.read_encode] at hread
          obtain ⟨hab, htext⟩ := Prod.mk.inj (Option.some.inj hread)
          obtain ⟨has, hrest⟩ := ih htext
          exact ⟨by rw [hab, has], hrest⟩

end PrefixCode

/-- Letters of one sort, with something after them that begins with
another, are read apart. -/
theorem span_injective {β : Type} {sort : β → Bool}
    {word word' rest rest' : List β}
    (hword : ∀ b ∈ word, sort b = true)
    (hword' : ∀ b ∈ word', sort b = true)
    (hrest : ∀ b, rest.head? = some b → sort b = false)
    (hrest' : ∀ b, rest'.head? = some b → sort b = false)
    (h : word ++ rest = word' ++ rest') : word = word' ∧ rest = rest' := by
  induction word generalizing word' with
  | nil =>
      cases word' with
      | nil => exact ⟨rfl, h⟩
      | cons b word' =>
          have hb := hword' b List.mem_cons_self
          rw [hrest b (by rw [show rest = _ from h]; rfl)] at hb
          cases hb
  | cons b word ih =>
      cases word' with
      | nil =>
          have hb := hword b List.mem_cons_self
          rw [hrest' b (by rw [show rest' = _ from h.symm]; rfl)] at hb
          cases hb
      | cons b' word' =>
          obtain ⟨hb, htail⟩ := List.cons.inj h
          obtain ⟨hw, hr⟩ := ih (fun c hc => hword c (List.mem_cons_of_mem b hc))
            (fun c hc => hword' c (List.mem_cons_of_mem b' hc)) htail
          exact ⟨by rw [hb, hw], hr⟩

end AntRpc.Lib
