/-
What the escapers guarantee: nothing is lost, and what they write cannot
end the text it is put into.

# Reading back

Each escaper writes a byte as itself or as a backslash with something after
it. A reader that looks at what follows a backslash therefore always knows
where the word of a byte ends: the three ways of writing are codes
(`Lib.PrefixCode`), and the decoders are theirs.

# Quotes

Whoever reads an escaped text inside quotes stops at the first quote that
no backslash takes away. `bareQuotes` counts these, scanning as such a
reader does.
-/
import AntRpc.Lib.PrefixCode
import AntRpc.Metrics.Registry

namespace AntRpc.Text

open Lib Metrics
open Protocol (Bytes)

-- == decoders

/-- The value of a hexadecimal digit. -/
def hexValue (d : UInt8) : UInt8 := UInt8.ofNat (hex.idxOf d)

/-- The byte of two hexadecimal digits. -/
def readHex (high low : UInt8) : UInt8 := hexValue high * 16 + hexValue low

/-- Read a byte; what stands after a backslash is read by `sequence`. -/
def readEscaped (sequence : Bytes → Option (UInt8 × Bytes)) :
    Bytes → Option (UInt8 × Bytes)
  | [] => none
  | c :: rest => if c = backslash then sequence rest else some (c, rest)

/-- `xHL` for a byte by its digits, or the byte itself. -/
def readQuoteSequence : Bytes → Option (UInt8 × Bytes)
  | [] => none
  | c :: rest =>
      if c = 120 then
        match rest with
        | high :: low :: rest => some (readHex high low, rest)
        | _ => none
      else some (c, rest)

/-- `u00HL` for a byte by its digits, or the byte itself. -/
def readJsonSequence : Bytes → Option (UInt8 × Bytes)
  | [] => none
  | c :: rest =>
      if c = 117 then
        match rest with
        | _ :: _ :: high :: low :: rest => some (readHex high low, rest)
        | _ => none
      else some (c, rest)

/-- `n` for a newline, or the byte itself. -/
def readLabelSequence : Bytes → Option (UInt8 × Bytes)
  | [] => none
  | c :: rest => some (if c = 110 then newline else c, rest)

-- == words

/-- The word of a byte: itself when it has no meaning of its own, or a
backslash with a printable sequence whose further bytes have none. -/
inductive Word (c : UInt8) : Bytes → Prop
  | plain (hquote : c ≠ doubleQuote) (hbackslash : c ≠ backslash) :
      Word c [c]
  | escaped (first : UInt8) (digits : Bytes) (hfirst : 0x20 ≤ first)
      (hdigits : ∀ d ∈ digits,
        d ≠ doubleQuote ∧ d ≠ backslash ∧ 0x20 ≤ d) :
      Word c (backslash :: first :: digits)

theorem readHex_hexDigit (c : UInt8) :
    readHex (hexDigit (c >>> 4)) (hexDigit (c &&& 15)) = c := by
  revert c
  decide +kernel

/-- A digit is printable and has no meaning of its own. -/
theorem hexDigit_plain (c : UInt8) :
    (hexDigit (c >>> 4) ≠ doubleQuote ∧ hexDigit (c >>> 4) ≠ backslash
        ∧ (0x20 : UInt8) ≤ hexDigit (c >>> 4))
      ∧ hexDigit (c &&& 15) ≠ doubleQuote ∧ hexDigit (c &&& 15) ≠ backslash
      ∧ (0x20 : UInt8) ≤ hexDigit (c &&& 15) := by
  revert c
  decide +kernel

/-- The two digits of a byte as the further bytes of a sequence. -/
theorem hexDigits_plain (c : UInt8) :
    ∀ d ∈ [hexDigit (c >>> 4), hexDigit (c &&& 15)],
      d ≠ doubleQuote ∧ d ≠ backslash ∧ 0x20 ≤ d := by
  intro d hd
  rcases List.mem_pair.mp hd with rfl | rfl
  · exact (hexDigit_plain c).1
  · exact (hexDigit_plain c).2

theorem plain_of_not {c : UInt8}
    (h : ¬ (c = doubleQuote ∨ c = backslash)) :
    c ≠ doubleQuote ∧ c ≠ backslash :=
  ⟨fun hc => h (Or.inl hc), fun hc => h (Or.inr hc)⟩

theorem quoteByte_cases (c : UInt8) :
    quoteByte c
        = [backslash, 120, hexDigit (c >>> 4), hexDigit (c &&& 15)]
      ∨ ((c = doubleQuote ∨ c = backslash) ∧ quoteByte c = [backslash, c])
      ∨ ((c ≠ doubleQuote ∧ c ≠ backslash) ∧ ¬ c < 32
        ∧ quoteByte c = [c]) := by
  unfold quoteByte
  by_cases hcontrol : c < 32 ∨ c = 127
  · -- neither the quote nor the backslash is a control byte
    have hspecial : ¬ (c = doubleQuote ∨ c = backslash) := by
      rintro (rfl | rfl) <;> revert hcontrol <;> decide
    left
    rw [if_neg hspecial, if_pos hcontrol]
    rfl
  · right
    rw [if_neg hcontrol]
    by_cases hspecial : c = doubleQuote ∨ c = backslash
    · left
      rw [if_pos hspecial]
      exact ⟨hspecial, rfl⟩
    · right
      rw [if_neg hspecial]
      exact ⟨plain_of_not hspecial, fun h => hcontrol (Or.inl h), rfl⟩

theorem jsonByte_cases (c : UInt8) :
    jsonByte c
        = [backslash, 117, 48, 48, hexDigit (c >>> 4), hexDigit (c &&& 15)]
      ∨ ((c = doubleQuote ∨ c = backslash) ∧ jsonByte c = [backslash, c])
      ∨ ((c ≠ doubleQuote ∧ c ≠ backslash) ∧ ¬ c < 32
        ∧ jsonByte c = [c]) := by
  unfold jsonByte
  by_cases hspecial : c = doubleQuote ∨ c = backslash
  · right
    left
    rw [if_pos hspecial]
    exact ⟨hspecial, rfl⟩
  · rw [if_neg hspecial]
    by_cases hcontrol : c < 0x20
    · left
      rw [if_pos hcontrol]
    · right
      right
      rw [if_neg hcontrol]
      exact ⟨plain_of_not hspecial, hcontrol, rfl⟩

theorem labelByte_cases (c : UInt8) :
    (c = newline ∧ labelByte c = [backslash, 110])
      ∨ ((c = doubleQuote ∨ c = backslash) ∧ labelByte c = [backslash, c])
      ∨ ((c ≠ doubleQuote ∧ c ≠ backslash) ∧ c ≠ newline
        ∧ labelByte c = [c]) := by
  unfold labelByte
  by_cases hbackslash : c = backslash
  · right
    left
    rw [if_pos hbackslash]
    exact ⟨Or.inr hbackslash, by rw [hbackslash]⟩
  · rw [if_neg hbackslash]
    by_cases hquote : c = doubleQuote
    · right
      left
      rw [if_pos hquote]
      exact ⟨Or.inl hquote, by rw [hquote]⟩
    · rw [if_neg hquote]
      by_cases hnewline : c = newline
      · left
        rw [if_pos hnewline]
        exact ⟨hnewline, rfl⟩
      · right
        right
        rw [if_neg hnewline]
        exact ⟨⟨hquote, hbackslash⟩, hnewline, rfl⟩

/-- Both bytes with a meaning of their own are written after a
backslash. -/
theorem Word.special {c : UInt8} (h : c = doubleQuote ∨ c = backslash) :
    Word c [backslash, c] := by
  refine .escaped c [] ?_ nofun
  rcases h with rfl | rfl <;> decide

theorem quoteByte_word (c : UInt8) : Word c (quoteByte c) := by
  obtain h | ⟨hspecial, h⟩ | ⟨hplain, -, h⟩ := quoteByte_cases c
  · rw [h]
    exact .escaped 120 _ (by decide) (hexDigits_plain c)
  · rw [h]
    exact .special hspecial
  · rw [h]
    exact .plain hplain.1 hplain.2

theorem jsonByte_word (c : UInt8) : Word c (jsonByte c) := by
  obtain h | ⟨hspecial, h⟩ | ⟨hplain, -, h⟩ := jsonByte_cases c
  · rw [h]
    refine .escaped 117 _ (by decide) fun d hd => ?_
    rcases List.mem_cons.mp hd with rfl | hd
    · decide
    · rcases List.mem_cons.mp hd with rfl | hd
      · decide
      · exact hexDigits_plain c d hd
  · rw [h]
    exact .special hspecial
  · rw [h]
    exact .plain hplain.1 hplain.2

theorem labelByte_word (c : UInt8) : Word c (labelByte c) := by
  obtain ⟨-, h⟩ | ⟨hspecial, h⟩ | ⟨hplain, -, h⟩ := labelByte_cases c
  · rw [h]
    exact .escaped 110 [] (by decide) nofun
  · rw [h]
    exact .special hspecial
  · rw [h]
    exact .plain hplain.1 hplain.2

theorem Word.ne_nil {c : UInt8} {word : Bytes} (h : Word c word) :
    word ≠ [] := by
  cases h <;> exact List.cons_ne_nil _ _

-- == codes

/-- A byte that stands for itself is read as it is. -/
theorem readEscaped_plain {sequence : Bytes → Option (UInt8 × Bytes)}
    {c : UInt8} (h : c ≠ backslash) (rest : Bytes) :
    readEscaped sequence (c :: rest) = some (c, rest) :=
  if_neg h

/-- After a backslash the sequence is read. -/
theorem readEscaped_backslash {sequence : Bytes → Option (UInt8 × Bytes)}
    (rest : Bytes) :
    readEscaped sequence (backslash :: rest) = sequence rest := by
  rw [readEscaped, if_pos rfl]

def quoteCode : PrefixCode UInt8 UInt8 where
  encode := quoteByte
  read := readEscaped readQuoteSequence
  encode_ne_nil c := (quoteByte_word c).ne_nil
  read_encode c rest := by
    obtain h | ⟨hspecial, h⟩ | ⟨hplain, -, h⟩ := quoteByte_cases c
    · rw [h]
      show readEscaped _ (backslash :: 120 :: _ :: _ :: rest) = _
      rw [readEscaped_backslash]
      show some (readHex _ _, rest) = _
      rw [readHex_hexDigit]
    · rw [h]
      show readEscaped _ (backslash :: c :: rest) = _
      rw [readEscaped_backslash]
      rcases hspecial with rfl | rfl <;> rfl
    · rw [h]
      exact readEscaped_plain hplain.2 rest

def jsonCode : PrefixCode UInt8 UInt8 where
  encode := jsonByte
  read := readEscaped readJsonSequence
  encode_ne_nil c := (jsonByte_word c).ne_nil
  read_encode c rest := by
    obtain h | ⟨hspecial, h⟩ | ⟨hplain, -, h⟩ := jsonByte_cases c
    · rw [h]
      show readEscaped _ (backslash :: 117 :: _ :: _ :: _ :: _ :: rest) = _
      rw [readEscaped_backslash]
      show some (readHex _ _, rest) = _
      rw [readHex_hexDigit]
    · rw [h]
      show readEscaped _ (backslash :: c :: rest) = _
      rw [readEscaped_backslash]
      rcases hspecial with rfl | rfl <;> rfl
    · rw [h]
      exact readEscaped_plain hplain.2 rest

def labelCode : PrefixCode UInt8 UInt8 where
  encode := labelByte
  read := readEscaped readLabelSequence
  encode_ne_nil c := (labelByte_word c).ne_nil
  read_encode c rest := by
    obtain ⟨hnewline, h⟩ | ⟨hspecial, h⟩ | ⟨hplain, -, h⟩ :=
      labelByte_cases c
    · rw [h, hnewline]
      exact readEscaped_backslash _
    · rw [h]
      show readEscaped _ (backslash :: c :: rest) = _
      rw [readEscaped_backslash]
      rcases hspecial with rfl | rfl <;> rfl
    · rw [h]
      exact readEscaped_plain hplain.2 rest

/-- Reads what `Quote` wrote: between its first and its last byte. -/
def unquote (text : Bytes) : Option Bytes :=
  quoteCode.decode (text.drop 1).dropLast

/-- Reads what `EscapeJson` wrote. -/
def unescapeJson (text : Bytes) : Option Bytes := jsonCode.decode text

/-- Reads what `EscapePrometheusLabel` wrote. -/
def unescapeLabel (text : Bytes) : Option Bytes := labelCode.decode text

theorem unquote_quote (s : Bytes) : unquote (quote s) = some s := by
  have hbody : ((quote s).drop 1).dropLast = s.flatMap quoteByte := by
    show (s.flatMap quoteByte ++ [doubleQuote]).dropLast = _
    exact List.dropLast_concat
  rw [unquote, hbody]
  exact quoteCode.decode_flatMap s

-- == quotes

/-- The double quotes no backslash takes away; `taken` says whether one
stands before the text. -/
def bareQuotesFrom : (taken : Bool) → Bytes → Nat
  | _, [] => 0
  | true, _ :: text => bareQuotesFrom false text
  | false, c :: text =>
      if c = backslash then bareQuotesFrom true text
      else (if c = doubleQuote then 1 else 0) + bareQuotesFrom false text

def bareQuotes (text : Bytes) : Nat := bareQuotesFrom false text

theorem bareQuotes_plain {c : UInt8} (hquote : c ≠ doubleQuote)
    (hbackslash : c ≠ backslash) (text : Bytes) :
    bareQuotes (c :: text) = bareQuotes text := by
  rw [bareQuotes, bareQuotesFrom, if_neg hbackslash, if_neg hquote,
    Nat.zero_add]
  rfl

/-- The word of a byte holds no bare quote, and leaves none to come
untaken. -/
theorem Word.bareQuotes {c : UInt8} {word : Bytes} (h : Word c word)
    (text : Bytes) : bareQuotes (word ++ text) = bareQuotes text := by
  cases h with
  | plain hquote hbackslash => exact bareQuotes_plain hquote hbackslash text
  | escaped first digits hfirst hdigits =>
      show Text.bareQuotes (digits ++ text) = Text.bareQuotes text
      induction digits with
      | nil => rfl
      | cons d digits ih =>
          obtain ⟨hquote, hbackslash, -⟩ := hdigits d List.mem_cons_self
          rw [List.cons_append, bareQuotes_plain hquote hbackslash]
          exact ih fun d' hd' => hdigits d' (List.mem_cons_of_mem d hd')

/-- So a text of words adds none to what follows it. -/
theorem bareQuotes_flatMap {write : UInt8 → Bytes}
    (h : ∀ c, Word c (write c)) (s text : Bytes) :
    bareQuotes (s.flatMap write ++ text) = bareQuotes text := by
  induction s with
  | nil => rfl
  | cons c s ih =>
      rw [List.flatMap_cons, List.append_assoc, (h c).bareQuotes, ih]

theorem bareQuotes_words {write : UInt8 → Bytes}
    (h : ∀ c, Word c (write c)) (s : Bytes) :
    bareQuotes (s.flatMap write) = 0 := by
  have hall := bareQuotes_flatMap h s []
  rw [List.append_nil] at hall
  exact hall

/-- `Quote`'s own delimiters are its only bare quotes. -/
theorem bareQuotes_quote (s : Bytes) : bareQuotes (quote s) = 2 := by
  show 1 + bareQuotes (s.flatMap quoteByte ++ [doubleQuote]) = 2
  rw [bareQuotes_flatMap quoteByte_word]
  rfl

-- == control bytes

/-- A word is printable when its byte is, or is not written as itself. -/
theorem Word.printable {c : UInt8} {word : Bytes} (h : Word c word)
    (hc : word = [c] → 0x20 ≤ c) : ∀ b ∈ word, 0x20 ≤ b := by
  intro b hb
  cases h with
  | plain hquote hbackslash =>
      rw [List.mem_singleton.mp hb]
      exact hc rfl
  | escaped first digits hfirst hdigits =>
      rcases List.mem_cons.mp hb with rfl | hb
      · decide
      · rcases List.mem_cons.mp hb with rfl | hb
        · exact hfirst
        · exact (hdigits b hb).2.2

theorem quoteByte_printable (c : UInt8) : ∀ b ∈ quoteByte c, 0x20 ≤ b := by
  refine (quoteByte_word c).printable fun hself => ?_
  obtain h | ⟨-, h⟩ | ⟨-, hc, -⟩ := quoteByte_cases c
  · cases hself.symm.trans h
  · cases hself.symm.trans h
  · exact UInt8.not_lt.mp hc

theorem jsonByte_printable (c : UInt8) : ∀ b ∈ jsonByte c, 0x20 ≤ b := by
  refine (jsonByte_word c).printable fun hself => ?_
  obtain h | ⟨-, h⟩ | ⟨-, hc, -⟩ := jsonByte_cases c
  · cases hself.symm.trans h
  · cases hself.symm.trans h
  · exact UInt8.not_lt.mp hc

theorem newline_not_mem_labelByte (c : UInt8) : newline ∉ labelByte c := by
  intro hmem
  obtain ⟨-, h⟩ | ⟨hspecial, h⟩ | ⟨-, hc, h⟩ := labelByte_cases c
  · rw [h] at hmem
    revert hmem
    decide
  · rw [h] at hmem
    rcases hspecial with rfl | rfl <;> revert hmem <;> decide
  · rw [h] at hmem
    exact hc (List.mem_singleton.mp hmem).symm

theorem quote_printable (s : Bytes) : ∀ b ∈ quote s, 0x20 ≤ b := by
  intro b hb
  rcases List.mem_append.mp hb with hb | hb
  · rcases List.mem_append.mp hb with hb | hb
    · rw [List.mem_singleton.mp hb]
      decide
    · obtain ⟨c, -, hb⟩ := List.mem_flatMap.mp hb
      exact quoteByte_printable c b hb
  · rw [List.mem_singleton.mp hb]
    decide

theorem escapeJson_printable (s : Bytes) : ∀ b ∈ escapeJson s, 0x20 ≤ b := by
  intro b hb
  obtain ⟨c, -, hb⟩ := List.mem_flatMap.mp hb
  exact jsonByte_printable c b hb

theorem newline_not_mem_escapePrometheusLabel (s : Bytes) :
    newline ∉ escapePrometheusLabel s := by
  intro hmem
  obtain ⟨c, -, hc⟩ := List.mem_flatMap.mp hmem
  exact newline_not_mem_labelByte c hc

/-- A newline is below the printable bytes. -/
theorem newline_not_mem_of_printable {text : Bytes}
    (h : ∀ b ∈ text, 0x20 ≤ b) : newline ∉ text :=
  fun hmem => absurd (h newline hmem) (by decide)

-- == labels

/-- The escaping `PrometheusText` does in place is the admin server's. -/
theorem writeLabelByte_eq (c : UInt8) : writeLabelByte c = labelByte c := by
  unfold writeLabelByte labelByte
  by_cases hbackslash : c = backslash
  · rw [hbackslash]
    rfl
  · by_cases hquote : c = doubleQuote
    · rw [hquote]
      rfl
    · rw [if_neg (fun h => h.elim hbackslash hquote), if_neg hbackslash,
        if_neg hquote, List.nil_append]

theorem writeLabel_eq (label : Bytes) :
    writeLabel label = escapePrometheusLabel label := by
  rw [writeLabel, escapePrometheusLabel, funext writeLabelByte_eq]

/-- Whatever a peer sends: the escaped texts can be read back, hold no raw
newline and no quote that would end them, `Quote` and `EscapeJson` write
only bytes from the space on, and the registry escapes its labels like the
admin server. -/
theorem escapers_reversible_safe (s : Bytes) :
    (unquote (quote s) = some s
        ∧ unescapeJson (escapeJson s) = some s
        ∧ unescapeLabel (escapePrometheusLabel s) = some s)
      ∧ (newline ∉ quote s ∧ newline ∉ escapeJson s
        ∧ newline ∉ escapePrometheusLabel s)
      ∧ (bareQuotes (quote s) = 2
        ∧ (∃ body, quote s = [doubleQuote] ++ body ++ [doubleQuote]
          ∧ bareQuotes body = 0)
        ∧ bareQuotes (escapeJson s) = 0
        ∧ bareQuotes (escapePrometheusLabel s) = 0)
      ∧ ((∀ b ∈ quote s, 0x20 ≤ b) ∧ ∀ b ∈ escapeJson s, 0x20 ≤ b)
      ∧ writeLabel s = escapePrometheusLabel s := by
  refine ⟨⟨unquote_quote s, jsonCode.decode_flatMap s,
      labelCode.decode_flatMap s⟩,
    ⟨newline_not_mem_of_printable (quote_printable s),
      newline_not_mem_of_printable (escapeJson_printable s),
      newline_not_mem_escapePrometheusLabel s⟩,
    ⟨bareQuotes_quote s, ⟨_, rfl, bareQuotes_words quoteByte_word s⟩,
      bareQuotes_words jsonByte_word s, bareQuotes_words labelByte_word s⟩,
    ⟨quote_printable s, escapeJson_printable s⟩, writeLabel_eq s⟩

end AntRpc.Text
