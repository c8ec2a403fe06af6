/-
The headers of a request, as the callbacks of `HttpParser` put them
together.

# What is lost

A field waits until the next one starts, and is committed then if its value
is not empty; the last one is committed at the end of the headers whatever
its value. So the map is made of the lines with a value and of the last
line (`kept`), and a field whose last value is empty is in it only if it is
the last line's (`headers_exact_iff`).
-/
import AntRpc.Http.Parser

namespace AntRpc.Http

open Protocol (Bytes)
open Text (ascii)

/-- A header line. llhttp reports an empty value as an empty span or not at
all. -/
structure HeaderLine where
  name : Bytes
  value : Bytes
  silent : Bool := false
  named : name ≠ [] := by decide
deriving DecidableEq

/-- The callbacks of a line in one block. -/
def HeaderLine.report (ctx : ParserContext) (line : HeaderLine) :
    ParserContext :=
  let ctx := onHeaderField line.name ctx
  if line.value = [] ∧ line.silent = true then ctx
  else onHeaderValue line.value ctx

/-- The headers after `on_headers_complete`. -/
def headersOf (url : Bytes) (lines : List HeaderLine) :
    Bytes → Option Bytes :=
  (onHeadersComplete (lines.foldl HeaderLine.report (onUrl url {}))).req.headers

/-- The value of the last line with a name. -/
def lastValue (lines : List HeaderLine) (name : Bytes) : Option Bytes :=
  (lines.filter (·.name == name)).getLast?.map HeaderLine.value

/-- Only the last line's field may end up empty. -/
def emptyLast (lines : List HeaderLine) : Bool :=
  lines.all fun line =>
    lastValue lines line.name != some []
      || lines.getLast?.map HeaderLine.name == some line.name

-- == last value

theorem lastValue_concat (lines : List HeaderLine) (line : HeaderLine)
    (name : Bytes) :
    lastValue (lines ++ [line]) name
      = if line.name = name then some line.value
        else lastValue lines name := by
  unfold lastValue
  rw [List.filter_append, List.filter_cons, List.filter_nil]
  by_cases hname : line.name = name
  · rw [if_pos hname, if_pos (beq_iff_eq.mpr hname), List.getLast?_concat]
    rfl
  · rw [if_neg hname, if_neg (fun h => hname (beq_iff_eq.mp h)),
      List.append_nil]

/-- A last value is some line's. -/
theorem mem_of_lastValue {lines : List HeaderLine} {name value : Bytes}
    (h : lastValue lines name = some value) :
    ∃ line ∈ lines, line.name = name ∧ line.value = value := by
  obtain ⟨line, hline, hvalue⟩ := Option.map_eq_some_iff.mp h
  obtain ⟨hmem, hname⟩ := List.mem_filter.mp (List.mem_of_getLast? hline)
  exact ⟨line, hmem, beq_iff_eq.mp hname, hvalue⟩

/-- Leaving out the lines without a value changes a field's last value if
and only if that is empty. -/
theorem lastValue_filter (lines : List HeaderLine) (name : Bytes) :
    lastValue (lines.filter (·.value != [])) name = lastValue lines name
      ↔ lastValue lines name ≠ some [] := by
  refine ⟨fun heq hempty => ?_, fun hvalue => ?_⟩
  · rw [hempty] at heq
    obtain ⟨line, hline, -, hnone⟩ := mem_of_lastValue heq
    exact bne_iff_ne.mp (List.mem_filter.mp hline).2 hnone
  · induction lines using List.reverseRecOn with
    | nil => rfl
    | append_singleton lines line ih =>
        rw [lastValue_concat] at hvalue ⊢
        rw [List.filter_append, List.filter_cons, List.filter_nil]
        by_cases hname : line.name = name
        · -- the last occurrence has a value and stays
          rw [if_pos hname] at hvalue
          have hkept : line.value ≠ [] := fun h => hvalue (by rw [h])
          rw [if_pos (bne_iff_ne.mpr hkept), lastValue_concat, if_pos hname,
            if_pos hname]
        · rw [if_neg hname] at hvalue ⊢
          by_cases hkept : (line.value != []) = true
          · rw [if_pos hkept, lastValue_concat, if_neg hname, ih hvalue]
          · rw [if_neg hkept, List.append_nil, ih hvalue]

-- == callbacks

/-- The lines that get into the map. -/
def kept (lines : List HeaderLine) (last : HeaderLine) : List HeaderLine :=
  lines.filter (·.value != []) ++ [last]

/-- What the context holds after some lines: the last one waits, those
before it are in the map if they have a value. -/
structure Waiting (lines : List HeaderLine) (last : HeaderLine)
    (ctx : ParserContext) : Prop where
  field : ctx.currentField = last.name
  value : ctx.currentValue = last.value
  headers : ctx.req.headers = lastValue (lines.filter (·.value != []))

theorem report_field (ctx : ParserContext) (line : HeaderLine) :
    (line.report ctx).currentField = line.name := by
  unfold HeaderLine.report
  split <;> rfl

theorem report_headers (ctx : ParserContext) (line : HeaderLine) :
    (line.report ctx).req.headers
      = (onHeaderField line.name ctx).req.headers := by
  unfold HeaderLine.report
  split <;> rfl

/-- The value before a field is taken away, so a silent value leaves it
empty. -/
theorem report_value (ctx : ParserContext) (line : HeaderLine) :
    (line.report ctx).currentValue = line.value := by
  unfold HeaderLine.report
  by_cases hsilent : line.value = [] ∧ line.silent = true
  · rw [if_pos hsilent, hsilent.1]
    unfold onHeaderField
    by_cases hvalue : ctx.currentValue ≠ []
    · rw [if_pos hvalue]
      rfl
    · rw [if_neg hvalue]
      exact not_not.mp hvalue
  · rw [if_neg hsilent]
    rfl

theorem waiting_first (url : Bytes) (line : HeaderLine) :
    Waiting [] line (line.report (onUrl url {})) where
  field := report_field _ line
  value := report_value _ line
  headers := by
    rw [report_headers]
    rfl

theorem Waiting.commit {lines : List HeaderLine} {last : HeaderLine}
    {ctx : ParserContext} (h : Waiting lines last ctx) :
    ctx.commit.req.headers = lastValue (kept lines last) := by
  funext name
  rw [kept, lastValue_concat]
  show Function.update ctx.req.headers ctx.currentField
    (some ctx.currentValue) name = _
  rw [h.field, h.value, h.headers, Function.update_apply]
  by_cases hname : last.name = name
  · rw [if_pos hname, if_pos hname.symm]
  · rw [if_neg hname, if_neg (Ne.symm hname)]

theorem Waiting.next {lines : List HeaderLine} {last : HeaderLine}
    {ctx : ParserContext} (h : Waiting lines last ctx) (line : HeaderLine) :
    Waiting (lines ++ [last]) line (line.report ctx) where
  field := report_field _ line
  value := report_value _ line
  headers := by
    rw [report_headers, List.filter_append, List.filter_cons,
      List.filter_nil]
    unfold onHeaderField
    by_cases hvalue : last.value = []
    · rw [if_neg (by rw [h.value]; exact not_not.mpr hvalue),
        if_neg (by rw [hvalue]; decide), List.append_nil]
      exact h.headers
    · rw [if_pos (by rw [h.value]; exact hvalue),
        if_pos (bne_iff_ne.mpr hvalue)]
      exact h.commit

/-- The loop over the lines. -/
theorem Waiting.run {lines : List HeaderLine} {last : HeaderLine}
    {ctx : ParserContext} (h : Waiting lines last ctx)
    (rest : List HeaderLine) :
    ∃ lines' last', lines' ++ [last'] = lines ++ last :: rest
      ∧ Waiting lines' last' (rest.foldl HeaderLine.report ctx) := by
  induction rest generalizing lines last ctx with
  | nil => exact ⟨lines, last, rfl, h⟩
  | cons line rest ih =>
      obtain ⟨lines', last', heq, hw⟩ := ih (h.next line)
      refine ⟨lines', last', ?_, hw⟩
      rw [heq, List.append_assoc]
      rfl

/-- The map is made of the lines with a value and of the last line. -/
theorem headersOf_eq (url : Bytes) (lines : List HeaderLine)
    (last : HeaderLine) :
    headersOf url (lines ++ [last]) = lastValue (kept lines last) := by
  have hwaiting : Waiting lines last
      ((lines ++ [last]).foldl HeaderLine.report (onUrl url {})) := by
    cases lines with
    | nil => exact waiting_first url last
    | cons first lines =>
        obtain ⟨lines', last', heq, hw⟩ :=
          (waiting_first url first).run (lines ++ [last])
        have heq : lines' ++ [last'] = (first :: lines) ++ [last] := heq
        obtain ⟨rfl, hlast⟩ := List.append_inj' heq rfl
        cases hlast
        exact hw
  unfold headersOf onHeadersComplete
  rw [if_pos (by rw [hwaiting.field]; exact last.named)]
  exact hwaiting.commit

-- == result

theorem emptyLast_concat (lines : List HeaderLine) (last : HeaderLine) :
    emptyLast (lines ++ [last]) = true
      ↔ ∀ name, last.name ≠ name → lastValue lines name ≠ some [] := by
  unfold emptyLast
  rw [List.all_eq_true, List.getLast?_concat, Option.map_some]
  simp only [Bool.or_eq_true, bne_iff_ne, beq_iff_eq, Option.some.injEq]
  refine ⟨fun h name hname hempty => ?_, fun h line hline => ?_⟩
  · obtain ⟨line, hline, rfl, -⟩ := mem_of_lastValue hempty
    rcases h line (List.mem_append_left _ hline) with hne | hlast
    · rw [lastValue_concat, if_neg hname] at hne
      exact hne hempty
    · exact hname hlast
  · by_cases hname : last.name = line.name
    · exact Or.inr hname
    · left
      rw [lastValue_concat, if_neg hname]
      exact h line.name hname

/-- The map holds exactly the fields that occur, each with its last value,
if and only if no field but the last line's ends up empty. -/
theorem headers_exact_iff (url : Bytes) (lines : List HeaderLine) :
    (∀ name, headersOf url lines name = lastValue lines name)
      ↔ emptyLast lines = true := by
  rcases List.eq_nil_or_concat lines with rfl | ⟨lines, last, rfl⟩
  · exact ⟨fun _ => rfl, fun _ _ => rfl⟩
  · rw [List.concat_eq_append, headersOf_eq, emptyLast_concat]
    refine forall_congr' fun name => ?_
    rw [kept, lastValue_concat, lastValue_concat]
    by_cases hname : last.name = name
    · rw [if_pos hname, if_pos hname]
      exact ⟨fun _ h => absurd hname h, fun _ => rfl⟩
    · rw [if_neg hname, if_neg hname, lastValue_filter]
      exact ⟨fun h _ => h, fun h => h hname⟩

/-- A field without a value that another one follows is lost. -/
theorem emptyField_lost :
    headersOf (ascii "/") [{ name := ascii "Accept", value := [] },
        { name := ascii "Host", value := ascii "a" }] (ascii "Accept")
      ≠ lastValue [{ name := ascii "Accept", value := [] },
        { name := ascii "Host", value := ascii "a" }] (ascii "Accept") := by
  decide

end AntRpc.Http
