/-
What a cut into blocks changes, and when it changes nothing.

# Pieces

At the end of a block an open span is reported. `on_body` appends what it
gets, so for the body the pieces add up; `on_url`, `on_header_field` and
`on_header_value` keep the last piece only.

# Readers

Who reads neither the url nor the headers of a request sees no difference,
whatever the cut. Who reads the url sees none as long as no block ends in
the url, and who reads the headers as long as none ends in a field name or
a value (`parse_ignores_cuts`). The parsers of the blocks and of the whole
are the same to such a reader at every block boundary (`Reader.Same`), up
to how much of the body has been appended already.

A cut in a token need not show: what it spoils may be overwritten by a
later line of the same name (`maskedBlocks`).

# Where a token ends

llhttp closes a span on the byte after it. A block that ends with the last
byte of a token therefore ends inside the span, and the piece the next
block reports is empty: the condition excludes cuts inside a token and
right behind it.
-/
import AntRpc.Http.Parser

namespace AntRpc.Http

open Protocol (Bytes)
open Text (ascii)

variable {σ : Type} {llhttp : Llhttp σ}

-- == runs

theorem Outcome.after_zero (o : Outcome) : o.after 0 = o := by
  cases o <;> rfl

theorem Outcome.after_after (o : Outcome) (m n : Nat) :
    (o.after m).after n = o.after (m + n) := by
  cases o with
  | ok => rfl
  | paused consumed => exact congrArg Outcome.paused (Nat.add_assoc _ _ _)
  | failed => rfl

theorem Outcome.after_eq_ok {o : Outcome} {n : Nat} (h : o.after n = .ok) :
    o = .ok := by
  cases o with
  | ok => rfl
  | paused consumed => cases h
  | failed => cases h

/-- A run that went through goes on with what follows. -/
theorem Llhttp.run_append {a b : Bytes} {p q : Parser σ}
    (h : llhttp.run a p = (q, .ok)) :
    llhttp.run (a ++ b) p
      = ((llhttp.run b q).1, (llhttp.run b q).2.after a.length) := by
  induction a generalizing p with
  | nil =>
      obtain ⟨rfl, -⟩ := Prod.mk.inj h
      rw [List.length_nil, Outcome.after_zero]
      rfl
  | cons x a ih =>
      rw [Llhttp.run] at h
      rw [List.cons_append, Llhttp.run]
      dsimp only at h ⊢
      cases hverdict : (llhttp.step p.state x).verdict with
      | refuse =>
          rw [hverdict] at h
          cases h
      | pause =>
          rw [hverdict] at h
          cases h
      | goOn =>
          rw [hverdict] at h
          obtain ⟨hq, hok⟩ := Prod.mk.inj h
          have hrun : llhttp.run a (p.leave (llhttp.step p.state x) x)
              = (q, .ok) :=
            Prod.ext hq (Outcome.after_eq_ok hok)
          simp only [ih hrun, Outcome.after_after, List.length_cons]

/-- One that stopped stays where it stopped. -/
theorem Llhttp.run_append_stopped {a b : Bytes} {p : Parser σ}
    (h : (llhttp.run a p).2 ≠ .ok) :
    llhttp.run (a ++ b) p = llhttp.run a p := by
  induction a generalizing p with
  | nil => exact absurd rfl h
  | cons x a ih =>
      rw [Llhttp.run] at h ⊢
      rw [List.cons_append, Llhttp.run]
      dsimp only at h ⊢
      cases hverdict : (llhttp.step p.state x).verdict with
      | refuse => rfl
      | pause => rfl
      | goOn =>
          rw [hverdict] at h
          have hrest : (llhttp.run a
              (p.leave (llhttp.step p.state x) x)).2 ≠ .ok :=
            fun hok => h (by rw [hok]; rfl)
          simp only [ih hrest]

-- == readers

/-- Somebody who reads the url of a request or not, and its headers or
not. -/
structure Reader where
  url : Bool
  headers : Bool

namespace Reader

variable (rd : Reader)

/-- The spans that have to come in one piece. -/
def reads : SpanKind → Bool
  | .url => rd.url
  | .headerField | .headerValue => rd.headers
  | .body => false

/-- What is read of a request. -/
def request (req : HttpRequest) : HttpRequest :=
  { req with
    url := if rd.url then req.url else []
    headers := if rd.headers then req.headers else fun _ => none }

def context (ctx : ParserContext) : ParserContext where
  req := rd.request ctx.req
  currentField := if rd.headers then ctx.currentField else []
  currentValue := if rd.headers then ctx.currentValue else []

/-- What is read of a parser, with the body appended as far as it has
come. -/
def view (p : Parser σ) : Parser σ :=
  { p with
    ctx := rd.context
      (if p.span = some .body then onBody p.piece p.ctx else p.ctx)
    piece := if p.span.any rd.reads then p.piece else [] }

/-- Parsers that are the same to the reader. -/
def Same (p q : Parser σ) : Prop := rd.view p = rd.view q

end Reader

theorem onBody_nil (ctx : ParserContext) : onBody [] ctx = ctx := by
  unfold onBody
  rw [List.append_nil]

theorem onBody_onBody (a b : Bytes) (ctx : ParserContext) :
    onBody b (onBody a ctx) = onBody (a ++ b) ctx := by
  unfold onBody
  rw [List.append_assoc]

theorem onBody_onHeadersComplete (a : Bytes) (ctx : ParserContext) :
    onBody a (onHeadersComplete ctx) = onHeadersComplete (onBody a ctx) := by
  unfold onHeadersComplete
  by_cases hfield : ctx.currentField ≠ []
  · rw [if_pos hfield, if_pos (show (onBody a ctx).currentField ≠ [] from
      hfield)]
    rfl
  · rw [if_neg hfield, if_neg (show ¬ (onBody a ctx).currentField ≠ [] from
      hfield)]

namespace Reader

variable {rd : Reader}

theorem context_context (ctx : ParserContext) :
    rd.context (rd.context ctx) = rd.context ctx := by
  rcases rd with ⟨_ | _, _ | _⟩ <;> rfl

theorem context_onBody (a : Bytes) (ctx : ParserContext) :
    rd.context (onBody a (rd.context ctx)) = rd.context (onBody a ctx) := by
  rcases rd with ⟨_ | _, _ | _⟩ <;> rfl

theorem context_onHeadersComplete (ctx : ParserContext) :
    rd.context (onHeadersComplete (rd.context ctx))
      = rd.context (onHeadersComplete ctx) := by
  unfold onHeadersComplete
  rcases rd with ⟨_ | _, _ | _⟩ <;>
    by_cases hfield : ctx.currentField = [] <;>
    simp [context, request, ParserContext.commit, hfield]

/-- A callback does to what is read of a context what it does to the
context. -/
theorem context_report {kind : SpanKind} (hkind : kind ≠ .body)
    (piece : Bytes) (ctx : ParserContext) :
    rd.context (kind.report (if rd.reads kind then piece else [])
        (rd.context ctx))
      = rd.context (kind.report piece ctx) := by
  cases kind with
  | body => exact absurd rfl hkind
  | url | headerValue => rcases rd with ⟨_ | _, _ | _⟩ <;> rfl
  | headerField =>
      unfold SpanKind.report onHeaderField
      rcases rd with ⟨_ | _, _ | _⟩ <;>
        by_cases hvalue : ctx.currentValue = [] <;>
        simp [context, request, reads, ParserContext.commit, hvalue]

theorem context_unread {kind : SpanKind} (hreads : rd.reads kind = false)
    (hkind : kind ≠ .body) (piece : Bytes) (ctx : ParserContext) :
    rd.context (kind.report piece ctx) = rd.context ctx := by
  obtain ⟨url, headers⟩ := rd
  cases kind with
  | body => exact absurd rfl hkind
  | url | headerValue =>
      cases hreads
      rfl
  | headerField =>
      cases hreads
      unfold SpanKind.report onHeaderField
      simp only
      split <;> rfl

theorem report_view (p : Parser σ) :
    rd.context (rd.view p).report.ctx = rd.context p.report.ctx := by
  obtain ⟨state, span, piece, method, keepAlive, ctx⟩ := p
  cases span with
  | none => exact context_context ctx
  | some kind =>
      by_cases hkind : kind = .body
      · subst hkind
        show rd.context (onBody [] (rd.context (onBody piece ctx)))
          = rd.context (onBody piece ctx)
        rw [onBody_nil, context_context]
      · show rd.context (kind.report (if (some kind).any rd.reads then piece
          else []) (rd.context (if some kind = some .body then _ else ctx)))
          = _
        rw [if_neg fun h => hkind (Option.some.inj h)]
        exact context_report hkind piece ctx

theorem view_span (p : Parser σ) (kind : Option SpanKind) :
    rd.view (p.signal (.span kind))
      = { p with
          span := kind, piece := [], ctx := rd.context p.report.ctx } := by
  have hreport : p.report = { p with ctx := p.report.ctx } := by
    unfold Parser.report
    split <;> rfl
  unfold Parser.signal
  rw [hreport]
  unfold view
  simp only [onBody_nil, ite_self]

theorem view_headersComplete (p : Parser σ) :
    rd.view (p.signal .headersComplete)
      = { rd.view p with
          ctx := rd.context (onHeadersComplete (rd.view p).ctx) } := by
  unfold Parser.signal view
  simp only [context_onHeadersComplete]
  by_cases hbody : p.span = some .body
  · rw [if_pos hbody, if_pos hbody, onBody_onHeadersComplete]
  · rw [if_neg hbody, if_neg hbody]

theorem view_messageComplete (p : Parser σ) :
    rd.view (p.signal .messageComplete)
      = { rd.view p with
          ctx := rd.context (onMessageComplete (rd.view p).ctx) } := by
  unfold Parser.signal view
  rcases rd with ⟨_ | _, _ | _⟩ <;> split_ifs <;> rfl

/-- The state, the span and the registers are read by everybody. -/
theorem Same.core {p q : Parser σ} (h : rd.Same p q) :
    p.state = q.state ∧ p.span = q.span ∧ p.method = q.method
      ∧ p.keepAlive = q.keepAlive := by
  have hview : ∀ p : Parser σ, (rd.view p).state = p.state
      ∧ (rd.view p).span = p.span ∧ (rd.view p).method = p.method
      ∧ (rd.view p).keepAlive = p.keepAlive := fun _ => ⟨rfl, rfl, rfl, rfl⟩
  have hp := hview p
  rw [h] at hp
  obtain ⟨h1, h2, h3, h4⟩ := hp
  exact ⟨h1.symm, h2.symm, h3.symm, h4.symm⟩

/-- Whatever llhttp does between bytes, it does to what is read. -/
theorem Same.signal {p q : Parser σ} (h : rd.Same p q) (s : Signal) :
    rd.Same (p.signal s) (q.signal s) := by
  obtain ⟨hstate, -, hmethod, hkeep⟩ := h.core
  unfold Same at *
  cases s with
  | span kind =>
      rw [view_span, view_span, ← report_view p, ← report_view q, h, hstate,
        hmethod, hkeep]
  | setMethod name =>
      exact congrArg (fun v : Parser σ => { v with method := name }) h
  | setKeepAlive keepAlive =>
      exact congrArg (fun v : Parser σ => { v with keepAlive := keepAlive }) h
  | headersComplete => rw [view_headersComplete, view_headersComplete, h]
  | messageComplete => rw [view_messageComplete, view_messageComplete, h]

/-- And so it takes a byte. -/
theorem view_take (p : Parser σ) (b : UInt8) (next : σ) :
    rd.view (p.take b next)
      = { rd.view p with
          state := next
          ctx := rd.context (if p.span = some .body
            then onBody [b] (rd.view p).ctx else (rd.view p).ctx)
          piece := if p.span.any rd.reads then (rd.view p).piece ++ [b]
            else [] } := by
  obtain ⟨state, span, piece, method, keepAlive, ctx⟩ := p
  unfold Parser.take view
  cases span with
  | none => simp only [context_context, reduceCtorEq, if_false]; rfl
  | some kind =>
      by_cases hkind : kind = .body
      · subst hkind
        simp only [if_true, reduceCtorEq, if_false, context_onBody,
          onBody_onBody]
        rfl
      · have hne : (some kind = some SpanKind.body) = False :=
          eq_false fun h => hkind (Option.some.inj h)
        simp only [hne, if_false, reduceCtorEq, context_context]
        split_ifs <;> rfl

theorem Same.take {p q : Parser σ} (h : rd.Same p q) (b : UInt8)
    (next : σ) : rd.Same (p.take b next) (q.take b next) := by
  obtain ⟨-, hspan, -, -⟩ := h.core
  unfold Same at *
  rw [view_take, view_take, h, hspan]

theorem Same.trans {p q r : Parser σ} (h : rd.Same p q)
    (h' : rd.Same q r) : rd.Same p r :=
  Eq.trans h h'

theorem Same.signals {p q : Parser σ} (h : rd.Same p q) (l : List Signal) :
    rd.Same (l.foldl Parser.signal p) (l.foldl Parser.signal q) := by
  induction l generalizing p q with
  | nil => exact h
  | cons s l ih => exact ih (h.signal s)

theorem Same.leave {p q : Parser σ} (h : rd.Same p q) (t : Transition σ)
    (b : UInt8) : rd.Same (p.leave t b) (q.leave t b) :=
  ((h.signals t.before).take b t.next).signals t.after

/-- Parsers that are the same to a reader run alike. -/
theorem Same.run (llhttp : Llhttp σ) {p q : Parser σ} (h : rd.Same p q)
    (block : Bytes) :
    rd.Same (llhttp.run block p).1 (llhttp.run block q).1
      ∧ (llhttp.run block p).2 = (llhttp.run block q).2 := by
  induction block generalizing p q with
  | nil => exact ⟨h, rfl⟩
  | cons b block ih =>
      rw [Llhttp.run, Llhttp.run, h.core.1]
      dsimp only
      cases (llhttp.step q.state b).verdict with
      | refuse => exact ⟨h.signals _, rfl⟩
      | pause => exact ⟨h.leave _ b, rfl⟩
      | goOn =>
          obtain ⟨hsame, houtcome⟩ := ih (h.leave (llhttp.step q.state b) b)
          exact ⟨hsame, by rw [houtcome]⟩

theorem Same.complete {p q : Parser σ} (h : rd.Same p q) :
    p.ctx.req.complete = q.ctx.req.complete := by
  have hview : ∀ p : Parser σ,
      (rd.view p).ctx.req.complete = p.ctx.req.complete := by
    intro p
    show (if p.span = some .body then onBody p.piece p.ctx
      else p.ctx).req.complete = _
    split <;> rfl
  rw [← hview p, ← hview q, h]

-- == ends of blocks

variable (rd) in
/-- The spans a block may end in. -/
def whole (span : Option SpanKind) : Bool := !span.any rd.reads

/-- The end of a block and the start of the next go unnoticed there. -/
theorem restart_same {p : Parser σ} (h : rd.whole p.span = true) :
    rd.Same { p.report with piece := [] } p := by
  obtain ⟨state, span, piece, method, keepAlive, ctx⟩ := p
  cases span with
  | none => rfl
  | some kind =>
      have hreads : rd.reads kind = false := by
        simpa only [whole, Option.any_some, Bool.not_eq_true'] using h
      unfold Same view
      by_cases hkind : kind = .body
      · subst hkind
        simp only [Parser.report, SpanKind.report, if_true, onBody_nil,
          ite_self, Option.any_some, hreads, Bool.false_eq_true, if_false]
      · have hne : (some kind = some SpanKind.body) = False :=
          eq_false fun h => hkind (Option.some.inj h)
        simp only [hne, if_false, Option.any_some, hreads,
          Bool.false_eq_true, Parser.report]
        rw [context_unread hreads hkind]

variable (rd) in
/-- What is read of what `parse` returns. -/
def result (r : ParseResult × HttpRequest) : ParseResult × HttpRequest :=
  (r.1, rd.request r.2)

theorem result_finish {p q : Parser σ}
    (hctx : rd.context p.ctx = rd.context q.ctx)
    (hmethod : p.method = q.method) (hkeep : p.keepAlive = q.keepAlive)
    (n : Nat) : rd.result (p.finish n) = rd.result (q.finish n) := by
  have hreq : rd.request p.ctx.req = rd.request q.ctx.req :=
    congrArg ParserContext.req hctx
  have hcomplete : p.ctx.req.complete = q.ctx.req.complete := by
    have hread : (rd.request p.ctx.req).complete
        = (rd.request q.ctx.req).complete := by rw [hreq]
    exact hread
  unfold Parser.finish
  rw [hcomplete]
  split
  · show (_, { rd.request p.ctx.req with
      method := p.method, keepAlive := p.keepAlive }) = _
    rw [hreq, hmethod, hkeep]
    rfl
  · exact congrArg (Prod.mk _) hreq

end Reader

theorem Parser.report_complete (p : Parser σ) :
    p.report.ctx.req.complete = p.ctx.req.complete := by
  obtain ⟨state, span, piece, method, keepAlive, ctx⟩ := p
  cases span with
  | none => rfl
  | some kind =>
      cases kind with
      | headerField =>
          show (onHeaderField piece ctx).req.complete = ctx.req.complete
          unfold onHeaderField
          by_cases hvalue : ctx.currentValue ≠ []
          · rw [if_pos hvalue]
            rfl
          · rw [if_neg hvalue]
      | _ => rfl

theorem Parser.report_method (p : Parser σ) :
    p.report.method = p.method ∧ p.report.keepAlive = p.keepAlive := by
  obtain ⟨state, span, piece, method, keepAlive, ctx⟩ := p
  cases span <;> exact ⟨rfl, rfl⟩

theorem Reader.Same.finish_report {rd : Reader} {p q : Parser σ}
    (h : rd.Same p q) (n : Nat) :
    rd.result (p.report.finish n) = rd.result (q.report.finish n) := by
  obtain ⟨-, -, hmethod, hkeep⟩ := h.core
  refine Reader.result_finish ?_ ?_ ?_ n
  · rw [← Reader.report_view p, ← Reader.report_view q, h]
  · rw [p.report_method.1, q.report_method.1, hmethod]
  · rw [p.report_method.2, q.report_method.2, hkeep]

/-- Without an open span there is nothing to report. -/
theorem Reader.Same.finish {rd : Reader} {p q : Parser σ}
    (h : rd.Same p q) (hspan : q.span = none) (n : Nat) :
    rd.result (p.finish n) = rd.result (q.finish n) := by
  have hp : p.report = p := by rw [Parser.report, h.core.2.1, hspan]
  have hq : q.report = q := by rw [Parser.report, hspan]
  have hfinish := h.finish_report n
  rwa [hp, hq] at hfinish

-- == parse

/-- What `parse` makes of a run over the rest of its bytes. -/
def conclude (r : Parser σ × Outcome) (totalConsumed length : Nat) :
    ParseResult × HttpRequest :=
  match r.2 with
  | .ok => r.1.report.finish (totalConsumed + length)
  | .paused consumed => r.1.finish (totalConsumed + consumed)
  | .failed => (⟨.error, 0⟩, r.1.ctx.req)

theorem conclude_after (p : Parser σ) (o : Outcome) (n a b : Nat) :
    conclude (p, o.after a) n (a + b) = conclude (p, o) (n + a) b := by
  cases o with
  | ok =>
      show p.report.finish (n + (a + b)) = p.report.finish (n + a + b)
      rw [Nat.add_assoc]
  | paused consumed =>
      show p.finish (n + (consumed + a)) = p.finish (n + a + consumed)
      rw [Nat.add_comm consumed, Nat.add_assoc]
  | failed => rfl

/-- What `parse` goes on with after the run over a block. -/
def Llhttp.goOn (llhttp : Llhttp σ) (blocks : List Bytes) (length n : Nat)
    (r : Parser σ × Outcome) : ParseResult × HttpRequest :=
  match r.2 with
  | .ok =>
      if r.1.ctx.req.complete then r.1.report.finish (n + length)
      else llhttp.parseBlocks blocks r.1.report (n + length)
  | .paused consumed => r.1.finish (n + consumed)
  | .failed => (⟨.error, 0⟩, r.1.ctx.req)

theorem Llhttp.parseBlocks_cons {block : Bytes} (h : block ≠ [])
    (blocks : List Bytes) (p : Parser σ) (n : Nat) :
    llhttp.parseBlocks (block :: blocks) p n
      = llhttp.goOn blocks block.length n
        (llhttp.run block { p with piece := [] }) := by
  rw [Llhttp.parseBlocks, if_neg h, Llhttp.execute]
  generalize llhttp.run block { p with piece := [] } = r
  obtain ⟨p', outcome⟩ := r
  cases outcome with
  | ok =>
      show (if p'.report.ctx.req.complete = true then _ else _)
        = (if p'.ctx.req.complete = true then _ else _)
      rw [p'.report_complete]
  | paused consumed => rfl
  | failed => rfl

theorem Llhttp.parse_whole {r : Bytes} (h : r ≠ []) :
    llhttp.parse [r] = conclude (llhttp.run r llhttp.reset) 0 r.length := by
  rw [Llhttp.parse, Llhttp.parseBlocks_cons h]
  show llhttp.goOn [] r.length 0 (llhttp.run r llhttp.reset) = _
  generalize llhttp.run r llhttp.reset = q
  obtain ⟨p', outcome⟩ := q
  cases outcome with
  | ok =>
      show (if p'.ctx.req.complete = true then _ else _) = _
      split <;> rfl
  | paused consumed => rfl
  | failed => rfl

-- == requests

/-- A whole request: llhttp accepts it, it is complete with its last byte
and not before, and nothing is open where llhttp stops. -/
structure HoldsRequest (llhttp : Llhttp σ) (r : Bytes) : Prop where
  accepted : (llhttp.run r llhttp.reset).2 ≠ .failed
  incomplete : ∀ i < r.length,
    (llhttp.run (r.take i) llhttp.reset).1.ctx.req.complete = false
  closed : (llhttp.run r llhttp.reset).2 ≠ .ok →
    (llhttp.run r llhttp.reset).1.span = none
  completes : (llhttp.run r llhttp.reset).1.ctx.req.complete = true

theorem HoldsRequest.ne_nil {r : Bytes} (h : HoldsRequest llhttp r) :
    r ≠ [] := by
  rintro rfl
  cases h.completes

/-- llhttp goes through the beginning of a request, and it is not complete
with that. -/
theorem HoldsRequest.beginning {a b : Bytes}
    (h : HoldsRequest llhttp (a ++ b)) (hb : b ≠ []) :
    ∃ q, llhttp.run a llhttp.reset = (q, .ok)
      ∧ q.ctx.req.complete = false := by
  have hnot : (llhttp.run a llhttp.reset).1.ctx.req.complete = false := by
    have hat := h.incomplete a.length (by
      rw [List.length_append]
      exact Nat.lt_add_of_pos_right (List.length_pos_of_ne_nil hb))
    rwa [List.take_left] at hat
  refine ⟨(llhttp.run a llhttp.reset).1, Prod.ext rfl ?_, hnot⟩
  by_contra hstop
  have hcompletes := h.completes
  rw [Llhttp.run_append_stopped hstop, hnot] at hcompletes
  cases hcompletes

/-- No block ends where the reader would see it. -/
def Reader.uncut (rd : Reader) (llhttp : Llhttp σ) (blocks : List Bytes) :
    Bool :=
  (List.range blocks.length).all fun i =>
    (blocks.drop i).flatten == []
      || rd.whole (llhttp.run (blocks.take i).flatten llhttp.reset).1.span

theorem Reader.uncut_split {rd : Reader} {l r : List Bytes}
    (h : rd.uncut llhttp (l ++ r) = true) (hr : r.flatten ≠ []) :
    rd.whole (llhttp.run l.flatten llhttp.reset).1.span = true := by
  have hlength : l.length < (l ++ r).length := by
    cases r with
    | nil => exact absurd rfl hr
    | cons b r =>
        rw [List.length_append, List.length_cons]
        omega
  have hat := List.all_eq_true.mp h l.length (List.mem_range.mpr hlength)
  rw [List.drop_left, List.take_left, Bool.or_eq_true] at hat
  exact hat.resolve_left fun hnil => hr (beq_iff_eq.mp hnil)

/-- Whoever reads neither the url nor the headers. -/
def Reader.other : Reader := ⟨false, false⟩

/-- They see no cut. -/
theorem Reader.whole_other (span : Option SpanKind) :
    other.whole span = true := by
  cases span with
  | none => rfl
  | some kind => cases kind <;> rfl

theorem Reader.uncut_other (blocks : List Bytes) :
    other.uncut llhttp blocks = true := by
  refine List.all_eq_true.mpr fun i _ => ?_
  rw [whole_other, Bool.or_true]

/-- Over the blocks of the beginning of a request, the loop goes on. -/
theorem Llhttp.parseBlocks_skip {rd : Reader} {ds bs last : List Bytes}
    {p q : Parser σ} (h : HoldsRequest llhttp (ds ++ bs ++ last).flatten)
    (hlast : last.flatten ≠ [])
    (hcut : rd.uncut llhttp (ds ++ bs ++ last) = true)
    (hq : llhttp.run ds.flatten llhttp.reset = (q, .ok))
    (hp : rd.Same p q) :
    ∃ p' q', llhttp.run (ds ++ bs).flatten llhttp.reset = (q', .ok)
      ∧ rd.Same p' q' ∧ ∀ rest n,
        llhttp.parseBlocks (bs ++ rest) p.report n
          = llhttp.parseBlocks rest p'.report (n + bs.flatten.length) := by
  induction bs generalizing ds p q with
  | nil =>
      exact ⟨p, q, by rw [List.append_nil]; exact hq, hp, fun _ _ => rfl⟩
  | cons block bs ih =>
      have hassoc : ds ++ block :: bs = ds ++ [block] ++ bs := by
        rw [List.append_assoc]
        rfl
      have hwhole := hcut
      rw [List.append_assoc] at hwhole
      rw [hassoc] at h hcut ⊢
      by_cases hblock : block = []
      · subst hblock
        have hflat : (ds ++ [[]]).flatten = ds.flatten := by
          rw [List.flatten_append, List.flatten_singleton, List.append_nil]
        obtain ⟨p', q', hq', hp', hrest⟩ := ih h hcut (hflat ▸ hq) hp
        refine ⟨p', q', hq', hp', fun rest n => ?_⟩
        rw [List.cons_append, Llhttp.parseBlocks, if_pos rfl]
        exact hrest rest n
      · have hbytes : (block :: bs ++ last).flatten ≠ [] := fun hnil =>
          hblock (List.append_eq_nil_iff.mp hnil).1
        have hspan := Reader.uncut_split hwhole hbytes
        rw [hq, ← hp.core.2.1] at hspan
        obtain ⟨hsame, houtcome⟩ :=
          ((Reader.restart_same hspan).trans hp).run llhttp block
        -- llhttp goes through the block, and the request is not complete
        have hmore : (bs ++ last).flatten ≠ [] := fun hnil =>
          hlast (List.append_eq_nil_iff.mp
            (List.flatten_append.symm.trans hnil)).2
        have hsplit := h
        rw [List.append_assoc, List.flatten_append] at hsplit
        obtain ⟨q₁, hq₁, hnot⟩ := hsplit.beginning hmore
        have hrun := hq₁
        rw [List.flatten_append, List.flatten_singleton,
          Llhttp.run_append hq] at hrun
        obtain ⟨hfst, hok⟩ := Prod.mk.inj hrun
        have hok := Outcome.after_eq_ok hok
        rw [hfst] at hsame
        obtain ⟨p', q', hq', hp', hrest⟩ := ih h hcut hq₁ hsame
        refine ⟨p', q', hq', hp', fun rest n => ?_⟩
        rw [List.cons_append, Llhttp.parseBlocks_cons hblock, Llhttp.goOn,
          houtcome, hok]
        dsimp only
        rw [hsame.complete, hnot, if_neg Bool.false_ne_true, hrest,
          List.flatten_cons, List.length_append, Nat.add_assoc]

/-- Blocks that are not all empty have a last one that is not. -/
theorem last_block {l : List Bytes} (h : l.flatten ≠ []) :
    ∃ l₁ b l₂, l = l₁ ++ b :: l₂ ∧ b ≠ [] ∧ l₂.flatten = [] := by
  induction l with
  | nil => exact absurd rfl h
  | cons b l ih =>
      by_cases hl : l.flatten = []
      · refine ⟨[], b, l, rfl, fun hb => h ?_, hl⟩
        rw [List.flatten_cons, hb, hl, List.append_nil]
      · obtain ⟨l₁, b', l₂, rfl, hb', hl₂⟩ := ih hl
        exact ⟨b :: l₁, b', l₂, rfl, hb', hl₂⟩

/-- The loop comes to the last block of a request with a parser that is
the same to the reader as the one of a single block. -/
theorem HoldsRequest.at_last {rd : Reader} {l : List Bytes}
    (h : HoldsRequest llhttp l.flatten)
    (hcut : rd.uncut llhttp l = true) :
    ∃ block empty n, ∃ r : Parser σ × Outcome, ∃ q,
      rd.Same r.1 (llhttp.run block q).1
      ∧ r.2 = (llhttp.run block q).2
      ∧ llhttp.run l.flatten llhttp.reset
        = ((llhttp.run block q).1, (llhttp.run block q).2.after n)
      ∧ l.flatten.length = n + block.length
      ∧ ∀ rest, llhttp.parse (l ++ rest)
        = llhttp.goOn (empty ++ rest) block.length n r := by
  obtain ⟨l₁, b, l₂, rfl, hb, hl₂⟩ := last_block h.ne_nil
  have hbytes : (b :: l₂).flatten = b := by
    rw [List.flatten_cons, hl₂, List.append_nil]
  have hlast : (b :: l₂).flatten ≠ [] := by
    rw [hbytes]
    exact hb
  have h' : HoldsRequest llhttp ([] ++ l₁ ++ b :: l₂).flatten := h
  have hcut' : rd.uncut llhttp ([] ++ l₁ ++ b :: l₂) = true := hcut
  have hstart : llhttp.run ([] : List Bytes).flatten llhttp.reset
      = (llhttp.reset, .ok) := rfl
  obtain ⟨p, q, hq, hp, hskip⟩ :=
    Llhttp.parseBlocks_skip h' hlast hcut' hstart rfl
  have hspan := Reader.uncut_split hcut hlast
  rw [List.nil_append] at hq
  rw [hq, ← hp.core.2.1] at hspan
  obtain ⟨hsame, houtcome⟩ :=
    ((Reader.restart_same hspan).trans hp).run llhttp b
  refine ⟨b, l₂, l₁.flatten.length, _, q, hsame, houtcome, ?_, ?_,
    fun rest => ?_⟩
  · rw [List.flatten_append, hbytes, Llhttp.run_append hq]
  · rw [List.flatten_append, hbytes, List.length_append]
  · have hparse := hskip (b :: l₂ ++ rest) 0
    rw [Nat.zero_add, List.cons_append,
      Llhttp.parseBlocks_cons hb] at hparse
    rw [List.append_assoc]
    exact hparse

/-- What is read of a request does not depend on cuts the reader does not
see. -/
theorem HoldsRequest.result_parse {rd : Reader} {l : List Bytes}
    (h : HoldsRequest llhttp l.flatten)
    (hcut : rd.uncut llhttp l = true) :
    rd.result (llhttp.parse l) = rd.result (llhttp.parse [l.flatten]) := by
  obtain ⟨block, empty, n, r, q, hsame, houtcome, hrun, hlength, hparse⟩ :=
    h.at_last hcut
  obtain ⟨haccepted, -, hclosed, hcompletes⟩ := h
  have hne : l.flatten ≠ [] := by
    intro hnil
    rw [hnil] at hcompletes
    cases hcompletes
  have hhere := hparse []
  rw [List.append_nil] at hhere
  rw [hhere, Llhttp.parse_whole hne, hrun, hlength, conclude_after,
    Nat.zero_add]
  rw [hrun] at haccepted hclosed hcompletes
  unfold Llhttp.goOn conclude
  rw [houtcome]
  generalize llhttp.run block q = run at *
  obtain ⟨q', o⟩ := run
  cases o with
  | ok =>
      dsimp only
      rw [hsame.complete, if_pos hcompletes]
      exact hsame.finish_report _
  | paused consumed => exact hsame.finish (hclosed nofun) _
  | failed => exact absurd rfl haccepted

/-- Whoever reads everything. -/
def Reader.all : Reader := ⟨true, true⟩

/-- However a request is cut into blocks, `parse` returns the same status
and number of bytes, and the same method, body and keep-alive, as for one
block; the same url, unless a cut falls inside the url or right behind it;
the same headers, unless one falls inside a field name or a value or right
behind one; and so the same in all, if none of these is cut. -/
theorem parse_ignores_cuts {blocks : List Bytes}
    (h : HoldsRequest llhttp blocks.flatten) :
    ((llhttp.parse blocks).1 = (llhttp.parse [blocks.flatten]).1
      ∧ (llhttp.parse blocks).2.method
        = (llhttp.parse [blocks.flatten]).2.method
      ∧ (llhttp.parse blocks).2.body
        = (llhttp.parse [blocks.flatten]).2.body
      ∧ (llhttp.parse blocks).2.keepAlive
        = (llhttp.parse [blocks.flatten]).2.keepAlive)
    ∧ (Reader.uncut ⟨true, false⟩ llhttp blocks = true →
      (llhttp.parse blocks).2.url = (llhttp.parse [blocks.flatten]).2.url)
    ∧ (Reader.uncut ⟨false, true⟩ llhttp blocks = true →
      (llhttp.parse blocks).2.headers
        = (llhttp.parse [blocks.flatten]).2.headers)
    ∧ (Reader.all.uncut llhttp blocks = true →
      llhttp.parse blocks = llhttp.parse [blocks.flatten]) := by
  have hother := h.result_parse (Reader.uncut_other blocks)
  refine ⟨⟨congrArg (fun r => r.1) hother,
    congrArg (fun r => r.2.method) hother,
    congrArg (fun r => r.2.body) hother,
    congrArg (fun r => r.2.keepAlive) hother⟩,
    fun hcut => ?_, fun hcut => ?_, fun hcut => ?_⟩
  · exact congrArg (fun r => r.2.url) (h.result_parse hcut)
  · exact congrArg (fun r => r.2.headers) (h.result_parse hcut)
  · exact h.result_parse hcut

-- == plain

/-- Where the grammar of plain requests is. -/
inductive PlainState where
  | method (name : Bytes)
  | urlStart
  | url
  | version
  | lineEnd
  | headerStart
  | field
  | valueStart
  | value
  | lastLineEnd
deriving DecidableEq, Repr

/-- llhttp on requests of a request line and header lines, without a
body. -/
def plainHttp : Llhttp PlainState where
  start := .method []
  step
    | .method name, b =>
        if b = 32 then
          { after := [.setMethod name, .setKeepAlive true], next := .urlStart }
        else { next := .method (name ++ [b]) }
    | .urlStart, _ => { before := [.span (some .url)], next := .url }
    | .url, b =>
        if b = 32 then { before := [.span none], next := .version }
        else { next := .url }
    | .version, b => { next := if b = 13 then .lineEnd else .version }
    | .lineEnd, b =>
        if b = 10 then { next := .headerStart }
        else { verdict := .refuse, next := .lineEnd }
    | .headerStart, b =>
        if b = 13 then { next := .lastLineEnd }
        else { before := [.span (some .headerField)], next := .field }
    | .field, b =>
        if b = 58 then { before := [.span none], next := .valueStart }
        else { next := .field }
    | .valueStart, b =>
        if b = 32 then { next := .valueStart }
        else if b = 13 then
          { before := [.span (some .headerValue), .span none],
            next := .lineEnd }
        else { before := [.span (some .headerValue)], next := .value }
    | .value, b =>
        if b = 13 then { before := [.span none], next := .lineEnd }
        else { next := .value }
    | .lastLineEnd, b =>
        if b = 10 then
          { after := [.headersComplete, .messageComplete],
            next := .method [] }
        else { verdict := .refuse, next := .lastLineEnd }

/-- A request read line by line. -/
def lineBlocks : List Bytes :=
  [ascii "GET /ab HTTP/1.1\r\n", ascii "Host: a\r\n", ascii "\r\n"]

theorem lineBlocks_parsed :
    Reader.all.uncut plainHttp lineBlocks = true
      ∧ plainHttp.parse lineBlocks = plainHttp.parse [lineBlocks.flatten] :=
  ⟨by decide +kernel, (parse_ignores_cuts
    ⟨by decide +kernel, by decide +kernel, by decide +kernel,
      by decide +kernel⟩).2.2.2 (by decide +kernel)⟩

/-- A request whose first block ends inside a value that a later line
overwrites. -/
def maskedBlocks : List Bytes :=
  [ascii "GET / HTTP/1.1\r\nA: 1", ascii "2\r\nA: 3\r\n\r\n"]

/-- Nobody sees that cut. -/
example : Reader.uncut ⟨false, true⟩ plainHttp maskedBlocks = false
    ∧ (plainHttp.parse maskedBlocks).2.headers (ascii "A") = some (ascii "3")
    ∧ (plainHttp.parse [maskedBlocks.flatten]).2.headers (ascii "A")
      = some (ascii "3") := by
  decide +kernel

/-- A request whose first block ends inside the url. -/
def cutBlocks : List Bytes :=
  [ascii "GET /a", ascii "b HTTP/1.1\r\n\r\n"]

/-- Only the piece behind the cut is left of the url. -/
theorem cutBlocks_lose_url :
    HoldsRequest plainHttp cutBlocks.flatten
      ∧ (plainHttp.parse [cutBlocks.flatten]).2.url = ascii "/ab"
      ∧ (plainHttp.parse cutBlocks).2.url = ascii "b" :=
  ⟨⟨by decide +kernel, by decide +kernel, by decide +kernel,
    by decide +kernel⟩, by decide +kernel, by decide +kernel⟩

end AntRpc.Http
