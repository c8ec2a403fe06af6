/-
`HttpParser` (http/parser.hpp) and the loop of `handle_http_client`
(server.hpp).

# llhttp

llhttp is a state machine that is fed byte by byte. Between bytes it opens
and closes spans and calls back; which bytes make it do so is its grammar,
and the grammar is a parameter here (`Llhttp`). What is fixed is how it is
driven (`llhttp__internal_execute`): a span that is still open at the end
of a block is reported up to there, and goes on at the start of the next
block with the bytes of that block only. A span that ended with the last
byte of a block is still open then, since llhttp closes it on the byte
after; its report in the next block is empty.

# Registers

`llhttp_get_method` and `llhttp_should_keep_alive` read fields of the
parser that the grammar sets on its way.

# Buffers

An `IOBuf` is the list of its backing blocks. A `std::string_view` is the
bytes it points to.
-/
import AntRpc.Text.Escape

namespace AntRpc.Http

open Protocol (Bytes)

-- == request

inductive ParseStatus where
  | success
  | needMoreData
  | error
deriving DecidableEq, Repr

structure ParseResult where
  status : ParseStatus
  consumedBytes : Nat := 0
deriving DecidableEq, Repr

structure HttpRequest where
  method : Bytes := []
  url : Bytes := []
  headers : Bytes → Option Bytes := fun _ => none
  body : Bytes := []
  keepAlive : Bool := false
  complete : Bool := false

structure ParserContext where
  req : HttpRequest := {}
  currentField : Bytes := []
  currentValue : Bytes := []

/-- `headers[current_field] = current_value`, and both are cleared. -/
def ParserContext.commit (ctx : ParserContext) : ParserContext :=
  { req := { ctx.req with
      headers := Function.update ctx.req.headers ctx.currentField
        (some ctx.currentValue) } }

def onUrl (piece : Bytes) (ctx : ParserContext) : ParserContext :=
  { ctx with req := { ctx.req with url := piece } }

def onHeaderField (piece : Bytes) (ctx : ParserContext) : ParserContext :=
  let ctx := if ctx.currentValue ≠ [] then ctx.commit else ctx
  { ctx with currentField := piece }

def onHeaderValue (piece : Bytes) (ctx : ParserContext) : ParserContext :=
  { ctx with currentValue := piece }

def onHeadersComplete (ctx : ParserContext) : ParserContext :=
  if ctx.currentField ≠ [] then ctx.commit else ctx

def onBody (piece : Bytes) (ctx : ParserContext) : ParserContext :=
  { ctx with req := { ctx.req with body := ctx.req.body ++ piece } }

def onMessageComplete (ctx : ParserContext) : ParserContext :=
  { ctx with req := { ctx.req with complete := true } }

-- == llhttp

inductive SpanKind where
  | url
  | headerField
  | headerValue
  | body
deriving DecidableEq, Repr

/-- What llhttp does between two bytes. A change of span reports the one
that was open, if any; llhttp has room for one only. -/
inductive Signal where
  | span (kind : Option SpanKind)
  | setMethod (name : Bytes)
  | setKeepAlive (keepAlive : Bool)
  | headersComplete
  | messageComplete
deriving DecidableEq, Repr

/-- Whether llhttp goes on after a byte, stops there, or refuses it. -/
inductive Verdict where
  | goOn
  | pause
  | refuse
deriving DecidableEq, Repr

/-- A byte: what is done before it is taken and after. -/
structure Transition (σ : Type) where
  before : List Signal := []
  after : List Signal := []
  verdict : Verdict := .goOn
  next : σ

/-- A grammar. -/
structure Llhttp (σ : Type) where
  start : σ
  step : σ → UInt8 → Transition σ

/-- `llhttp_t` with the context it calls back; `piece` are the bytes from
the start of the open span, or of the block, on. -/
structure Parser (σ : Type) where
  state : σ
  span : Option SpanKind := none
  piece : Bytes := []
  method : Bytes := []
  keepAlive : Bool := false
  ctx : ParserContext := {}

section Run

variable {σ : Type}

/-- The callback of a span. -/
def SpanKind.report : SpanKind → Bytes → ParserContext → ParserContext
  | .url => onUrl
  | .headerField => onHeaderField
  | .headerValue => onHeaderValue
  | .body => onBody

/-- Report the open span up to here. -/
def Parser.report (p : Parser σ) : Parser σ :=
  match p.span with
  | none => p
  | some kind => { p with ctx := kind.report p.piece p.ctx }

def Parser.signal (p : Parser σ) : Signal → Parser σ
  | .span kind => { p.report with span := kind, piece := [] }
  | .setMethod name => { p with method := name }
  | .setKeepAlive keepAlive => { p with keepAlive := keepAlive }
  | .headersComplete => { p with ctx := onHeadersComplete p.ctx }
  | .messageComplete => { p with ctx := onMessageComplete p.ctx }

def Parser.take (p : Parser σ) (b : UInt8) (next : σ) : Parser σ :=
  { p with
    state := next
    piece := if p.span = none then p.piece else p.piece ++ [b] }

/-- What `llhttp_execute` returns. -/
inductive Outcome where
  | ok
  | paused (consumed : Nat)
  | failed
deriving DecidableEq, Repr

/-- The outcome with `n` more bytes before the place it stopped at. -/
def Outcome.after (n : Nat) : Outcome → Outcome
  | .ok => .ok
  | .paused consumed => .paused (consumed + n)
  | .failed => .failed

/-- The parser before a byte is taken, and after. -/
def Parser.enter (p : Parser σ) (t : Transition σ) : Parser σ :=
  t.before.foldl Parser.signal p

def Parser.leave (p : Parser σ) (t : Transition σ) (b : UInt8) : Parser σ :=
  t.after.foldl Parser.signal ((p.enter t).take b t.next)

/-- `llhttp__internal__run`. -/
def Llhttp.run (llhttp : Llhttp σ) : Bytes → Parser σ → Parser σ × Outcome
  | [], p => (p, .ok)
  | b :: block, p =>
      let t := llhttp.step p.state b
      match t.verdict with
      | .refuse => (p.enter t, .failed)
      | .pause => (p.leave t b, .paused 1)
      | .goOn =>
          let r := llhttp.run block (p.leave t b)
          (r.1, r.2.after 1)

/-- `llhttp_execute`: an open span starts over with the block, and is
reported at its end. -/
def Llhttp.execute (llhttp : Llhttp σ) (block : Bytes) (p : Parser σ) :
    Parser σ × Outcome :=
  match llhttp.run block { p with piece := [] } with
  | (p', .ok) => (p'.report, .ok)
  | (p', outcome) => (p', outcome)

-- == parse

/-- The end of `parse`. -/
def Parser.finish (p : Parser σ) (totalConsumed : Nat) :
    ParseResult × HttpRequest :=
  if p.ctx.req.complete then
    (⟨.success, totalConsumed⟩,
      { p.ctx.req with method := p.method, keepAlive := p.keepAlive })
  else (⟨.needMoreData, totalConsumed⟩, p.ctx.req)

/-- The loop of `parse` over the backing blocks. -/
def Llhttp.parseBlocks (llhttp : Llhttp σ) :
    List Bytes → Parser σ → Nat → ParseResult × HttpRequest
  | [], p, totalConsumed => p.finish totalConsumed
  | block :: blocks, p, totalConsumed =>
      if block = [] then llhttp.parseBlocks blocks p totalConsumed
      else
        match llhttp.execute block p with
        | (p', .ok) =>
            if p'.ctx.req.complete then
              p'.finish (totalConsumed + block.length)
            else
              llhttp.parseBlocks blocks p' (totalConsumed + block.length)
        | (p', .paused consumed) => p'.finish (totalConsumed + consumed)
        | (p', .failed) => (⟨.error, 0⟩, p'.ctx.req)

/-- `reset`: a new parser. -/
def Llhttp.reset (llhttp : Llhttp σ) : Parser σ := { state := llhttp.start }

/-- `HttpParser::parse`. -/
def Llhttp.parse (llhttp : Llhttp σ) (buf : List Bytes) :
    ParseResult × HttpRequest :=
  llhttp.parseBlocks buf llhttp.reset 0

-- == client

/-- `IOBuf::pop_front`. -/
def popFront : Nat → List Bytes → List Bytes
  | 0, buf => buf
  | _ + 1, [] => []
  | n + 1, block :: blocks =>
      if block.length ≤ n + 1 then popFront (n + 1 - block.length) blocks
      else block.drop (n + 1) :: blocks

/-- `handle_http_client` at the head of its loop: the buffer, what the
socket will deliver read by read, and the requests that were answered. A
read of nothing is the end of the connection. -/
structure Client where
  readBuf : List Bytes := []
  reads : List Bytes
  answered : List HttpRequest := []
  closed : Bool := false

/-- One turn of the loop; `none` while it waits for the socket or has
returned. -/
def Llhttp.turn (llhttp : Llhttp σ) (c : Client) : Option Client :=
  if c.closed then none
  else
    let (result, req) := llhttp.parse c.readBuf
    match result.status with
    | .needMoreData =>
        match c.reads with
        | [] => none
        | [] :: reads => some { c with reads := reads, closed := true }
        | bytes :: reads =>
            some { c with readBuf := c.readBuf ++ [bytes], reads := reads }
    | .success =>
        some { c with
          readBuf := popFront result.consumedBytes c.readBuf
          answered := c.answered ++ [req]
          closed := !req.keepAlive }
    | .error => some { c with closed := true }

end Run

end AntRpc.Http
