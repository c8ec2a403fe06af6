/-
One call of a server connection: its dispatch task, the closures service
code may run, and its finalization.

# One finalization

A finalization is made by the dispatch task, for a call the service
never saw, or by the first `done->Run()`. The service has its closure
only once the dispatch task is past the paths that make one, and both
leave `completion` behind `pending`; so there is at most one.

# Answers

The response's meta is set up from the request's and only its error and
headers change after, so what a finalization packs carries the request's
correlation id and names.
-/
import AntRpc.Server.Proofs.Steps

namespace AntRpc.Server

open Protocol Lib

variable {cfg : ServerConfig} {ch : Choice} {rt rt' : Runtime} {c c' : Conn}
  {r : Nat} {call call' : Call}

-- == answers

/-- A response meta that names the request. -/
structure AnswersMeta (answer request : RpcMeta) : Prop where
  msgType : answer.msgType = .response
  correlationId : answer.correlationId = request.correlationId
  serviceName : answer.serviceName = request.serviceName
  methodName : answer.methodName = request.methodName

/-- A frame packed from such a meta. -/
def IsAnswer (cfg : ServerConfig) (request : RpcMeta) (response : Bytes) :
    Prop :=
  ∃ answer body attachment, AnswersMeta answer request
    ∧ (packRpcFrame cfg.codec answer body attachment []
        cfg.maxFrameBytes).ok = true
    ∧ (packRpcFrame cfg.codec answer body attachment []
        cfg.maxFrameBytes).out = response

/-- The response a finalization holds. -/
def FinalizePc.response : FinalizePc → Bytes
  | .lock packed => packed.getD []
  | .loadRunning response | .reserve response _ => response
  | .account payload | .accountMethod payload | .subMethodGauge payload
  | .storeFinalized payload | .post payload => payload.response
  | .scheduling | .queued | .releaseInFlight | .subInFlightGauge
  | .finished => []

/-- The points where a finalization works on the method's metrics. -/
def FinalizePc.perMethod : FinalizePc → Bool
  | .accountMethod _ | .subMethodGauge _ => true
  | _ => false

-- == invariant

/-- What is known of a call's fields at a point of its dispatch task. -/
def DispatchPc.Holds (call : Call) : DispatchPc → Prop
  | .unscheduled | .queued | .subTaskGauge | .lookup =>
      call.completion = .pending ∧ call.method = none
  | .startMethod m | .addMethodGauge m | .parseRequest m =>
      call.completion = .pending ∧ call.method = some m
        ∧ AnswersMeta call.responseMeta call.frame.rpcMeta
  | .invoke =>
      call.completion = .pending
        ∧ AnswersMeta call.responseMeta call.frame.rpcMeta
  | .storeScheduled =>
      call.completion = .pending
        ∧ AnswersMeta call.responseMeta call.frame.rpcMeta
  | .schedule =>
      call.completion ≠ .pending ∧ call.finalizers = []
        ∧ AnswersMeta call.responseMeta call.frame.rpcMeta
  | .returned => AnswersMeta call.responseMeta call.frame.rpcMeta

structure CallOk (cfg : ServerConfig) (call : Call) : Prop where
  idle : call.admission ≠ .admitted → call.dispatch = .unscheduled
  dispatch : call.dispatch.Holds call
  pending : call.completion = .pending → call.finalizers = []
  done : call.done = true → call.dispatch = .returned
  one : call.finalizers.length ≤ 1
  executions : call.executions = if call.done then 1 else 0
  answers : ∀ pc ∈ call.finalizers, pc.response ≠ [] →
    IsAnswer cfg call.frame.rpcMeta pc.response
  method : ∀ pc ∈ call.finalizers, pc.perMethod = true →
    call.method ≠ none

/-- A call with a finalization has left its dispatch task. -/
theorem CallOk.returned (h : CallOk cfg call) (hne : call.finalizers ≠ []) :
    call.dispatch = .returned := by
  have hdispatch := h.dispatch
  have hpending := fun hp => hne (h.pending hp)
  cases hpc : call.dispatch with
  | returned => rfl
  | schedule =>
      rw [hpc] at hdispatch
      exact absurd hdispatch.2.1 hne
  | _ =>
      rw [hpc] at hdispatch
      exact absurd hdispatch.1 hpending

theorem callOk_new (frame : FrameParseResult) :
    CallOk cfg { frame := frame } where
  idle _ := rfl
  dispatch := ⟨rfl, rfl⟩
  pending _ := rfl
  done := nofun
  one := Nat.zero_le 1
  executions := rfl
  answers := nofun
  method := nofun

-- == steps

/-- A dispatch task that has not made a finalization. -/
theorem CallOk.early (h : CallOk cfg call)
    (hpc : call.completion = .pending) (hnot : call.dispatch ≠ .returned) :
    call.finalizers = [] ∧ call.done = false ∧ call.executions = 0 := by
  have hdone : call.done = false := by
    cases hd : call.done with
    | false => rfl
    | true => exact absurd (h.done hd) hnot
  refine ⟨h.pending hpc, hdone, ?_⟩
  rw [h.executions, hdone]
  rfl

/-- A step of the dispatch task before it makes a finalization. -/
theorem CallOk.advance (h : CallOk cfg call)
    (hadmitted : call.admission = .admitted)
    (hpc : call.completion = .pending) (hnot : call.dispatch ≠ .returned)
    (hkeep : (call'.admission, call'.done, call'.completion,
        call'.finalizers, call'.executions)
      = (call.admission, call.done, call.completion, call.finalizers,
        call.executions))
    (hholds : call'.dispatch.Holds call') : CallOk cfg call' := by
  obtain ⟨hnil, hdone, hexec⟩ := h.early hpc hnot
  simp only [Prod.mk.injEq] at hkeep
  obtain ⟨hadm, hdone', hcompl, hfin, hexec'⟩ := hkeep
  rw [hnil] at hfin
  exact
    { idle := fun hne => absurd (hadm.trans hadmitted) hne
      dispatch := hholds
      pending := fun _ => hfin
      done := fun hd => by rw [hdone', hdone] at hd; cases hd
      one := by rw [hfin]; exact Nat.zero_le 1
      executions := by rw [hexec', hexec, hdone', hdone]; rfl
      answers := by rw [hfin]; nofun
      method := by rw [hfin]; nofun }

theorem callOk_dispatch (h : CallOk cfg call)
    (hadmitted : call.admission = .admitted)
    (he : execDispatch cfg rt call call.dispatch = some (rt', call')) :
    CallOk cfg call' := by
  have hholds := h.dispatch
  generalize hpc : call.dispatch = pc at he hholds
  have hreturned : pc ≠ .returned → call.dispatch ≠ .returned :=
    fun hne heq => hne (hpc.symm.trans heq)
  cases pc with
  | unscheduled | returned => cases he
  | queued | subTaskGauge | startMethod _ | addMethodGauge _ =>
      cases he
      exact h.advance hadmitted hholds.1 (hreturned nofun) rfl hholds
  | lookup =>
      have hnames : AnswersMeta (initialResponseMeta call.frame.rpcMeta)
          call.frame.rpcMeta := ⟨rfl, rfl, rfl, rfl⟩
      simp only [execDispatch] at he
      split at he <;> cases he
      · exact h.advance hadmitted hholds.1 (hreturned nofun) rfl
          ⟨hholds.1, rfl, rfl, rfl, rfl⟩
      · exact h.advance hadmitted hholds.1 (hreturned nofun) rfl
          ⟨hholds.1, rfl, rfl, rfl, rfl⟩
      · exact h.advance hadmitted hholds.1 (hreturned nofun) rfl
          ⟨hholds.1, rfl, hnames⟩
  | parseRequest m =>
      obtain ⟨hpending, -, hnames⟩ := hholds
      simp only [execDispatch] at he
      split at he <;> cases he
      · exact h.advance hadmitted hpending (hreturned nofun) rfl
          ⟨hpending, hnames.msgType, hnames.correlationId,
            hnames.serviceName, hnames.methodName⟩
      · exact h.advance hadmitted hpending (hreturned nofun) rfl
          ⟨hpending, hnames⟩
  | invoke =>
      -- the service gets the closure
      obtain ⟨hnil, -, hexec⟩ := h.early hholds.1 (hreturned nofun)
      cases he
      exact
        { idle := fun hne => absurd hadmitted hne
          dispatch := hholds.2
          pending := h.pending
          done := fun _ => rfl
          one := h.one
          executions := by
            show call.executions + 1 = 1
            rw [hexec]
          answers := h.answers
          method := h.method }
  | storeScheduled =>
      obtain ⟨hnil, hdone, hexec⟩ := h.early hholds.1 (hreturned nofun)
      cases he
      exact
        { idle := fun hne => absurd hadmitted hne
          dispatch := ⟨nofun, hnil, hholds.2⟩
          pending := nofun
          done := fun hd => absurd hd (by rw [hdone]; decide)
          one := h.one
          executions := h.executions
          answers := h.answers
          method := h.method }
  | schedule =>
      obtain ⟨hscheduled, hnil, hnames⟩ := hholds
      cases he
      exact
        { idle := fun hne => absurd hadmitted hne
          dispatch := hnames
          pending := fun hp => absurd hp hscheduled
          done := fun _ => rfl
          one := by simp [hnil]
          executions := h.executions
          answers := by
            simp only [hnil, List.nil_append, List.mem_singleton]
            rintro pc rfl hne
            exact absurd rfl hne
          method := by
            simp only [hnil, List.nil_append, List.mem_singleton]
            rintro pc rfl hper
            cases hper }

/-- `done->Run()`, by a service that has the closure. -/
theorem callOk_run (h : CallOk cfg call) (hdone : call.done = true) :
    CallOk cfg call.run := by
  unfold Call.run
  split
  · next hpending =>
    have hnil := h.pending hpending
    have hreturned := h.done hdone
    exact
      { idle := fun hne => h.idle hne
        dispatch := by
          have hholds := h.dispatch
          rw [hreturned] at hholds
          show DispatchPc.Holds _ call.dispatch
          rw [hreturned]
          exact hholds
        pending := nofun
        done := h.done
        one := by simp [hnil]
        executions := h.executions
        answers := by
          simp only [hnil, List.nil_append, List.mem_singleton]
          rintro pc rfl hne
          exact absurd rfl hne
        method := by
          simp only [hnil, List.nil_append, List.mem_singleton]
          rintro pc rfl hper
          cases hper }
  · exact h

/-- What a finalization packs answers the request. -/
theorem packResponse_isAnswer {outcome : ServiceOutcome} {response : Bytes}
    (hnames : AnswersMeta call.responseMeta call.frame.rpcMeta)
    (hpack : call.packResponse cfg outcome = some response) :
    IsAnswer cfg call.frame.rpcMeta response := by
  have hparts : AnswersMeta (call.responseParts outcome).1
      call.frame.rpcMeta := by
    unfold Call.responseParts
    split
    · exact ⟨hnames.msgType, hnames.correlationId, hnames.serviceName,
        hnames.methodName⟩
    · exact hnames
  simp only [Call.packResponse] at hpack
  split at hpack
  · cases hpack
  · split at hpack <;> cases hpack
    next hok => exact ⟨_, _, _, hparts, hok, rfl⟩

/-- What a step of `FinalizeInboundCall` does to its call. -/
structure FinalizeStep (cfg : ServerConfig) (call call' : Call)
    (pc pc' : FinalizePc) : Prop where
  frame : call' = { call with
    responseMeta := call'.responseMeta, completion := call'.completion }
  names : AnswersMeta call.responseMeta call.frame.rpcMeta →
    AnswersMeta call'.responseMeta call.frame.rpcMeta
  completion : call'.completion = call.completion
    ∨ call'.completion = .finalized
  response : AnswersMeta call.responseMeta call.frame.rpcMeta →
    (pc.response ≠ [] → IsAnswer cfg call.frame.rpcMeta pc.response) →
    pc'.response ≠ [] → IsAnswer cfg call.frame.rpcMeta pc'.response
  perMethod : (pc.perMethod = true → call.method ≠ none) →
    pc'.perMethod = true → call.method ≠ none

/-- Most steps leave the call alone and hold the same response. -/
theorem FinalizeStep.same {pc pc' : FinalizePc}
    (hresponse : pc'.response ≠ [] → pc'.response = pc.response)
    (hper : (pc.perMethod = true → call.method ≠ none) →
      pc'.perMethod = true → call.method ≠ none) :
    FinalizeStep cfg call call pc pc' where
  frame := rfl
  names := id
  completion := .inl rfl
  response _ hold hne := hresponse hne ▸ hold (hresponse hne ▸ hne)
  perMethod := hper

theorem execFinalize_call {outcome : ServiceOutcome} {alive : Bool}
    {pc pc' : FinalizePc}
    (he : execFinalize cfg ch outcome alive rt c r call pc
      = some (rt', c', call', pc')) : FinalizeStep cfg call call' pc pc' := by
  cases pc with
  | scheduling => cases he; exact .same (fun _ => rfl) (fun _ => by rintro ⟨⟩)
  | queued =>
      cases he
      refine ⟨rfl, fun hnames => ?_, .inl rfl, fun hnames _ hne => ?_,
        fun _ => by rintro ⟨⟩⟩
      · simp only [Call.responseParts]
        split
        · exact ⟨hnames.msgType, hnames.correlationId, hnames.serviceName,
            hnames.methodName⟩
        · exact hnames
      · simp only [FinalizePc.response] at hne ⊢
        cases hpack : call.packResponse cfg outcome with
        | none => rw [hpack] at hne; exact absurd rfl hne
        | some response => exact packResponse_isAnswer hnames hpack
  | lock packed =>
      simp only [execFinalize] at he
      split at he
      · cases he
        exact .same (fun _ => rfl) (fun _ => by rintro ⟨⟩)
      · split at he <;> cases he
        · exact .same (fun hne => absurd rfl hne) (fun _ => by rintro ⟨⟩)
        · exact .same (fun hne => absurd rfl hne) (fun _ => by rintro ⟨⟩)
        · exact .same (fun _ => rfl) (fun _ => by rintro ⟨⟩)
  | loadRunning response =>
      simp only [execFinalize] at he
      split at he <;> cases he
      · exact .same (fun _ => rfl) (fun _ => by rintro ⟨⟩)
      · exact .same (fun hne => absurd rfl hne) (fun _ => by rintro ⟨⟩)
  | reserve response pc =>
      simp only [execFinalize] at he
      split at he <;> cases he
      · exact .same (fun _ => rfl) (fun _ => by rintro ⟨⟩)
      · exact .same (fun _ => rfl) (fun _ => by rintro ⟨⟩)
      · exact .same (fun hne => absurd rfl hne) (fun _ => by rintro ⟨⟩)
  | account payload =>
      cases he
      split
      · exact .same (fun _ => rfl) (fun _ => by rintro ⟨⟩)
      · next hmethod => exact .same (fun _ => rfl) (fun _ _ => hmethod)
  | accountMethod payload =>
      cases he
      exact .same (fun _ => rfl) (fun hold _ => hold rfl)
  | subMethodGauge payload =>
      cases he
      exact .same (fun _ => rfl) (fun _ => by rintro ⟨⟩)
  | storeFinalized payload =>
      cases he
      exact ⟨rfl, id, .inr rfl, fun _ hold => hold, fun _ => by rintro ⟨⟩⟩
  | post payload =>
      simp only [execFinalize] at he
      split at he <;> cases he <;>
        exact .same (fun hne => absurd rfl hne) (fun _ => by rintro ⟨⟩)
  | releaseInFlight | subInFlightGauge =>
      cases he
      exact .same (fun hne => absurd rfl hne) (fun _ => by rintro ⟨⟩)
  | finished => cases he

theorem callOk_finalize {pc pc' : FinalizePc} {j : Nat}
    (h : CallOk cfg call) (hj : call.finalizers[j]? = some pc)
    (hstep : FinalizeStep cfg call call' pc pc') :
    CallOk cfg { call' with finalizers := call'.finalizers.set j pc' } := by
  have hmem := List.mem_of_getElem? hj
  have hne : call.finalizers ≠ [] := List.ne_nil_of_mem hmem
  have hreturned := h.returned hne
  have hnames : AnswersMeta call.responseMeta call.frame.rpcMeta := by
    have hholds := h.dispatch
    rw [hreturned] at hholds
    exact hholds
  obtain ⟨hframe, hmeta, hcompletion, hresponse, hper⟩ := hstep
  have hscheduled : call'.completion ≠ .pending := by
    rcases hcompletion with hc | hc
    · rw [hc]
      exact fun hp => hne (h.pending hp)
    · rw [hc]
      nofun
  rw [hframe]
  exact
    { idle := h.idle
      dispatch := by
        show DispatchPc.Holds _ call.dispatch
        rw [hreturned]
        exact hmeta hnames
      pending := fun hp => absurd hp hscheduled
      done := h.done
      one := by
        show (call.finalizers.set j pc').length ≤ 1
        rw [List.length_set]
        exact h.one
      executions := h.executions
      answers := fun pc₁ hpc₁ => by
        rcases List.mem_or_eq_of_mem_set hpc₁ with hold | rfl
        · exact h.answers pc₁ hold
        · exact hresponse hnames (h.answers pc hmem)
      method := fun pc₁ hpc₁ => by
        rcases List.mem_or_eq_of_mem_set hpc₁ with hold | rfl
        · exact h.method pc₁ hold
        · exact hper (h.method pc hmem) }

end AntRpc.Server
