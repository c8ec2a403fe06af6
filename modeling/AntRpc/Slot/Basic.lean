/-
Identifiers, states and resolutions of the slot table
(rpc/slot_table.hpp).

# Words

A slot's atomic word packs a version and a state; a correlation id packs
a version and a slot id. Packing is injective (`pack_inj`), so a
compare-and-swap of packed words succeeds exactly when version and state
both match, and the model keeps the pair (`Lifecycle`). Correlation ids
stay 64-bit words, because any 64-bit value may arrive from the wire.
-/
import AntRpc.Lib.Word
import AntRpc.Controller

namespace AntRpc.Slot

open Protocol

-- == states

/-- `SlotState`. -/
inductive SlotState where
  | free
  | arming
  | cancelPending
  | timeoutPending
  | inFlight
  | completed
  | timedOut
  | canceled
  | failed
deriving DecidableEq, Repr

/-- The enumerator's value. -/
def SlotState.code : SlotState → UInt32
  | .free => 0
  | .arming => 1
  | .cancelPending => 2
  | .timeoutPending => 3
  | .inFlight => 4
  | .completed => 5
  | .timedOut => 6
  | .canceled => 7
  | .failed => 8

/-- The states of a call that is allocated and not yet resolved. -/
def SlotState.Live (st : SlotState) : Prop :=
  st = .arming ∨ st = .cancelPending ∨ st = .timeoutPending
    ∨ st = .inFlight

instance (st : SlotState) : Decidable st.Live :=
  inferInstanceAs (Decidable (_ ∨ _))

theorem SlotState.free_not_live : ¬ SlotState.Live .free := by decide

theorem SlotState.code_inj {a b : SlotState} (h : a.code = b.code) :
    a = b := by
  cases a <;> cases b <;> first | rfl | exact absurd h (by decide)

/-- `PackSlotLifecycle`. -/
def packSlotLifecycle (version : UInt32) (state : SlotState) : UInt64 :=
  (version.toUInt64 <<< 32) ||| state.code.toUInt64

/-- `SlotLifecycleVersion`. -/
def slotLifecycleVersion (lifecycle : UInt64) : UInt32 :=
  (lifecycle >>> 32).toUInt32

/-- A lifecycle word, unpacked. -/
@[ext]
structure Lifecycle where
  version : UInt32
  state : SlotState
deriving DecidableEq, Repr

/-- The word as the source stores it. -/
def Lifecycle.pack (w : Lifecycle) : UInt64 :=
  packSlotLifecycle w.version w.state

/-- Comparing packed words is comparing version and state. -/
theorem Lifecycle.pack_inj {w w' : Lifecycle} (h : w.pack = w'.pack) :
    w = w' := by
  obtain ⟨v, st⟩ := w
  obtain ⟨v', st'⟩ := w'
  obtain ⟨hv, hst⟩ := Lib.join_inj h
  rw [Lifecycle.mk.injEq]
  exact ⟨hv, SlotState.code_inj hst⟩

theorem Lifecycle.version_pack (w : Lifecycle) :
    slotLifecycleVersion w.pack = w.version :=
  Lib.join_high w.version w.state.code

-- == correlation ids

/-- `INVALID_SLOT`. -/
def invalidSlot : UInt32 := 0xFFFFFFFF

/-- `MakeCorrelationId`. -/
def makeCorrelationId (version slotId : UInt32) : UInt64 :=
  (version.toUInt64 <<< 32) ||| slotId.toUInt64

/-- `GetSlotId`. -/
def getSlotId (c : UInt64) : UInt32 :=
  (c &&& 0xFFFFFFFF).toUInt32

/-- `GetVersion`. -/
def getVersion (c : UInt64) : UInt32 :=
  (c >>> 32).toUInt32

@[simp] theorem getSlotId_make (version slotId : UInt32) :
    getSlotId (makeCorrelationId version slotId) = slotId :=
  Lib.join_low version slotId

@[simp] theorem getVersion_make (version slotId : UInt32) :
    getVersion (makeCorrelationId version slotId) = version :=
  Lib.join_high version slotId

@[simp] theorem make_get (c : UInt64) :
    makeCorrelationId (getVersion c) (getSlotId c) = c :=
  Lib.join_eta c

-- == resolutions

/-- `PublishOutcome`. -/
inductive PublishOutcome where
  | inFlight
  | canceled
  | timedOut
  | failed
  | invalid
deriving DecidableEq, Repr

/-- `ResponseCompletionOutcome`. -/
inductive ResponseCompletionOutcome where
  | completed
  | unknownCorrelationId
  | lateResponse
deriving DecidableEq, Repr

/-- `SlotResolutionKind`. -/
inductive SlotResolutionKind where
  | canceled
  | timedOut
  | failed
deriving DecidableEq, Repr

/-- `SlotResolution`. -/
structure SlotResolution where
  kind : SlotResolutionKind
  errorCode : Int32
  errorMessage : String
deriving DecidableEq, Repr

namespace SlotResolution

/-- `SlotResolution::Canceled`. -/
def canceled (message : String) : SlotResolution :=
  ⟨.canceled, RPC_ECANCELED, message⟩

/-- `SlotResolution::TimedOut`. -/
def timedOut (message : String) : SlotResolution :=
  ⟨.timedOut, RPC_ETIMEOUT, message⟩

/-- `SlotResolution::Failed`. -/
def failed (errorCode : Int32) (message : String) : SlotResolution :=
  ⟨.failed, errorCode, message⟩

/-- `TerminalState`. -/
def terminalState (r : SlotResolution) : SlotState :=
  match r.kind with
  | .canceled => .canceled
  | .timedOut => .timedOut
  | .failed => .failed

/-- `PendingState`. -/
def pendingState (r : SlotResolution) : Option SlotState :=
  match r.kind with
  | .canceled => some .cancelPending
  | .timedOut => some .timeoutPending
  | .failed => none

end SlotResolution

/-- `PendingResolution`. -/
def pendingResolution : SlotState → Option SlotResolution
  | .cancelPending => some (.canceled "RPC call canceled")
  | .timeoutPending => some (.timedOut "RPC call timed out")
  | _ => none

/-- The outcome `PublishSlot` reports for a delivered pending
resolution. -/
def pendingOutcome (r : SlotResolution) : PublishOutcome :=
  if r.kind = .canceled then .canceled else .timedOut

theorem terminalState_not_live (r : SlotResolution) :
    ¬ r.terminalState.Live := by
  unfold SlotResolution.terminalState
  cases r.kind <;> decide

theorem pendingState_eq {r : SlotResolution} {st : SlotState}
    (h : r.pendingState = some st) :
    st = .cancelPending ∨ st = .timeoutPending := by
  unfold SlotResolution.pendingState at h
  cases hk : r.kind <;> rw [hk] at h <;> cases h <;> decide

theorem pendingState_live {r : SlotResolution} {st : SlotState}
    (h : r.pendingState = some st) : st.Live := by
  rcases pendingState_eq h with rfl | rfl <;> decide

theorem pendingResolution_live {st : SlotState} {r : SlotResolution}
    (h : pendingResolution st = some r) :
    st = .cancelPending ∨ st = .timeoutPending := by
  cases st <;> simp [pendingResolution] at h ⊢

-- == the call

/-- The pointers a caller hands to `AllocateSlot` and a cell keeps while
the call is live. A null pointer is `none`. -/
structure CallArgs where
  task : Option Nat := none
  responseMsg : Option Nat := none
  controller : Option Nat := none
  rawRespBody : Option Nat := none
  executor : Option Nat := none
deriving DecidableEq, Repr

/-- `CallSlot`. -/
structure CallSlot where
  lifecycle : Lifecycle := ⟨0, .free⟩
  args : CallArgs := {}
  nextFree : UInt32 := 0
  deadlineTimerId : UInt64 := 0
deriving DecidableEq, Repr

/-- A response frame as `CompleteResponseSlot` receives it. -/
structure Response where
  rpcMeta : RpcMeta := {}
  body : Bytes := []
  attachment : Bytes := []
deriving DecidableEq, Repr

end AntRpc.Slot
