/-
How a timeout becomes a deadline: who arms timers with which delay
(`StartUnaryCall`, `ArmIdleTimerOnIoThread`, `BeginGracefulStop`), what
the options' `IsValid` admits (rpc/core/channel_core.hpp,
rpc/server/server_options.hpp), and the arithmetic of `AddTimer` and
`add_internal` (scheduler/timer_keeper.hpp).

# Durations

The counts of `milliseconds`, `microseconds` and of the clock's
nanoseconds are signed 64-bit words. A `duration_cast` to a finer unit
multiplies the count, one to a coarser unit divides it, and adding
microseconds to a time point converts them to nanoseconds first.
-/
import AntRpc.Lib.Signed
import AntRpc.Channel.Call

namespace AntRpc.Timer

open Lib Channel Protocol

-- == options

structure RpcChannelOptions where
  connectTimeout : Int64 := 1000
  defaultRpcTimeout : Int64 := 5000
  maxFrameBytes : UInt64 := kDefaultMaxRpcFrameBytes
  maxInFlight : UInt64 := 65536
  maxOutboundBytes : UInt64 := 16 * 1024 * 1024
  tcpNoDelay : Bool := true

def RpcChannelOptions.isValid (o : RpcChannelOptions) : Bool :=
  o.connectTimeout > 0 && o.connectTimeout ≤ 2147483647
    && o.defaultRpcTimeout > 0
    && o.maxFrameBytes ≥ UInt64.ofNat kRpcHeaderBytes && o.maxInFlight > 0
    && o.maxInFlight ≤ 65536
    && o.maxOutboundBytes ≥ UInt64.ofNat kRpcHeaderBytes

structure RpcServerOptions where
  ioContexts : UInt64 := 1
  maxConnections : UInt64 := 65536
  maxInFlight : UInt64 := 65536
  maxInFlightPerConnection : UInt64 := 4096
  maxPendingWorkerTasks : UInt64 := 8192
  maxFrameBytes : UInt64 := kDefaultMaxRpcFrameBytes
  maxOutboundBytesPerConnection : UInt64 := 16 * 1024 * 1024
  gracefulStopTimeout : Int64 := 5000
  idleTimeout : Int64 := 0

def RpcServerOptions.isValid (o : RpcServerOptions) : Bool :=
  o.ioContexts > 0 && o.maxConnections > 0 && o.maxInFlight > 0
    && o.maxInFlightPerConnection > 0 && o.maxPendingWorkerTasks > 0
    && o.maxInFlightPerConnection ≤ o.maxInFlight
    && o.maxFrameBytes ≥ UInt64.ofNat kRpcHeaderBytes
    && o.maxOutboundBytesPerConnection ≥ UInt64.ofNat kRpcHeaderBytes
    && o.maxOutboundBytesPerConnection ≤ 9223372036854775807
    && o.gracefulStopTimeout ≥ 0 && o.idleTimeout ≥ 0

-- == delays

/-- Who arms a timer: a call on a channel that has these options, with
its controller if it has one; a connection that went idle; a server that
stops. -/
inductive TimerUse where
  | call (cfg : ChannelConfig) (options : RpcChannelOptions)
      (ctl : Option Controller)
  | idle (options : RpcServerOptions)
  | gracefulStop (options : RpcServerOptions)

/-- The options are those the channel or the server was made with. -/
def TimerUse.admitted : TimerUse → Bool
  | .call cfg options _ =>
      options.isValid && cfg.defaultRpcTimeout == options.defaultRpcTimeout
  | .idle options | .gracefulStop options => options.isValid

/-- The delay in milliseconds, if a timer is armed. -/
def TimerUse.delay : TimerUse → Option Int64
  | .call cfg _ ctl => some (rpcTimeout cfg ctl)
  | .idle options =>
      if options.idleTimeout ≤ 0 then none else some options.idleTimeout
  | .gracefulStop options =>
      if options.gracefulStopTimeout = 0 then none
      else some options.gracefulStopTimeout

-- == deadlines

/-- `duration_cast<microseconds>(delay)` of milliseconds. -/
def delayUs (delay : Int64) : Signed := .mul ⟨delay, false⟩ ⟨1000, false⟩

/-- `steady_clock::now() + delay` of microseconds. -/
def expireAtOf (now : Int64) (delay : Signed) : Signed :=
  .add ⟨now, false⟩ (delay.mul ⟨1000, false⟩)

/-- `duration_cast<microseconds>(expire_at.time_since_epoch())`. -/
def expireUsOf (expireAt : Signed) : Signed := expireAt.div ⟨1000, false⟩

/-- The `expire_at` of a timer armed at `now` with a delay in
milliseconds. -/
def deadline (now delay : Int64) : Signed := expireAtOf now (delayUs delay)

end AntRpc.Timer
