import KernelForge.Device.Simulator.State

/-!
# Launches on the simulated driver

Arguments stay bound to a kernel from one launch to the next. A launch needs them bound without a
gap from the first on and every bound buffer still there. The hook stands for the device: it sees
the arguments, and what it leaves in buffer arguments is written back.
-/

namespace KernelForge.Device.Simulator

/-- Bind an argument of a kernel. -/
def setKernelArg (s : Simulator) (kernel : KernelId) (index : UInt32) (value : Bound) :
    Status × Simulator :=
  let missing := match value with
    | .buffer id => !s.buffers.contains id
    | .bytes _ => false
  let (result, s) := s.attempt .setKernelArg <|
    if missing then .error .invalidMemObject
    else if s.kernels.contains kernel then
      .ok ((), { s with kernels := s.kernels.modify kernel fun k =>
        { k with args := k.args.insert index value } })
    else .error .invalidKernel
  (statusOf result, s)

/-- The arguments of a kernel in order, if they are bound without a gap from the first on. -/
def arguments? (k : KernelObject) : Option (List Bound) :=
  (List.range k.args.size).mapM fun i => k.args.get? (UInt32.ofNat i)

/-- A bound argument as a launch sees it. -/
def launchArg? (s : Simulator) : Bound → Option LaunchArg
  | .bytes value => some (.bytes value)
  | .buffer id => (s.buffers.get? id).map .buffer

/-- Write an argument back to the buffer that it came from. -/
def writeBack (buffers : Table MemId (List UInt8)) (arg : Bound × LaunchArg) :
    Table MemId (List UInt8) :=
  match arg with
  | (.buffer id, .buffer contents) => buffers.modify id fun _ => contents
  | _ => buffers

/-- The arguments after the hook has run. -/
def runHook (s : Simulator) (kernel : String) (size : Nat) (args : List LaunchArg) :
    List LaunchArg :=
  match s.hook with
  | some hook => hook kernel size args
  | none => args

/-- Run a kernel whose arguments are known. -/
def perform (s : Simulator) (kernel : String) (size : Nat) (bound : List Bound)
    (args : List LaunchArg) : Simulator :=
  { s with
    buffers := (bound.zip (s.runHook kernel size args)).foldl writeBack s.buffers
    launches := s.launches ++ [⟨kernel, size, args⟩] }

/-- Launch a kernel over `size` work-items. -/
def enqueueKernel (s : Simulator) (queue : QueueId) (kernel : KernelId) (size : Nat) :
    Status × Simulator :=
  let (result, s) := s.attempt .enqueueKernel <|
    if !s.queues.contains queue then .error .invalidQueue
    else match s.kernels.get? kernel with
      | none => .error .invalidKernel
      | some k =>
        match arguments? k with
        | none => .error .invalidKernelArgs
        | some bound =>
          match bound.mapM s.launchArg? with
          | none => .error .invalidMemObject
          | some args => .ok ((), s.perform k.name size bound args)
  (statusOf result, s)

/-- Wait until a queue has done everything. -/
def finish (s : Simulator) (queue : QueueId) : Status :=
  match s.failure? .finish with
  | some status => status
  | none => if s.queues.contains queue then .success else .invalidQueue

/-- Read the first `size` bytes of a buffer: the status and what was read. -/
def readBuffer (s : Simulator) (queue : QueueId) (id : MemId) (size : Nat) :
    Status × List UInt8 :=
  match s.failure? .readBuffer with
  | some status => (status, [])
  | none =>
    if !s.queues.contains queue then (.invalidQueue, [])
    else match s.buffers.get? id with
      | none => (.invalidMemObject, [])
      | some contents =>
        if contents.length < size then (.invalidValue, []) else (.success, contents.take size)

end KernelForge.Device.Simulator
