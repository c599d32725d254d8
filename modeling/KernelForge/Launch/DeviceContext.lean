import KernelForge.Device.Simulator.Launches
import KernelForge.Device.Simulator.Objects
import KernelForge.Launch.Cache
import KernelForge.Launch.Memory
import KernelForge.Source.CompilationUnit

/-!
# Running kernels on a device

A device context generates the source of a kernel, builds it once, and launches it with the current
bindings of its fields: arrays are copied to buffers before a launch and back after it. Whatever
happens, the buffers of a launch are released when it is over, and a program that cannot be used is
released at once. Closing the context releases everything else.
-/

namespace KernelForge.Launch

open Device

/-- A kernel as a device context sees it. The key tells kernels apart, whatever they hold. -/
structure Kernel where
  key : Nat
  cls : Option KernelClass
  /-- One binding for each field, in order. -/
  bindings : List Binding

/-- A driver and the memory of the host. -/
structure Machine where
  simulator : Simulator := {}
  memory : Memory := {}

/-- A kernel that has been built for a device. -/
structure DeviceProgram where
  source : Source.KernelSource
  program : ProgramId
  kernel : KernelId

/-- What an open context holds on a device. -/
structure Live where
  context : ContextId
  queue : QueueId

/-- A context on a device. It is closed if it holds nothing any more. -/
structure DeviceContext where
  device : DeviceProfile
  live : Option Live
  cache : Cache Nat DeviceProgram := {}

namespace DeviceContext

/-- The failure of an entry point without a log. -/
def refused (call : Call) (status : Status) : Error :=
  .callFailed call.name status none

/-- Accept success and report any other status. -/
def accept (call : Call) (status : Status) : Except Error Unit :=
  if status = .success then .ok () else .error (refused call status)

/-- Open a context. If it can have no queue it is released again. -/
def create (platform : PlatformId) (device : DeviceProfile) (s : Simulator) :
    Except Error DeviceContext × Simulator :=
  match s.createContext platform device.id with
  | (.error status, s) => (.error (refused .createContext status), s)
  | (.ok context, s) =>
    match s.createQueue context device.id with
    | (.error status, s) => (.error (refused .createQueue status), (s.releaseContext context).2)
    | (.ok queue, s) => (.ok { device, live := some ⟨context, queue⟩ }, s)

/-! ### Building -/

/-- The source of a kernel for a device. Only fields are bound as arguments, so the entry method must
have no parameters of its own. -/
def deviceSource (cls : KernelClass) : Except Error Source.KernelSource :=
  match cls.entry? with
  | some entry =>
    if entry.params.isEmpty then (Source.generate cls).mapError .ofSource
    else .error (.entryParameters entry.name cls.name entry.params.length)
  | none => (Source.generate cls).mapError .ofSource

/-- Build a program that has been created. If it fails the program is released. -/
def buildCreated (source : Source.KernelSource) (program : ProgramId) (s : Simulator) :
    Except Error DeviceProgram × Simulator :=
  match s.buildProgram program with
  | (status, s) =>
    if status = .success then
      match s.createKernel program source.entryPoint with
      | (.ok kernel, s) => (.ok ⟨source, program, kernel⟩, s)
      | (.error status, s) => (.error (refused .createKernel status), (s.releaseProgram program).2)
    else
      (.error (.callFailed Call.buildProgram.name status (s.programLog program).toOption),
        (s.releaseProgram program).2)

/-- Generate the source of a kernel class and build it. -/
def build (context : ContextId) (cls : KernelClass) : StateM Simulator (Except Error DeviceProgram) :=
  fun s =>
    match deviceSource cls with
    | .error e => (.error e, s)
    | .ok source =>
      match s.createProgram context source.text with
      | (.error status, s) => (.error (refused .createProgram status), s)
      | (.ok program, s) => buildCreated source program s

/-- The program of a kernel, built if it has not been yet. -/
def programOf (cx : DeviceContext) (live : Live) (key : Nat) (cls : KernelClass) (s : Simulator) :
    Except Error DeviceProgram × DeviceContext × Simulator :=
  let ((result, cache), s) := (cx.cache.getOrBuild key (build live.context cls)).run s
  (result, { cx with cache }, s)

/-- The source of a kernel, which is built if it has not been yet. -/
def source (cx : DeviceContext) (kernel : Kernel) (s : Simulator) :
    Except Error String × DeviceContext × Simulator :=
  match cx.live, kernel.cls with
  | none, _ => (.error .closed, cx, s)
  | some _, none => (.error .noClass, cx, s)
  | some live, some cls =>
    let (result, cx, s) := cx.programOf live kernel.key cls s
    (result.map (·.source.text), cx, s)

/-! ### Bindings -/

/-- The lanes of a vector type of floating-point numbers. -/
def vectorLanes? (metadata : Metadata) : Ty → Option Nat
  | .object cls => (metadata.type? cls).bind HelperType.lanes
  | _ => none

/-- Whether an array can be bound to a field with given elements. A vector takes as many numbers as it
has lanes. -/
def arrayFits (metadata : Metadata) (mem : Memory) (element : Ty) (a : SharedArray) : Bool :=
  match a.element with
  | .int => element = .int
  | .long => element = .long
  | .double => element = .double
  | .float =>
    match vectorLanes? metadata element with
    | some (lanes + 1) => mem.length a % (lanes + 1) = 0
    | _ => element = .float

/-- Whether a binding fits a field. -/
def fits (metadata : Metadata) (mem : Memory) (ty : Ty) : Binding → Bool
  | .scalar (.int _) => ty = .int
  | .scalar (.long _) => ty = .long
  | .scalar (.float _) => ty = .float
  | .scalar (.double _) => ty = .double
  | .array a =>
    match ty with
    | .array element => arrayFits metadata mem element a
    | _ => false

/-- Check the binding of one field. -/
def checkBinding (metadata : Metadata) (mem : Memory) (field : Variable) (binding : Binding) :
    Except Error Unit :=
  if !fits metadata mem field.ty binding then .error (.misfit field.name field.ty binding.typeName)
  else if binding.length? mem = some 0 then .error (.emptyArray field.name)
  else .ok ()

/-- Check that there is one fitting binding for each field. -/
def checkBindings (metadata : Metadata) (mem : Memory) (fields : List Variable)
    (bindings : List Binding) : Except Error Unit :=
  if fields.length ≠ bindings.length then
    .error (.bindingCount fields.length bindings.length)
  else
    (fields.zip bindings).forM fun (field, binding) => checkBinding metadata mem field binding

/-! ### Launching -/

/-- A buffer that was made for a bound array. -/
structure Output where
  array : SharedArray
  buffer : MemId
  size : Nat

/-- The number by which a driver knows an argument. -/
def argumentIndex (index : Nat) : Except Error UInt32 :=
  if index < UInt32.size then .ok (UInt32.ofNat index) else .error (.argumentRange index)

/-- Bind a value or a buffer to one argument. -/
def bindValue (kernel : KernelId) (index : UInt32) (value : Bound) (s : Simulator) :
    Except Error Unit × Simulator :=
  let (status, s) := s.setKernelArg kernel index value
  (accept .setKernelArg status, s)

/-- Bind one argument: the buffer made for it, if it is an array, and how it went. -/
def bindArgument (context : ContextId) (kernel : KernelId) (mem : Memory) (index : Nat)
    (binding : Binding) (s : Simulator) : Option Output × Except Error Unit × Simulator :=
  match argumentIndex index with
  | .error e => (none, .error e, s)
  | .ok number =>
    let bytes := binding.toBytes mem
    match binding with
    | .scalar _ => (none, bindValue kernel number (.bytes bytes) s)
    | .array a =>
      match s.createBuffer context bytes with
      | (.error status, s) => (none, .error (refused .createBuffer status), s)
      | (.ok buffer, s) =>
        (some ⟨a, buffer, bytes.length⟩, bindValue kernel number (.buffer buffer) s)

/-- Bind the arguments from `index` on, up to the first that fails. The buffers made are listed in
any case. -/
def bindArguments (context : ContextId) (kernel : KernelId) (mem : Memory) :
    Nat → List Binding → Simulator → List Output × Except Error Unit × Simulator
  | _, [], s => ([], .ok (), s)
  | index, binding :: rest, s =>
    match bindArgument context kernel mem index binding s with
    | (made, .error e, s) => (made.toList, .error e, s)
    | (made, .ok (), s) =>
      let (later, result, s) := bindArguments context kernel mem (index + 1) rest s
      (made.toList ++ later, result, s)

/-- Copy buffers back to the arrays that they were made for, up to the first that fails. -/
def readBack (queue : QueueId) (s : Simulator) :
    List Output → Memory → Except Error Unit × Memory
  | [], mem => (.ok (), mem)
  | output :: rest, mem =>
    let (status, read) := s.readBuffer queue output.buffer output.size
    match accept .readBuffer status with
    | .error e => (.error e, mem)
    | .ok () =>
      match mem.copyFromBytes output.array (overwrite (List.replicate output.size 0) read) with
      | .error e => (.error e, mem)
      | .ok mem => readBack queue s rest mem

/-- Run a kernel whose arguments are bound and copy the results back. -/
def runBound (live : Live) (kernel : KernelId) (size : Nat) (outputs : List Output) (m : Machine) :
    Except Error Unit × Machine :=
  let (status, s) := m.simulator.enqueueKernel live.queue kernel size
  let m := { m with simulator := s }
  match accept .enqueueKernel status *> accept .finish (s.finish live.queue) with
  | .error e => (.error e, m)
  | .ok () =>
    let (result, memory) := readBack live.queue s outputs m.memory
    (result, { m with memory })

/-- Release the buffers of a launch. -/
def releaseOutputs (outputs : List Output) (s : Simulator) : Simulator :=
  outputs.foldl (fun s output => (s.releaseBuffer output.buffer).2) s

/-- Launch a kernel with given bindings over `size` work-items. -/
def launch (live : Live) (kernel : KernelId) (bindings : List Binding) (size : Nat) (m : Machine) :
    Except Error Unit × Machine :=
  let (outputs, bound, s) := bindArguments live.context kernel m.memory 0 bindings m.simulator
  let m := { m with simulator := s }
  let (result, m) : Except Error Unit × Machine := match bound with
    | .error e => (.error e, m)
    | .ok () => runBound live kernel size outputs m
  (result, { m with simulator := releaseOutputs outputs m.simulator })

/-- Run a kernel over `size` work-items. Without work-items it is built but not launched. -/
def compute (cx : DeviceContext) (size : Nat) (kernel : Kernel) (m : Machine) :
    Except Error Unit × DeviceContext × Machine :=
  match cx.live, kernel.cls with
  | none, _ => (.error .closed, cx, m)
  | some _, none => (.error .noClass, cx, m)
  | some live, some cls =>
    let (built, cx, s) := cx.programOf live kernel.key cls m.simulator
    let m := { m with simulator := s }
    match built with
    | .error e => (.error e, cx, m)
    | .ok program =>
      if size = 0 then (.ok (), cx, m)
      else
        match checkBindings cls.metadata m.memory program.source.arguments kernel.bindings with
        | .error e => (.error e, cx, m)
        | .ok () =>
          let (result, m) := launch live program.kernel kernel.bindings size m
          (result, cx, m)

/-! ### Closing -/

/-- A release and the entry point that does it. -/
abbrev Release := Call × (Simulator → Status × Simulator)

/-- What closing releases: each kernel and its program, then the queue, then the context. -/
def releases (live : Live) (programs : List DeviceProgram) : List Release :=
  programs.flatMap (fun p =>
    [(.releaseKernel, fun s => s.releaseKernel p.kernel),
      (.releaseProgram, fun s => s.releaseProgram p.program)]) ++
    [(.releaseQueue, fun s => s.releaseQueue live.queue),
      (.releaseContext, fun s => s.releaseContext live.context)]

/-- Make all releases and report the first that fails. -/
def releaseAll : List Release → Simulator → Except Error Unit × Simulator
  | [], s => (.ok (), s)
  | (call, release) :: rest, s =>
    let (status, s) := release s
    let (later, s) := releaseAll rest s
    match accept call status with
    | .ok () => (later, s)
    | .error e => (.error e, s)

/-- Release everything that the context holds. A context that is closed holds nothing. -/
def close (cx : DeviceContext) (s : Simulator) : Except Error Unit × DeviceContext × Simulator :=
  match cx.live with
  | none => (.ok (), cx, s)
  | some live =>
    let (programs, cache) := cx.cache.drain
    let (result, s) := releaseAll (releases live programs) s
    (result, { cx with live := none, cache }, s)

end DeviceContext

end KernelForge.Launch
