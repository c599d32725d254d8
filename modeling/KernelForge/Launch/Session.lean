import KernelForge.Launch.Platform
import KernelForge.Launch.Workload

/-!
# Sessions

A session is one driver, the memory of the host, some kernels, and the contexts opened so far. Each
operation below is one thing a user can do; what it does to the session is its only effect. Contexts
are numbered in the order in which they were asked for, and one that could not be opened has its
number too.
-/

namespace KernelForge.Launch

open Device (DeviceId DeviceProfile PlatformId PlatformProfile Simulator Catalog Override)

/-- A context that has been opened. -/
inductive Context
  | parallel
  | pool (pool : Pool)
  | device (context : DeviceContext)

/-- What is known of a context. One that came from a platform does not show what it is. -/
structure OpenContext where
  context : Context
  shown : Bool

/-- Everything that happens in one place. -/
structure Session where
  machine : Machine := {}
  overlay : List Override := []
  /-- How many threads the machine runs at once. -/
  hardware : Nat := 1
  /-- The libraries that can be opened on the machine, each with the names that it exports. Any of
  them that is a driver is the driver of the session. -/
  libraries : String → Option (String → Bool) := fun _ => none
  kernels : List Workload := []
  /-- The contexts asked for; those that could not be opened or were dropped are missing. -/
  contexts : List (Option OpenContext) := []
  platform : Option Platform := none

namespace Session

/-- The questions about platforms and devices, with their overridden answers. -/
def catalog (s : Session) : Catalog :=
  s.machine.simulator.catalog.withOverlay s.overlay

/-- Use the driver directly. -/
def onDriver {α : Type} (use : Simulator → α × Simulator) : StateM Session α :=
  fun s =>
    let (a, simulator) := use s.machine.simulator
    (a, { s with machine := { s.machine with simulator } })

/-- Add a kernel. -/
def addKernel (activity : Activity) (cls : Option KernelClass) (bindings : List Binding)
    (length : Nat) : StateM Session Unit :=
  modify fun s =>
    let (workload, memory) := Workload.create s.machine.memory activity cls bindings length
    { s with machine := { s.machine with memory }, kernels := s.kernels ++ [workload] }

/-- Allocate an array. -/
def allocate (element : Element) (values : List Scalar) : StateM Session SharedArray :=
  fun s =>
    let (array, memory) := s.machine.memory.allocate element values
    (array, { s with machine := { s.machine with memory } })

/-! ### Platforms -/

/-- Make a platform the current one. -/
def usePlatform (platform : Platform) : StateM Session Platform := do
  modify fun s => { s with platform := some platform }
  return platform

/-- Find a device and make it the current platform. -/
def discover (options : Options) : StateM Session (Except Error Platform) := do
  match Platform.discover (← get).catalog options with
  | .ok platform => return .ok (← usePlatform platform)
  | .error e => return .error e

/-- Find a device, or else take the host, and make it the current platform. -/
def discoverOrHost (options : Options) : StateM Session Platform := do
  let s ← get
  usePlatform (Platform.orHost s.hardware options (Platform.discover s.catalog options))

/-- Load a driver library, or else take the host, and make it the current platform. -/
def loadOrHost (options : Options) : StateM Session Platform := do
  let s ← get
  usePlatform (Platform.orHost s.hardware options (Platform.load s.libraries s.catalog options))

/-- Make the host the current platform. -/
def useHost (options : Options) : StateM Session Platform := do
  usePlatform (Platform.ofHost (← get).hardware options)

/-! ### Contexts -/

/-- Enter a context that was asked for, or that it could not be opened. -/
def enter (shown : Bool) (opened : Except Error Context) : StateM Session (Except Error Nat) :=
  fun s =>
    match opened with
    | .ok context =>
      (.ok s.contexts.length, { s with contexts := s.contexts ++ [some ⟨context, shown⟩] })
    | .error e => (.error e, { s with contexts := s.contexts ++ [none] })

/-- Open a context on a device. -/
def createDevice (platform : PlatformId) (device : DeviceProfile) :
    StateM Session (Except Error Context) := do
  let created ← onDriver (DeviceContext.create platform device)
  return created.map .device

/-- Open a context on the current platform, if there is one. -/
def openCurrent : StateM Session (Option (Except Error Nat)) := do
  match (← get).platform with
  | none => return none
  | some (.host _ .parallel _) => some <$> enter false (.ok .parallel)
  | some (.host _ .pool threads) => some <$> enter false (.ok (.pool (.ofThreads threads)))
  | some (.accelerator selection) => do
    let context ← createDevice selection.platform.id selection.device
    some <$> enter false context

/-- Open a context that runs on threads that are always there. -/
def openParallel : StateM Session (Except Error Nat) :=
  enter true (.ok .parallel)

/-- Open a context with a pool of threads of its own. -/
def openPool (threads : Nat) : StateM Session (Except Error Nat) :=
  enter true (.ok (.pool (.ofThreads threads)))

/-- Open a context on a device after asking for its profile. If the device does not answer, no number
is used up. -/
def openDevice (platform : PlatformId) (device : DeviceId) :
    StateM Session (Except Device.Error (Except Error Nat)) := do
  match (← get).catalog.deviceProfile device with
  | .error e => return .error e
  | .ok profile => do
    let context ← createDevice platform profile
    .ok <$> enter true context

/-- What is known of the context of a number, unless it could not be opened or was dropped. -/
def opened? (s : Session) (number : Nat) : Option OpenContext :=
  (s.contexts[number]?).join

/-- The context of a number. -/
def context? (s : Session) (number : Nat) : Option Context :=
  (s.opened? number).map (·.context)

/-- Change the context of a number. -/
def setContext (s : Session) (number : Nat) (context : Context) : Session :=
  { s with contexts := s.contexts.modify number (·.map fun o => { o with context }) }

/-- Close a context. -/
def close (number : Nat) : StateM Session (Option (Except Error Unit)) := do
  let s ← get
  match s.context? number with
  | none => return none
  | some .parallel => return some (.ok ())
  | some (.pool pool) => do
    set (s.setContext number (.pool { pool with closed := true }))
    return some (.ok ())
  | some (.device cx) => do
    let (result, cx, simulator) := cx.close s.machine.simulator
    set ({ s with machine := { s.machine with simulator } }.setContext number (.device cx))
    return some result

/-- Close a context and forget it. The answer is whether it was there. -/
def drop (number : Nat) : StateM Session Bool := do
  let closed ← close number
  modify fun s => { s with contexts := s.contexts.set number none }
  return closed.isSome

/-- Whether a context is a pool that has been closed. -/
def isClosed (number : Nat) : StateM Session Bool := do
  match (← get).context? number with
  | some (.pool pool) => return pool.closed
  | _ => return false

/-! ### Running kernels -/

/-- Run a work-item of a recording kernel. -/
def runRecord (w : Workload) (script : Script) (item : WorkItem) : StateM Session Outcome := do
  match script.panics.lookup item.id with
  | some text => return .panic text
  | none =>
    let s ← get
    let (recorded, memory) := w.recordItem item s.machine.memory
    set { s with machine := { s.machine with memory } }
    match recorded with
    | .error f => return Workload.outOfBounds f
    | .ok () =>
      match script.closes with
      | some (id, number) => if id = item.id then discard (close number)
      | none => pure ()
      return Workload.Script.outcome script item.id

/-- Run a work-item of a kernel on the host. -/
def process (w : Workload) (item : WorkItem) : StateM Session Outcome := do
  match w.activity with
  | .idle => return .done
  | .saxpy =>
    let s ← get
    let (outcome, memory) := Workload.runSaxpy w.bindings item.id s.machine.memory
    set { s with machine := { s.machine with memory } }
    return outcome
  | .record script => runRecord w script item

/-- Run a kernel over `size` work-items. Host contexts take the work-items in ascending order. -/
def compute (number size key : Nat) : StateM Session (Option (Except Error Unit)) := do
  let s ← get
  match s.context? number, s.kernels[key]? with
  | some .parallel, some w => some <$> Host.parallel (process w) size (List.range size)
  | some (.pool _), some w => some <$> Host.pool (isClosed number) (process w) size (List.range size)
  | some (.device cx), some w => do
    let (result, cx, machine) := cx.compute size (w.kernel key) s.machine
    set ({ s with machine }.setContext number (.device cx))
    return some result
  | _, _ => return none

/-- The source of a kernel for a device context. -/
def source (number key : Nat) : StateM Session (Option (Except Error String)) := do
  let s ← get
  match s.context? number, s.kernels[key]? with
  | some (.device cx), some w => do
    let (result, cx, simulator) := cx.source (w.kernel key) s.machine.simulator
    set ({ s with machine := { s.machine with simulator } }.setContext number (.device cx))
    return some result
  | _, _ => return none

end Session

end KernelForge.Launch
