import KernelForge.Device.Catalog
import KernelForge.Device.Model
import KernelForge.Table

/-!
# A simulated driver

The simulator holds the platforms that it was made from and every object that was created and not
yet released. It keeps a record of what was done with it. Any entry point can be made to fail: then
it answers with the injected status and does nothing else.
-/

namespace KernelForge.Device

/-- A program and whether it has been built. -/
structure Program where
  source : String
  built : Bool

/-- What an argument of a kernel is bound to. -/
inductive Bound
  | bytes (value : List UInt8)
  | buffer (id : MemId)

/-- A kernel and its arguments bound so far. -/
structure KernelObject where
  name : String
  args : Table UInt32 Bound := {}

/-- An argument as a launch sees it: the bytes of a value or the contents of a buffer. -/
inductive LaunchArg
  | bytes (value : List UInt8)
  | buffer (contents : List UInt8)
deriving DecidableEq

/-- A launch, with its arguments as they were when it started. -/
structure Launch where
  kernel : String
  size : Nat
  args : List LaunchArg
deriving DecidableEq

/-- What runs in place of the device: from the name of the kernel, the number of work-items and the
arguments to the arguments afterwards. -/
abbrev Hook := String → Nat → List LaunchArg → List LaunchArg

/-- A platform that the simulator lists. -/
structure ListedPlatform where
  id : PlatformId
  name : String
  devices : List DeviceId

/-- Objects that can be released. -/
inductive Resource
  | mem
  | kernel
  | program
  | queue
  | context
deriving DecidableEq

/-- The names of resources in the record of releases. -/
def Resource.names : List (String × Resource) :=
  [("mem", mem), ("kernel", kernel), ("program", program), ("queue", queue), ("context", context)]

/-- The state of the simulated driver. -/
structure Simulator where
  /-- How many handles have been handed out. -/
  handles : Nat := 0
  platforms : List ListedPlatform := []
  devices : Table DeviceId DeviceModel := {}
  contexts : Table ContextId Unit := {}
  queues : Table QueueId Unit := {}
  programs : Table ProgramId Program := {}
  kernels : Table KernelId KernelObject := {}
  buffers : Table MemId (List UInt8) := {}
  /-- Injected failures, by the name of the entry point. -/
  failures : Table String Status := {}
  buildLog : String := ""
  hook : Option Hook := none
  /-- The sources of all programs ever created. -/
  sources : List String := []
  /-- How often a build was asked for. -/
  builds : Nat := 0
  launches : List Launch := []
  /-- What was released, in order. -/
  released : List Resource := []

namespace Simulator

/-- The number of the next handle. -/
def nextHandle (s : Simulator) : Nat :=
  0x1000 + s.handles + 1

/-- The state after the next handle has been handed out. -/
def advance (s : Simulator) : Simulator :=
  { s with handles := s.handles + 1 }

/-! ### Platforms and devices -/

/-- Add devices and give their handles. -/
def addDevices : List DeviceModel → Simulator → List DeviceId × Simulator
  | [], s => ([], s)
  | d :: rest, s =>
    let id : DeviceId := ⟨s.nextHandle⟩
    let (ids, s) := addDevices rest { s.advance with devices := s.devices.insert id d }
    (id :: ids, s)

/-- Add a platform and its devices. -/
def addPlatform (s : Simulator) (p : PlatformModel) : Simulator :=
  let id : PlatformId := ⟨s.nextHandle⟩
  let (devices, s) := addDevices p.devices s.advance
  { s with platforms := s.platforms ++ [⟨id, p.name, devices⟩] }

/-- The simulator of a list of platforms. -/
def ofPlatforms (platforms : List PlatformModel) : Simulator :=
  platforms.foldl addPlatform {}

/-- The platform of an id. -/
def platform? (s : Simulator) (id : PlatformId) : Option ListedPlatform :=
  s.platforms.find? fun p => p.id = id

/-- Whether a platform has a device. -/
def owns (s : Simulator) (platform : PlatformId) (device : DeviceId) : Bool :=
  s.platforms.any fun p => p.id = platform ∧ device ∈ p.devices

/-! ### Injected failures -/

/-- Make an entry point fail from now on. -/
def fail (s : Simulator) (call : String) (status : Status) : Simulator :=
  { s with failures := s.failures.insert call status }

/-- Make every build fail and leave `log` as its log. -/
def failBuild (s : Simulator) (log : String) : Simulator :=
  { s.fail Call.buildProgram.name .buildFailure with buildLog := log }

/-- The status injected for an entry point. -/
def failure? (s : Simulator) (call : Call) : Option Status :=
  s.failures.get? call.name

/-- The outcome of an attempt: on refusal the state is as before. -/
def conclude {α : Type} (s : Simulator) (outcome : Except Status (α × Simulator)) :
    Except Status α × Simulator :=
  match outcome with
  | .ok (a, after) => (.ok a, after)
  | .error status => (.error status, s)

/-- The outcome of calling an entry point: an injected failure comes before everything else. -/
def attempt {α : Type} (s : Simulator) (call : Call) (outcome : Except Status (α × Simulator)) :
    Except Status α × Simulator :=
  match s.failure? call with
  | some status => (.error status, s)
  | none => s.conclude outcome

/-- The status of an outcome that gives nothing but a status. -/
def statusOf : Except Status Unit → Status
  | .ok () => .success
  | .error status => status

/-! ### Questions about platforms and devices -/

/-- The answer to a question, unless a failure was injected. -/
def reply {ν α : Type} (s : Simulator) (call : Call) (r : Request ν) (answered : Reply ν α) :
    Reply ν α :=
  match s.failure? call with
  | some status => r.refuse status
  | none => answered

/-- List the platforms. An empty list is reported as a failure of its own. -/
def platformIds (s : Simulator) (r : Request UInt32) : Reply UInt32 PlatformId :=
  s.reply .getPlatformIds r <|
    if s.platforms.isEmpty then ⟨.platformNotFound, 0, []⟩
    else answerCounted (s.platforms.map (·.id)) r

/-- Answer a question about a platform. -/
def platformInfo (s : Simulator) (id : PlatformId) (param : UInt32) (r : Request Nat) :
    Reply Nat UInt8 :=
  s.reply .getPlatformInfo r <|
    match s.platform? id with
    | none => r.refuse .invalidPlatform
    | some p =>
      if param = platformNameParam then answer (terminated p.name) r
      else r.refuse .invalidValue

/-- List the devices of a platform. An empty list is reported as a failure of its own. -/
def deviceIds (s : Simulator) (id : PlatformId) (r : Request UInt32) : Reply UInt32 DeviceId :=
  s.reply .getDeviceIds r <|
    match s.platform? id with
    | none => r.refuse .invalidPlatform
    | some p => if p.devices.isEmpty then ⟨.deviceNotFound, 0, []⟩ else answerCounted p.devices r

/-- Answer a question about a device. -/
def deviceInfo (s : Simulator) (id : DeviceId) (param : UInt32) (r : Request Nat) :
    Reply Nat UInt8 :=
  s.reply .getDeviceInfo r <|
    match s.devices.get? id with
    | none => r.refuse .invalidDevice
    | some d =>
      match d.report? param with
      | some bytes => answer bytes r
      | none => r.refuse .invalidValue

/-- The questions that the simulator answers. -/
def catalog (s : Simulator) : Catalog :=
  ⟨s.platformIds, s.platformInfo, s.deviceIds, s.deviceInfo⟩

/-! ### Counting -/

/-- The number of objects that have not been released. -/
def liveObjects (s : Simulator) : Nat :=
  s.contexts.size + s.queues.size + s.programs.size + s.kernels.size + s.buffers.size

end Simulator

end KernelForge.Device
