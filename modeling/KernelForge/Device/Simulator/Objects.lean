import KernelForge.Device.Simulator.State
import KernelForge.Text.Basic

/-!
# Objects of the simulated driver

Contexts, queues, programs, kernels and buffers: how they are created, how programs are built, and
how everything is released again. Releasing cannot be made to fail.
-/

namespace KernelForge.Device.Simulator

/-- Open a context on a device of a platform. -/
def createContext (s : Simulator) (platform : PlatformId) (device : DeviceId) :
    Except Status ContextId × Simulator :=
  s.attempt .createContext <|
    if s.owns platform device then
      let id : ContextId := ⟨s.nextHandle⟩
      .ok (id, { s.advance with contexts := s.contexts.insert id () })
    else .error .invalidDevice

/-- Open a queue for a device in a context. -/
def createQueue (s : Simulator) (context : ContextId) (device : DeviceId) :
    Except Status QueueId × Simulator :=
  s.attempt .createQueue <|
    if !s.contexts.contains context then .error .invalidContext
    else if !s.devices.contains device then .error .invalidDevice
    else
      let id : QueueId := ⟨s.nextHandle⟩
      .ok (id, { s.advance with queues := s.queues.insert id () })

/-- Enter a source as a program that is not built yet. -/
def createProgram (s : Simulator) (context : ContextId) (source : String) :
    Except Status ProgramId × Simulator :=
  s.attempt .createProgram <|
    if s.contexts.contains context then
      let id : ProgramId := ⟨s.nextHandle⟩
      .ok (id, { s.advance with
        sources := s.sources ++ [source]
        programs := s.programs.insert id ⟨source, false⟩ })
    else .error .invalidContext

/-- Build a program. Also a failed attempt is counted. -/
def buildProgram (s : Simulator) (program : ProgramId) : Status × Simulator :=
  let s := { s with builds := s.builds + 1 }
  let (result, s) := s.attempt .buildProgram <|
    if s.programs.contains program then
      .ok ((), { s with programs := s.programs.modify program fun p => { p with built := true } })
    else .error .invalidProgram
  (statusOf result, s)

/-- Answer a question about the build of a program. -/
def buildInfo (s : Simulator) (program : ProgramId) (param : UInt32) (r : Request Nat) :
    Reply Nat UInt8 :=
  s.reply .getBuildInfo r <|
    if !s.programs.contains program then r.refuse .invalidProgram
    else if param = buildLogParam then answer (terminated s.buildLog) r
    else r.refuse .invalidValue

/-- The log of the build of a program. -/
def programLog (s : Simulator) (program : ProgramId) : Except Error String :=
  readBuildLog (s.buildInfo program buildLogParam)

/-- How a kernel function starts in a source. -/
def kernelHeader (name : String) : String :=
  "__kernel void " ++ name ++ "("

/-- Make a kernel from a function of a program that has been built. -/
def createKernel (s : Simulator) (program : ProgramId) (name : String) :
    Except Status KernelId × Simulator :=
  s.attempt .createKernel <|
    match s.programs.get? program with
    | none => .error .invalidProgram
    | some p =>
      if !p.built then .error .invalidProgram
      else if !Text.contains p.source (kernelHeader name) then .error .invalidKernelName
      else
        let id : KernelId := ⟨s.nextHandle⟩
        .ok (id, { s.advance with kernels := s.kernels.insert id { name } })

/-- Make a buffer with given contents. -/
def createBuffer (s : Simulator) (context : ContextId) (contents : List UInt8) :
    Except Status MemId × Simulator :=
  s.attempt .createBuffer <|
    if s.contexts.contains context then
      let id : MemId := ⟨s.nextHandle⟩
      .ok (id, { s.advance with buffers := s.buffers.insert id contents })
    else .error .invalidContext

/-! ### Release -/

/-- The outcome of a release: a resource that is not there cannot be released. -/
def release (s : Simulator) (present : Bool) (missing : Status) (resource : Resource)
    (after : Simulator) : Status × Simulator :=
  if present then (.success, { after with released := s.released ++ [resource] })
  else (missing, s)

def releaseBuffer (s : Simulator) (id : MemId) : Status × Simulator :=
  s.release (s.buffers.contains id) .invalidMemObject .mem
    { s with buffers := s.buffers.erase id }

def releaseKernel (s : Simulator) (id : KernelId) : Status × Simulator :=
  s.release (s.kernels.contains id) .invalidKernel .kernel
    { s with kernels := s.kernels.erase id }

def releaseProgram (s : Simulator) (id : ProgramId) : Status × Simulator :=
  s.release (s.programs.contains id) .invalidProgram .program
    { s with programs := s.programs.erase id }

def releaseQueue (s : Simulator) (id : QueueId) : Status × Simulator :=
  s.release (s.queues.contains id) .invalidQueue .queue
    { s with queues := s.queues.erase id }

def releaseContext (s : Simulator) (id : ContextId) : Status × Simulator :=
  s.release (s.contexts.contains id) .invalidContext .context
    { s with contexts := s.contexts.erase id }

end KernelForge.Device.Simulator
