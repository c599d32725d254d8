import KernelForge.Device.Error

/-!
# Entry points

The entry points of a driver. Their names stand in error messages, and the simulator looks up
injected failures by them. A driver library has to export every one of them: it is looked for under
the name that is set, or else under some default names, and the first one that can be opened is used.
What can be opened on a machine, and which names it exports, is a parameter.
-/

namespace KernelForge.Device

/-- An entry point of a driver. -/
inductive Call
  | getPlatformIds
  | getPlatformInfo
  | getDeviceIds
  | getDeviceInfo
  | createContext
  | createQueue
  | createProgram
  | buildProgram
  | getBuildInfo
  | createKernel
  | setKernelArg
  | createBuffer
  | enqueueKernel
  | finish
  | readBuffer
  | releaseBuffer
  | releaseKernel
  | releaseProgram
  | releaseQueue
  | releaseContext
deriving DecidableEq

/-- The name under which a driver library exports an entry point. -/
def Call.name : Call → String
  | getPlatformIds => "clGetPlatformIDs"
  | getPlatformInfo => "clGetPlatformInfo"
  | getDeviceIds => "clGetDeviceIDs"
  | getDeviceInfo => "clGetDeviceInfo"
  | createContext => "clCreateContext"
  | createQueue => "clCreateCommandQueue"
  | createProgram => "clCreateProgramWithSource"
  | buildProgram => "clBuildProgram"
  | getBuildInfo => "clGetProgramBuildInfo"
  | createKernel => "clCreateKernel"
  | setKernelArg => "clSetKernelArg"
  | createBuffer => "clCreateBuffer"
  | enqueueKernel => "clEnqueueNDRangeKernel"
  | finish => "clFinish"
  | readBuffer => "clEnqueueReadBuffer"
  | releaseBuffer => "clReleaseMemObject"
  | releaseKernel => "clReleaseKernel"
  | releaseProgram => "clReleaseProgram"
  | releaseQueue => "clReleaseCommandQueue"
  | releaseContext => "clReleaseContext"

/-- All entry points, in the order in which they are resolved. -/
def Call.all : List Call :=
  [getPlatformIds, getPlatformInfo, getDeviceIds, getDeviceInfo, createContext, createQueue,
    createProgram, buildProgram, getBuildInfo, createKernel, setKernelArg, createBuffer,
    enqueueKernel, finish, readBuffer, releaseBuffer, releaseKernel, releaseProgram, releaseQueue,
    releaseContext]

/-! ### Driver libraries -/

/-- The libraries that are tried when none is named. -/
def libraryCandidates : List String :=
  ["libOpenCL.so.1", "libOpenCL.so"]

/-- Resolve the entry points of a library in their order, given which names it exports. -/
def resolveEntryPoints (library : String) (exports : String → Bool) : Except Error Unit :=
  match Call.all.find? fun call => !exports call.name with
  | some missing => .error (.missingSymbol library missing.name)
  | none => .ok ()

/-- Load the first library that can be opened, and answer with its name. -/
def loadLibrary (opened? : String → Option (String → Bool)) (named : Option String) :
    Except Error String := do
  let candidates := match named with
    | some library => [library]
    | none => libraryCandidates
  match candidates.findSome? fun library => (opened? library).map (Prod.mk library) with
  | some (library, exports) =>
    resolveEntryPoints library exports
    return library
  | none => throw (.libraryUnavailable candidates)

end KernelForge.Device
