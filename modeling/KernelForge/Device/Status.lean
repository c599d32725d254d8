/-!
# Status codes

Every entry point of a device driver answers with a number. Zero is success; the others have names
of their own, as far as diagnostics know them.
-/

namespace KernelForge.Device

/-- The answer of an entry point. -/
structure Status where
  code : Int32
deriving DecidableEq

namespace Status

def success : Status := ⟨0⟩
def deviceNotFound : Status := ⟨-1⟩
def buildFailure : Status := ⟨-11⟩
def invalidValue : Status := ⟨-30⟩
def invalidPlatform : Status := ⟨-32⟩
def invalidDevice : Status := ⟨-33⟩
def invalidContext : Status := ⟨-34⟩
def invalidQueue : Status := ⟨-36⟩
def invalidMemObject : Status := ⟨-38⟩
def invalidProgram : Status := ⟨-44⟩
def invalidKernelName : Status := ⟨-46⟩
def invalidKernel : Status := ⟨-48⟩
def invalidKernelArgs : Status := ⟨-52⟩
def platformNotFound : Status := ⟨-1001⟩

/-- The names that diagnostics know. -/
def names : List (Status × String) := [
  (success, "CL_SUCCESS"),
  (deviceNotFound, "CL_DEVICE_NOT_FOUND"),
  (⟨-2⟩, "CL_DEVICE_NOT_AVAILABLE"),
  (⟨-5⟩, "CL_OUT_OF_RESOURCES"),
  (⟨-6⟩, "CL_OUT_OF_HOST_MEMORY"),
  (buildFailure, "CL_BUILD_PROGRAM_FAILURE"),
  (invalidValue, "CL_INVALID_VALUE"),
  (invalidPlatform, "CL_INVALID_PLATFORM"),
  (invalidDevice, "CL_INVALID_DEVICE"),
  (invalidContext, "CL_INVALID_CONTEXT"),
  (invalidQueue, "CL_INVALID_COMMAND_QUEUE"),
  (invalidMemObject, "CL_INVALID_MEM_OBJECT"),
  (invalidProgram, "CL_INVALID_PROGRAM"),
  (invalidKernelName, "CL_INVALID_KERNEL_NAME"),
  (invalidKernel, "CL_INVALID_KERNEL"),
  (⟨-49⟩, "CL_INVALID_ARG_INDEX"),
  (⟨-50⟩, "CL_INVALID_ARG_VALUE"),
  (⟨-51⟩, "CL_INVALID_ARG_SIZE"),
  (invalidKernelArgs, "CL_INVALID_KERNEL_ARGS"),
  (⟨-53⟩, "CL_INVALID_WORK_DIMENSION"),
  (⟨-63⟩, "CL_INVALID_GLOBAL_WORK_SIZE"),
  (platformNotFound, "CL_PLATFORM_NOT_FOUND_KHR")]

/-- The name of a status. -/
def name (s : Status) : String :=
  (names.lookup s).getD "unknown status"

end Status

end KernelForge.Device
