import KernelForge.Device.Status

/-!
# Why a driver cannot be used

A call was answered with a status other than success, no driver library could be loaded, the
library lacks an entry point, or a query was answered with the wrong number of bytes.
-/

namespace KernelForge.Device

/-- A cause for which a driver operation fails. -/
inductive Error
  | callFailed (call : String) (status : Status)
  | libraryUnavailable (tried : List String)
  | missingSymbol (library symbol : String)
  | malformedInfo (query : String) (expected actual : Nat)
deriving DecidableEq

namespace Error

/-- The text that reports a failed call. -/
def callText (call : String) (status : Status) : String :=
  call ++ " failed with status " ++ toString status.code.toInt ++ " (" ++ status.name ++ ")"

/-- The message of a cause. -/
def message : Error → String
  | callFailed call status => callText call status
  | libraryUnavailable tried =>
    "no OpenCL library could be loaded (tried " ++ ", ".intercalate tried ++ ")"
  | missingSymbol library symbol =>
    "OpenCL library " ++ library ++ " does not export " ++ symbol
  | malformedInfo query expected actual =>
    query ++ " returned " ++ toString actual ++ " bytes, expected " ++ toString expected

/-- The status that a failed call was answered with. -/
def status? : Error → Option Status
  | callFailed _ status => some status
  | _ => none

end Error

/-- Accept success and report any other status as the failure of `call`. -/
def check (call : String) (status : Status) : Except Error Unit :=
  if status = .success then .ok () else .error (.callFailed call status)

end KernelForge.Device
