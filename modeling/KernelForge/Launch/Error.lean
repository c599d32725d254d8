import KernelForge.Device.Error
import KernelForge.Source.Error
import KernelForge.Text.Basic
import KernelForge.Text.Quoted

/-!
# Why a launch fails

The causes for which a kernel cannot be run, from generated source that cannot be had over drivers
that refuse a call to work-items that fail. Every cause has a kind and a message.
-/

namespace KernelForge.Launch

open Device (Status)

/-- A work-item that failed, and why. -/
structure ItemFault where
  item : Nat
  message : String
deriving DecidableEq

/-- Every fault of one computation. -/
structure ExecutionFailure where
  /-- How many work-items the computation had. -/
  total : Nat
  faults : List ItemFault
deriving DecidableEq

namespace ExecutionFailure

/-- A failure with its faults in the order of the work-items. Faults of one work-item keep their
order. -/
def ofFaults (total : Nat) (faults : List ItemFault) : ExecutionFailure :=
  ⟨total, faults.mergeSort fun a b => a.item ≤ b.item⟩

/-- The work-items that failed. -/
def items (f : ExecutionFailure) : List Nat :=
  f.faults.map (·.item)

/-- How many work-items failed, and the first fault. -/
def message (f : ExecutionFailure) : String :=
  let summary := toString f.faults.length ++ " of " ++ toString f.total ++ " work-items failed"
  match f.faults with
  | [] => summary
  | first :: _ => summary ++ "; work-item " ++ toString first.item ++ ": " ++ first.message

end ExecutionFailure

/-- A cause for which a kernel cannot be run. -/
inductive Error
  /-- A cause that is already known by its kind and text. -/
  | reported (report : Source.Report)
  /-- A driver refused a call. A failed build may come with its log. -/
  | callFailed (call : String) (status : Status) (log : Option String)
  | unusableDriver (cause : Device.Error)
  | malformedInfo (cause : Device.Error)
  | noClass
  | entryParameters (method : String) (cls : ClassName) (count : Nat)
  | bindingCount (fields bindings : Nat)
  | misfit (field : String) (ty : Ty) (bound : String)
  | emptyArray (field : String)
  /-- A kernel has more arguments than a driver can number. -/
  | argumentRange (index : Nat)
  /-- A buffer of the wrong size was to be copied to an array. -/
  | copySize (bytes elements : Nat) (element : String)
  | noPlatform (available : Nat)
  | noDevice (platform : String)
  | badStrategy (setting text : String)
  | badThreads (setting text : String)
  | execution (failure : ExecutionFailure)
  | closed
deriving DecidableEq

namespace Error

/-- A cause known by its text. -/
def configuration (detail : String) : Source.Report :=
  ⟨.configuration, detail⟩

/-- The causes that are reported by kind and text. -/
def report? : Error → Option Source.Report
  | reported report => some report
  | unusableDriver cause => some (configuration cause.message)
  | malformedInfo cause => some ⟨.invariant, cause.message⟩
  | noClass =>
    some (configuration "kernel has no analyzed class and cannot run on a device")
  | entryParameters method cls count =>
    some (configuration ("entry method `" ++ method ++ "` of " ++ cls.text ++ " takes " ++
      toString count ++ " parameters; device kernels take none"))
  | bindingCount fields bindings =>
    some (configuration ("kernel declares " ++ toString fields ++ " fields but " ++
      toString bindings ++ " bindings were supplied"))
  | misfit field ty bound =>
    some (configuration ("field `" ++ field ++ "` of type " ++ ty.describe ++
      " cannot be bound to a " ++ bound ++ " value"))
  | emptyArray field =>
    some (configuration ("field `" ++ field ++ "` is bound to an empty array"))
  | argumentRange index =>
    some (configuration ("kernel argument " ++ toString index ++ " out of range"))
  | copySize bytes elements element =>
    some ⟨.invariant, "buffer of " ++ toString bytes ++ " bytes read back into " ++
      toString elements ++ " " ++ element ++ " elements"⟩
  | noPlatform available =>
    some (configuration ("no platform matches the platform filter (" ++ toString available ++
      " available)"))
  | noDevice platform => some (configuration ("platform `" ++ platform ++ "` has no devices"))
  | badStrategy setting text =>
    some (configuration (setting ++ "=" ++ Escaped.quote text ++
      ": expected `parallel` or `pool`"))
  | badThreads setting text =>
    some (configuration (setting ++ "=" ++ Escaped.quote text ++
      ": expected a positive integer"))
  | callFailed _ _ _ | execution _ | closed => none

/-- The log as it follows the message of a failed build: not at all if it is blank. -/
def logText : Option String → String
  | none => ""
  | some log => if Text.allBlank log then "" else ":\n" ++ Text.trimEnd log

/-- The message of a cause. -/
def message (e : Error) : String :=
  match e, e.report? with
  | callFailed call status log, _ => Device.Error.callText call status ++ logText log
  | execution failure, _ => failure.message
  | _, some report => report.message
  | _, none => "context is closed"

/-- The status with which a driver refused a call. -/
def status? : Error → Option Status
  | callFailed _ status _ => some status
  | _ => none

/-- A failure to generate source. -/
def ofSource (e : Source.Error) : Error :=
  reported e.report

/-- A failure of a driver. -/
def ofDevice : Device.Error → Error
  | .callFailed call status => callFailed call status none
  | .malformedInfo query expected actual => malformedInfo (.malformedInfo query expected actual)
  | e => unusableDriver e

end Error

end KernelForge.Launch
