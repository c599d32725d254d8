import KernelForge.Text.Hex

/-!
# Handles

A driver names its objects by numbers. The kind of object is part of the type of a handle, so that
a queue cannot be passed where a buffer is meant.
-/

namespace KernelForge.Device

/-- The kinds of objects that a driver hands out. -/
inductive ObjectKind
  | platform
  | device
  | context
  | queue
  | program
  | kernel
  | memory
deriving DecidableEq

/-- The name of an object of a given kind. -/
structure Handle (kind : ObjectKind) where
  raw : Nat
deriving DecidableEq

abbrev PlatformId := Handle .platform
abbrev DeviceId := Handle .device
abbrev ContextId := Handle .context
abbrev QueueId := Handle .queue
abbrev ProgramId := Handle .program
abbrev KernelId := Handle .kernel
abbrev MemId := Handle .memory

/-- How diagnostics call a handle of this kind. -/
def ObjectKind.handleName : ObjectKind → String
  | platform => "PlatformId"
  | device => "DeviceId"
  | context => "ContextId"
  | queue => "QueueId"
  | program => "ProgramId"
  | kernel => "KernelId"
  | memory => "MemId"

/-- A handle as diagnostics show it. -/
def Handle.describe {kind : ObjectKind} (h : Handle kind) : String :=
  kind.handleName ++ "(0x" ++ Hex.ofNat h.raw ++ ")"

end KernelForge.Device
