import KernelForge.Device.Call
import KernelForge.Device.Handle
import KernelForge.Device.Property
import KernelForge.Device.TwoPhase

/-!
# What a driver offers

A catalog answers the questions about platforms and devices. From it come the profiles of all
platforms and of the devices of a platform, in the order in which the driver lists them. What a
catalog reports is taken to fit into memory; `twoPhaseWithin` says what happens if it does not.
-/

namespace KernelForge.Device

/-- The questions about platforms and devices that a driver answers. -/
structure Catalog where
  platformIds : Request UInt32 → Reply UInt32 PlatformId
  platformInfo : PlatformId → UInt32 → Request Nat → Reply Nat UInt8
  deviceIds : PlatformId → Request UInt32 → Reply UInt32 DeviceId
  deviceInfo : DeviceId → UInt32 → Request Nat → Reply Nat UInt8

/-- What a platform reports about itself. -/
structure PlatformProfile where
  id : PlatformId
  name : String
deriving DecidableEq

/-- What a device reports about itself. -/
structure DeviceProfile where
  id : DeviceId
  name : String
  computeUnits : UInt32
  dimensions : UInt32
  itemSizes : List UInt64
  groupSize : UInt64
  /-- In megahertz. -/
  clock : UInt32
  /-- In bytes. -/
  alignment : UInt32
deriving DecidableEq

/-- Read one status as an empty list: the one that says that there is nothing to list. -/
def noneFound {α : Type} (empty : Status) (found : Except Error (List α)) :
    Except Error (List α) :=
  match found with
  | .ok items => .ok items
  | .error e => if e.status? = some empty then .ok [] else .error e

namespace Catalog

/-- The ids of all platforms. -/
def listPlatforms (c : Catalog) : Except Error (List PlatformId) :=
  noneFound .platformNotFound
    (Id.run (twoPhase Call.getPlatformIds.name (blanks ⟨0⟩) (counted (m := Id) fun r => c.platformIds r)))

/-- The ids of all devices of a platform. -/
def listDevices (c : Catalog) (platform : PlatformId) : Except Error (List DeviceId) :=
  noneFound .deviceNotFound
    (Id.run (twoPhase Call.getDeviceIds.name (blanks ⟨0⟩)
      (counted (m := Id) fun r => c.deviceIds platform r)))

/-- What a platform reports about itself. -/
def platformProfile (c : Catalog) (id : PlatformId) : Except Error PlatformProfile := do
  let bytes ← Id.run
    (twoPhase Call.getPlatformInfo.name (blanks 0) (m := Id)
      fun r => c.platformInfo id platformNameParam r)
  return ⟨id, Utf8.decodeTerminated bytes⟩

/-- One property of a device. -/
def property {α : Type} (c : Catalog) (p : Property α) (id : DeviceId) : Except Error α := do
  let bytes ← Id.run
    (twoPhase Call.getDeviceInfo.name (blanks 0) (m := Id) fun r => c.deviceInfo id p.param r)
  p.decode bytes

/-- What a device reports about itself. -/
def deviceProfile (c : Catalog) (id : DeviceId) : Except Error DeviceProfile := do
  let name ← c.property .deviceName id
  let computeUnits ← c.property .computeUnits id
  let dimensions ← c.property .dimensions id
  let itemSizes ← c.property .itemSizes id
  let groupSize ← c.property .groupSize id
  let clock ← c.property .clock id
  let alignBits ← c.property .alignBits id
  return ⟨id, name, computeUnits, dimensions, itemSizes, groupSize, clock, alignBits / 8⟩

/-- The profiles of all platforms. -/
def platforms (c : Catalog) : Except Error (List PlatformProfile) := do
  (← c.listPlatforms).mapM c.platformProfile

/-- The profiles of all devices of a platform. -/
def devices (c : Catalog) (platform : PlatformId) : Except Error (List DeviceProfile) := do
  (← c.listDevices platform).mapM c.deviceProfile

end Catalog

/-- The log of a build, read with a given way of asking for it. -/
def readBuildLog (ask : Request Nat → Reply Nat UInt8) : Except Error String := do
  let bytes ← Id.run (twoPhase Call.getBuildInfo.name (blanks 0) (m := Id) fun r => ask r)
  return Utf8.decodeTerminated bytes

/-! ### Overriding what a driver reports -/

/-- One overridden answer: the object, what is asked about it, and the bytes. -/
structure Override where
  object : Nat
  param : UInt32
  bytes : List UInt8

/-- The overridden answer to a question. -/
def override? (overlay : List Override) (object : Nat) (param : UInt32) : Option (List UInt8) :=
  (overlay.find? fun o => o.object = object ∧ o.param = param).map (·.bytes)

/-- A catalog with some of its answers overridden. -/
def Catalog.withOverlay (c : Catalog) (overlay : List Override) : Catalog :=
  { c with
    platformInfo := fun id param r =>
      match override? overlay id.raw param with
      | some bytes => answer bytes r
      | none => c.platformInfo id param r
    deviceInfo := fun id param r =>
      match override? overlay id.raw param with
      | some bytes => answer bytes r
      | none => c.deviceInfo id param r }

end KernelForge.Device
