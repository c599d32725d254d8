import KernelForge.Device.Call
import KernelForge.Launch.Selection

/-!
# Platforms

A platform is where contexts come from: the threads of the host, or a device that was chosen. Where
no device can be had the host takes its place.
-/

namespace KernelForge.Launch

open Device (Catalog DeviceProfile PlatformProfile)

/-- Where contexts come from. -/
inductive Platform
  /-- The host: how many threads the machine runs at once, how work-items are run, and the number of
  threads of a pool. -/
  | host (hardware : Nat) (strategy : Strategy) (threads : Nat)
  | accelerator (selection : Selection)

/-- The host as a device. -/
def hostDevice (hardware : Nat) : DeviceProfile where
  id := ⟨0⟩
  name := "System CPU"
  computeUnits := Device.countOf hardware
  dimensions := 1
  itemSizes := [0xFFFFFFFFFFFFFFFF]
  groupSize := 1
  clock := 0
  alignment := 8

namespace Platform

/-- The profile of the platform itself. -/
def profile : Platform → PlatformProfile
  | host _ _ _ => ⟨⟨0⟩, "Host"⟩
  | accelerator selection => selection.platform

/-- The device that contexts of the platform run on. -/
def device : Platform → DeviceProfile
  | host hardware _ _ => hostDevice hardware
  | accelerator selection => selection.device

/-- How a host platform runs work-items. -/
def strategy? : Platform → Option Strategy
  | host _ strategy _ => some strategy
  | accelerator _ => none

/-- The host as options want it, on a machine that runs `hardware` threads at once. -/
def ofHost (hardware : Nat) (options : Options) : Platform :=
  host hardware options.strategy (options.threads.getD hardware)

/-- The device that options choose. -/
def discover (catalog : Catalog) (options : Options) : Except Error Platform :=
  accelerator <$> selectDevice catalog options

/-- The device that options choose once the driver library that they name is loaded. `catalog` is
what the driver in it offers. -/
def load (opened? : String → Option (String → Bool)) (catalog : Catalog) (options : Options) :
    Except Error Platform :=
  match Device.loadLibrary opened? options.library with
  | .ok _ => discover catalog options
  | .error e => .error (.ofDevice e)

/-- A platform if it can be had, else the host. -/
def orHost (hardware : Nat) (options : Options) (found : Except Error Platform) : Platform :=
  match found with
  | .ok platform => platform
  | .error _ => ofHost hardware options

/-- Options as the source of platforms, as diagnostics show them. -/
def describeFactory (options : Options) : String :=
  "PlatformFactory \x7b options: " ++ options.describe ++ " \x7d"

end Platform

end KernelForge.Launch
