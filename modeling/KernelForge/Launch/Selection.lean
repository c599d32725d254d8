import KernelForge.Launch.Options

/-!
# Choosing a device

The first platform that is accepted is used, whatever devices other platforms have. Of its devices
the greatest is used, and of several greatest ones the first.
-/

namespace KernelForge.Launch

open Device (Catalog DeviceProfile PlatformProfile)

/-- A platform and the device of it that is used. -/
structure Selection where
  platform : PlatformProfile
  device : DeviceProfile
deriving DecidableEq

/-- The greatest item, and of several greatest ones the first. -/
def best? {α : Type} (rank : α → α → Ordering) : List α → Option α
  | [] => none
  | first :: rest =>
    some (rest.foldl (fun best item => if rank item best = .gt then item else best) first)

/-- Choose a platform and one of its devices. -/
def selectDevice (catalog : Catalog) (options : Options) : Except Error Selection := do
  let all ← catalog.platforms.mapError .ofDevice
  match all.find? options.accepts with
  | none => throw (.noPlatform all.length)
  | some platform =>
    let devices ← (catalog.devices platform.id).mapError .ofDevice
    match best? options.rank devices with
    | none => throw (.noDevice platform.name)
    | some device => return ⟨platform, device⟩

end KernelForge.Launch
