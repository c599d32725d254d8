import KernelForge.Device.Property

/-!
# Devices to simulate

A description of platforms and devices, and the bytes with which a simulated device answers the
question for one of its properties.
-/

namespace KernelForge.Device

/-- A device as it is to report itself. -/
structure DeviceModel where
  name : String
  computeUnits : UInt32 := 1
  dimensions : UInt32 := 3
  itemSizes : List UInt64 := [1024, 1024, 64]
  groupSize : UInt64 := 1024
  clock : UInt32 := 1000
  alignBits : UInt32 := 1024

/-- A platform and its devices. -/
structure PlatformModel where
  name : String
  devices : List DeviceModel := []

/-- A text as bytes, closed by a zero byte. -/
def terminated (text : String) : List UInt8 :=
  Utf8.encode text ++ [0]

/-- The bytes of the property asked for by `param`, if the device has it. -/
def DeviceModel.report? (d : DeviceModel) (param : UInt32) : Option (List UInt8) :=
  if param = Property.deviceName.param then some (terminated d.name)
  else if param = Property.computeUnits.param then some (Bytes.ofNat 4 d.computeUnits.toNat)
  else if param = Property.dimensions.param then some (Bytes.ofNat 4 d.dimensions.toNat)
  else if param = Property.itemSizes.param then
    some (d.itemSizes.flatMap fun size => Bytes.ofNat 8 size.toNat)
  else if param = Property.groupSize.param then some (Bytes.ofNat 8 d.groupSize.toNat)
  else if param = Property.clock.param then some (Bytes.ofNat 4 d.clock.toNat)
  else if param = Property.alignBits.param then some (Bytes.ofNat 4 d.alignBits.toNat)
  else none

end KernelForge.Device
