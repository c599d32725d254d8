import KernelForge.Bytes.LittleEndian
import KernelForge.Device.Error
import KernelForge.Text.Utf8

/-!
# Properties of devices

A property is asked for by a number and answered with bytes. A number has a fixed width, a text ends
at its first zero byte, and a list of numbers fills its bytes completely.
-/

namespace KernelForge.Device

/-- The number by which the name of a platform is asked for. -/
def platformNameParam : UInt32 := 0x0902

/-- The number by which the log of a build is asked for. -/
def buildLogParam : UInt32 := 0x1183

/-- A property of a device: the number by which it is asked for, its name in error messages, and how
its bytes are read. -/
structure Property (α : Type) where
  param : UInt32
  name : String
  decode : List UInt8 → Except Error α

namespace Property

/-- Read a number of exactly `width` bytes. -/
def decodeNumber (name : String) (width : Nat) (bytes : List UInt8) : Except Error Nat :=
  if bytes.length = width then .ok (Bytes.toNat bytes)
  else .error (.malformedInfo name width bytes.length)

/-- A property that is one number of 32 bits. -/
def number32 (param : UInt32) (name : String) : Property UInt32 :=
  ⟨param, name, fun bytes => UInt32.ofNat <$> decodeNumber name 4 bytes⟩

/-- Read numbers of 64 bits that fill the bytes completely. -/
def decodeSizes (name : String) (bytes : List UInt8) : Except Error (List UInt64) :=
  if bytes.length % 8 = 0 then .ok ((Bytes.allWords 8 bytes).map UInt64.ofNat)
  else .error (.malformedInfo name (bytes.length - bytes.length % 8) bytes.length)

def deviceName : Property String :=
  ⟨0x102B, "CL_DEVICE_NAME", fun bytes => .ok (Utf8.decodeTerminated bytes)⟩

def computeUnits : Property UInt32 :=
  number32 0x1002 "CL_DEVICE_MAX_COMPUTE_UNITS"

/-- The number of dimensions that a launch may have. -/
def dimensions : Property UInt32 :=
  number32 0x1003 "CL_DEVICE_MAX_WORK_ITEM_DIMENSIONS"

def groupSize : Property UInt64 :=
  let name := "CL_DEVICE_MAX_WORK_GROUP_SIZE"
  ⟨0x1004, name, fun bytes => UInt64.ofNat <$> decodeNumber name 8 bytes⟩

/-- The greatest number of work-items for each dimension. -/
def itemSizes : Property (List UInt64) :=
  ⟨0x1005, "CL_DEVICE_MAX_WORK_ITEM_SIZES", decodeSizes "CL_DEVICE_MAX_WORK_ITEM_SIZES"⟩

/-- The clock frequency in megahertz. -/
def clock : Property UInt32 :=
  number32 0x100C "CL_DEVICE_MAX_CLOCK_FREQUENCY"

/-- The alignment of buffers in bits. -/
def alignBits : Property UInt32 :=
  number32 0x1019 "CL_DEVICE_MEM_BASE_ADDR_ALIGN"

end Property

end KernelForge.Device
