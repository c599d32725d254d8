import KernelForge.Launch.Error
import KernelForge.Launch.Scalar

/-!
# Memory shared with work-items and devices

Memory is a list of blocks of cells. A shared array names a block and the type in which its cells
are read, so two arrays may share their storage. The length of a block never changes.
-/

namespace KernelForge.Launch

/-- Blocks of cells of 64 bits. -/
structure Memory where
  blocks : List (List UInt64) := []

/-- An array of numbers in memory. -/
structure SharedArray where
  element : Element
  address : Nat
deriving DecidableEq

/-- An access past the end of an array. -/
structure IndexFault where
  length : Nat
  index : Nat
deriving DecidableEq

/-- The text of a failed access. -/
def IndexFault.message (f : IndexFault) : String :=
  "index out of bounds: the len is " ++ toString f.length ++ " but the index is " ++
    toString f.index

/-- Whether two arrays share their storage. -/
def SharedArray.sharesStorage (a b : SharedArray) : Bool :=
  a.address == b.address

namespace Memory

/-- A new block with given contents. -/
def allocate (mem : Memory) (element : Element) (values : List Scalar) : SharedArray × Memory :=
  (⟨element, mem.blocks.length⟩, ⟨mem.blocks ++ [values.map Scalar.toBits]⟩)

/-- A new block of zeros. -/
def allocateZeros (mem : Memory) (element : Element) (length : Nat) : SharedArray × Memory :=
  mem.allocate element (List.replicate length (element.ofBits 0))

/-- The cells of an array. -/
def cells (mem : Memory) (a : SharedArray) : List UInt64 :=
  mem.blocks.getD a.address []

/-- Replace the cells of an array. -/
def setCells (mem : Memory) (a : SharedArray) (cells : List UInt64) : Memory :=
  ⟨mem.blocks.set a.address cells⟩

/-- The length of an array. -/
def length (mem : Memory) (a : SharedArray) : Nat :=
  (mem.cells a).length

/-- The number at an index. -/
def get (mem : Memory) (a : SharedArray) (index : Nat) : Except IndexFault Scalar :=
  match (mem.cells a)[index]? with
  | some bits => .ok (a.element.ofBits bits)
  | none => .error ⟨mem.length a, index⟩

/-- Store a number at an index. -/
def set (mem : Memory) (a : SharedArray) (index : Nat) (value : Scalar) :
    Except IndexFault Memory :=
  if index < mem.length a then .ok (mem.setCells a ((mem.cells a).set index value.toBits))
  else .error ⟨mem.length a, index⟩

/-- All numbers of an array. -/
def toList (mem : Memory) (a : SharedArray) : List Scalar :=
  (mem.cells a).map a.element.ofBits

/-- An array as a device buffer holds it. -/
def toBytes (mem : Memory) (a : SharedArray) : List UInt8 :=
  (mem.toList a).flatMap Scalar.toBytes

/-- Overwrite every number of an array with the contents of a device buffer. -/
def copyFromBytes (mem : Memory) (a : SharedArray) (bytes : List UInt8) : Except Error Memory :=
  let length := mem.length a
  if bytes.length = length * a.element.width then
    .ok (mem.setCells a ((Bytes.words a.element.width length bytes).map UInt64.ofNat))
  else .error (.copySize bytes.length length a.element.name)

/-- An array as diagnostics show it. -/
def describe (mem : Memory) (a : SharedArray) : String :=
  "[" ++ ", ".intercalate ((mem.toList a).map Scalar.describe) ++ "]"

end Memory

/-- The value of a field: a number, or an array in memory. Arrays of vectors are bound as flat arrays
of their lanes. -/
inductive Binding
  | scalar (value : Scalar)
  | array (array : SharedArray)
deriving DecidableEq

namespace Binding

/-- The kernel-language name of the type of a binding. -/
def typeName : Binding → String
  | scalar value => value.element.name
  | array a => a.element.name ++ "[]"

def isArray : Binding → Bool
  | scalar _ => false
  | array _ => true

/-- The length of a bound array. -/
def length? (mem : Memory) : Binding → Option Nat
  | scalar _ => none
  | array a => some (mem.length a)

/-- A binding as a device sees it. -/
def toBytes (mem : Memory) : Binding → List UInt8
  | scalar value => value.toBytes
  | array a => mem.toBytes a

/-- A binding as diagnostics show it. -/
def describe (mem : Memory) : Binding → String
  | scalar value => value.element.title ++ "(" ++ value.describe ++ ")"
  | array a => a.element.title ++ "Array(" ++ mem.describe a ++ ")"

end Binding

end KernelForge.Launch
