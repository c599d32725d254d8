import KernelForge.Binary.Arithmetic
import KernelForge.Launch.DeviceContext
import KernelForge.Launch.Host

/-!
# Kernels to try things out with

A workload is a kernel whose host side is known: it does nothing, it computes
`ys[i] = alpha * xs[i] + ys[i]`, or it records which work-items ran and fails where it is told to.
-/

namespace KernelForge.Launch

/-- Where a recording kernel deviates from just recording. -/
structure Script where
  /-- Work-items that panic before they are recorded, with the text that the panic carries. -/
  panics : List (Nat × Option String) := []
  /-- Work-items that fail after they were recorded. -/
  faults : List (Nat × String) := []
  /-- A work-item that closes a context after it was recorded. -/
  closes : Option (Nat × Nat) := none

/-- What a work-item does on the host. -/
inductive Activity
  | idle
  | saxpy
  | record (script : Script)

/-- A kernel whose host side is known. -/
structure Workload where
  activity : Activity
  cls : Option KernelClass
  bindings : List Binding
  /-- How often each work-item was recorded. -/
  hits : SharedArray
  /-- The size of the launch in which each work-item was recorded last. -/
  sizes : SharedArray

namespace Workload

/-- A new workload that can record work-items below `length`. -/
def create (mem : Memory) (activity : Activity) (cls : Option KernelClass)
    (bindings : List Binding) (length : Nat) : Workload × Memory :=
  let (hits, mem) := mem.allocateZeros .int length
  let (sizes, mem) := mem.allocateZeros .long length
  ({ activity, cls, bindings, hits, sizes }, mem)

/-- The workload as a device context sees it. -/
def kernel (w : Workload) (key : Nat) : Kernel :=
  ⟨key, w.cls, w.bindings⟩

/-- The outcome of an access past the end of an array. -/
def outOfBounds (f : IndexFault) : Outcome :=
  .panic (some f.message)

/-- The bits of a floating-point number. -/
def floatBits : Scalar → Nat
  | .float bits => bits.toNat
  | other => other.toBits.toNat

/-- Compute `ys[i] = alpha * xs[i] + ys[i]` for one work-item. -/
def saxpyItem (alpha : UInt32) (xs ys : SharedArray) (i : Nat) (mem : Memory) :
    Except IndexFault Memory := do
  let x ← mem.get xs i
  let y ← mem.get ys i
  let sum := Binary.scaleAdd Binary.single alpha.toNat (floatBits x) (floatBits y)
  mem.set ys i (.float (UInt32.ofNat sum))

/-- Run one work-item of a kernel that is bound to a number and two arrays. -/
def runSaxpy (bindings : List Binding) (i : Nat) (mem : Memory) : Outcome × Memory :=
  match bindings with
  | [.scalar (.float alpha), .array ⟨.float, xs⟩, .array ⟨.float, ys⟩] =>
    match saxpyItem alpha ⟨.float, xs⟩ ⟨.float, ys⟩ i mem with
    | .ok mem => (.done, mem)
    | .error f => (outOfBounds f, mem)
  | _ => (.fault "not a saxpy kernel", mem)

/-- Count one more hit. -/
def increment : Scalar → Scalar
  | .int value => .int (value + 1)
  | other => other

/-- Record a work-item: first that it ran, then in a launch of which size. -/
def recordItem (w : Workload) (item : WorkItem) (mem : Memory) : Except IndexFault Unit × Memory :=
  match mem.get w.hits item.id with
  | .error f => (.error f, mem)
  | .ok hits =>
    match mem.set w.hits item.id (increment hits) with
    | .error f => (.error f, mem)
    | .ok mem =>
      match mem.set w.sizes item.id (.long (Int64.ofNat item.size)) with
      | .error f => (.error f, mem)
      | .ok mem => (.ok (), mem)

/-- The outcome of a work-item that has been recorded. -/
def Script.outcome (s : Script) (id : Nat) : Outcome :=
  match s.faults.lookup id with
  | some message => .fault message
  | none => .done

end Workload

end KernelForge.Launch
