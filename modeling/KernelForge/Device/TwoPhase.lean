import KernelForge.Device.Error

/-!
# Asking for data of unknown size

Data of unknown size is asked for twice: first without a buffer, to learn the size, then with a
buffer of exactly that size. `twoPhase` trusts nothing about the side that answers: the second
answer may report another size than the first, and it may fail although the first did not. But it
asks for a buffer of whatever size is reported, and a program that does not get it ends there
(`twoPhaseWithin`).
-/

namespace KernelForge.Device

universe u

variable {α ν : Type} {m : Type → Type u}

/-- A request for data. `capacity` is the length of the buffer offered, or nothing if only the size
is asked for; `size` is what the cell for the size holds before the call. -/
structure Request (ν : Type) where
  capacity : Option Nat
  size : ν

/-- The answer to a request: what the cell for the size holds afterwards, and what was written to
the front of the buffer. -/
structure Reply (ν α : Type) where
  status : Status
  size : ν
  written : List α

/-- A buffer after items were written to its front. Its length stays the same. -/
def overwrite (buffer written : List α) : List α :=
  written.take buffer.length ++ buffer.drop written.length

@[simp] theorem length_overwrite (buffer written : List α) :
    (overwrite buffer written).length = buffer.length := by
  simp only [overwrite, List.length_append, List.length_take, List.length_drop]
  omega

theorem overwrite_eq {buffer written : List α} (h : written.length = buffer.length) :
    overwrite buffer written = written := by
  rw [overwrite, ← h, List.take_length, h, List.drop_length, List.append_nil]

/-- Ask for the size, then for the data with a buffer of that size, and cut the buffer to the size
reported with the data. -/
def twoPhase [Monad m] (call : String) (allocate : Nat → m (List α))
    (fetch : Request Nat → m (Reply Nat α)) : m (Except Error (List α)) := do
  let asked ← fetch ⟨none, 0⟩
  if asked.status ≠ .success then
    return .error (.callFailed call asked.status)
  else
    let buffer ← allocate asked.size
    if asked.size = 0 then
      return .ok buffer
    else
      let filled ← fetch ⟨some buffer.length, asked.size⟩
      if filled.status ≠ .success then
        return .error (.callFailed call filled.status)
      else
        return .ok ((overwrite buffer filled.written).take filled.size)

/-! ### Buffers -/

/-- A buffer of blank items, where memory is no concern. -/
def blanks [Monad m] (blank : α) (n : Nat) : m (List α) :=
  return List.replicate n blank

/-- How a program ends that does not get the memory it asks for. -/
inductive Halt
  /-- No allocation has that many bytes, and the program panics. -/
  | capacityOverflow
  /-- There are not that many bytes left, and the program is aborted. -/
  | outOfMemory
deriving DecidableEq, Repr

/-- The most bytes that an allocation can have: distances in it are signed numbers of 64 bits. -/
def maxAllocation : Nat := 0x7fffffffffffffff

/-- A buffer of blank items of `width` bytes each, when `memory` bytes are left. -/
def allocate (memory width : Nat) (blank : α) (n : Nat) : Except Halt (List α) :=
  if maxAllocation < n * width then .error .capacityOverflow
  else if memory < n * width then .error .outOfMemory
  else .ok (List.replicate n blank)

/-- `twoPhase` in a program with so much memory left. Calls made before the program ends stay
made. -/
def twoPhaseWithin [Monad m] (memory width : Nat) (call : String) (blank : α)
    (fetch : Request Nat → m (Reply Nat α)) : ExceptT Halt m (Except Error (List α)) :=
  twoPhase call (fun n => .mk (pure (allocate memory width blank n))) fun r => .lift (fetch r)

/-! ### Counting in 32 bits -/

/-- A size in the 32 bits in which objects are counted; a greater one counts as the greatest. -/
def countOf (n : Nat) : UInt32 :=
  UInt32.ofNat (min n 0xFFFFFFFF)

theorem toNat_countOf {n : Nat} (h : n < UInt32.size) : (countOf n).toNat = n := by
  have hmin : min n 0xFFFFFFFF = n := Nat.min_eq_left (Nat.le_of_lt_succ h)
  rw [countOf, hmin, UInt32.toNat_ofNat_of_lt' h]

/-- Turn a call that counts in 32 bits into one that counts in natural numbers. -/
def counted [Monad m] (fetch : Request UInt32 → m (Reply UInt32 α)) (request : Request Nat) :
    m (Reply Nat α) := do
  let reply ← fetch ⟨request.capacity, countOf request.size⟩
  return ⟨reply.status, reply.size.toNat, reply.written⟩

/-! ### Answering -/

/-- Turn a request down and leave the cell for the size alone. -/
def Request.refuse (r : Request ν) (status : Status) : Reply ν α :=
  ⟨status, r.size, []⟩

/-- Answer with a value: its size always, the value itself if the buffer is long enough. -/
def answer (value : List α) (r : Request Nat) : Reply Nat α :=
  match r.capacity with
  | none => ⟨.success, value.length, []⟩
  | some capacity =>
    if capacity < value.length then ⟨.invalidValue, value.length, []⟩
    else ⟨.success, value.length, value⟩

/-- Answer with a list of objects, counted in 32 bits. -/
def answerCounted (value : List α) (r : Request UInt32) : Reply UInt32 α :=
  let reply := answer value ⟨r.capacity, r.size.toNat⟩
  ⟨reply.status, countOf reply.size, reply.written⟩

end KernelForge.Device
