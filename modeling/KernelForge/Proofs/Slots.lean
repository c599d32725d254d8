import Mathlib
import KernelForge.Proofs.Bookkeeping

/-!
# Arguments kept in slots

A driver can keep the bytes of arguments in slots that are never reused, and bind an argument to the
number of a slot. A value then gets its slot before it is known whether there is a kernel to bind it
to, so a call that fails can leave a slot behind. It makes no difference: `Slots.Agrees` says that
through the slots every argument of every kernel is the same, and every command keeps it so.
-/

namespace KernelForge.Device

/-- What an argument is bound to when the bytes of values are in slots. -/
inductive SlotBound
  | slot (number : Nat)
  | buffer (id : MemId)

/-- The value that is meant. -/
def SlotBound.value? (values : List (List UInt8)) : SlotBound → Option Bound
  | slot number => values[number]?.map .bytes
  | buffer id => some (.buffer id)

/-- The arguments of all kernels, and the values that have a slot. -/
structure Slots where
  kernels : Table KernelId (Table UInt32 SlotBound) := {}
  values : List (List UInt8) := []

namespace Slots

variable {d : Slots} {s : Simulator} {c : Command}

/-- Bind an argument of a kernel, if there is one. -/
def bind (d : Slots) (kernel : KernelId) (index : UInt32) (b : SlotBound) : Slots :=
  { d with kernels := d.kernels.modify kernel (·.insert index b) }

/-- Give a value the next slot. -/
def push (d : Slots) (value : List UInt8) : Slots :=
  { d with values := d.values ++ [value] }

/-- What a command that is given to a driver does to the slots. -/
def step (d : Slots) (s : Simulator) : Command → Slots
  | .setKernelArg kernel index (.bytes value) =>
    if (s.failure? .setKernelArg).isSome then d
    else (d.push value).bind kernel index (.slot d.values.length)
  | .setKernelArg kernel index (.buffer id) =>
    if (s.failure? .setKernelArg).isSome || !s.buffers.contains id then d
    else d.bind kernel index (.buffer id)
  | .createKernel program name =>
    match (s.createKernel program name).1 with
    | .ok id => { d with kernels := d.kernels.insert id {} }
    | .error _ => d
  | .release (.kernel id) => { d with kernels := d.kernels.erase id }
  | _ => d

/-- The slots after some commands. -/
def after (d : Slots) (s : Simulator) : List Command → Slots
  | [] => d
  | c :: cs => (d.step s c).after (c.run s).driver cs

/-- What is bound to an argument of a kernel. -/
def binding? (d : Slots) (kernel : KernelId) (index : UInt32) : Option Bound :=
  ((d.kernels.get? kernel).bind (·.get? index)).bind (SlotBound.value? d.values)

/-! ### Agreeing with a driver -/

/-- Through the slots the arguments of a kernel are what the driver knows them to be. -/
def Reads (values : List (List UInt8)) (args : Table UInt32 SlotBound) (k : KernelObject) : Prop :=
  ∀ index, Option.Rel (fun b value => b.value? values = some value) (args.get? index)
    (k.args.get? index)

/-- There are slots for the same kernels as in the driver, and for the same arguments. -/
def Agrees (d : Slots) (s : Simulator) : Prop :=
  ∀ kernel, Option.Rel (Reads d.values) (d.kernels.get? kernel) (s.kernels.get? kernel)

section Rel

variable {α β γ δ : Type} {R : α → β → Prop} {S : γ → δ → Prop} {x : Option α} {y : Option β}

theorem rel_map {f : α → γ} {g : β → δ} (h : Option.Rel R x y)
    (hRS : ∀ a b, R a b → S (f a) (g b)) : Option.Rel S (x.map f) (y.map g) := by
  cases h with
  | some hab => exact .some (hRS _ _ hab)
  | none => exact .none

theorem rel_imp {R' : α → β → Prop} (h : Option.Rel R x y) (hR : ∀ a b, R a b → R' a b) :
    Option.Rel R' x y := by
  simpa using rel_map (f := id) (g := id) h hR

theorem rel_bind {f : α → Option β} (h : Option.Rel (fun a b => f a = some b) x y) :
    x.bind f = y := by
  cases h with
  | some hb => exact hb
  | none => rfl

end Rel

theorem Reads.insert {values : List (List UInt8)} {args : Table UInt32 SlotBound} {k : KernelObject}
    (h : Reads values args k) {b : SlotBound} {value : Bound} (hb : b.value? values = some value)
    (index : UInt32) :
    Reads values (args.insert index b) { k with args := k.args.insert index value } := by
  intro i
  rw [Table.get?_insert, Table.get?_insert]
  split_ifs
  · exact .some hb
  · exact h i

theorem value?_concat {values : List (List UInt8)} {b : SlotBound} {value : Bound}
    (h : b.value? values = some value) (new : List UInt8) :
    b.value? (values ++ [new]) = some value := by
  cases b with
  | buffer id => exact h
  | slot number =>
    obtain ⟨bytes, hbytes, rfl⟩ := Option.map_eq_some_iff.1 h
    rw [SlotBound.value?, List.getElem?_append_left (List.getElem?_eq_some_iff.1 hbytes).1, hbytes]
    rfl

/-- A new slot changes no value in another one. -/
theorem Reads.concat {values : List (List UInt8)} {args : Table UInt32 SlotBound} {k : KernelObject}
    (h : Reads values args k) (new : List UInt8) : Reads (values ++ [new]) args k := by
  intro index
  exact rel_imp (h index) fun _ _ hb => value?_concat hb new

namespace Agrees

theorem of_kernels {s' : Simulator} (h : d.Agrees s)
    (hkernels : ∀ kernel, s'.kernels.get? kernel = s.kernels.get? kernel) : d.Agrees s' :=
  fun kernel => hkernels kernel ▸ h kernel

theorem push (h : d.Agrees s) (value : List UInt8) : (d.push value).Agrees s := by
  intro kernel
  exact rel_imp (h kernel) fun _ _ hk => hk.concat value

/-- Binding an argument of a kernel that is not there changes nothing on either side. -/
theorem bind (h : d.Agrees s) {b : SlotBound} {value : Bound} (hb : b.value? d.values = some value)
    (kernel : KernelId) (index : UInt32) :
    (d.bind kernel index b).Agrees { s with kernels := s.kernels.modify kernel fun k =>
      { k with args := k.args.insert index value } } := by
  intro kernel'
  change Option.Rel _ ((d.kernels.modify kernel _).get? kernel')
    ((s.kernels.modify kernel _).get? kernel')
  rw [Table.get?_modify, Table.get?_modify]
  split_ifs
  · exact rel_map (h kernel') fun _ _ hk => hk.insert hb index
  · exact h kernel'

/-! ### Commands -/

theorem not_mem_keys_of_contains {s : Simulator} {kernel : KernelId}
    (h : s.kernels.contains kernel = false) : kernel ∉ s.kernels.keys := fun hmem => by
  rw [Table.contains_iff.2 hmem] at h
  cases h

/-- An argument is bound if there is the kernel, and else nothing happens on either side. -/
theorem conclude (h : d.Agrees s) {b : SlotBound} {value : Bound}
    (hb : b.value? d.values = some value) (kernel : KernelId) (index : UInt32) :
    (d.bind kernel index b).Agrees (s.conclude
      (if s.kernels.contains kernel then
        .ok ((), { s with kernels := s.kernels.modify kernel fun k =>
          { k with args := k.args.insert index value } })
      else .error .invalidKernel)).2 := by
  have hbound := h.bind hb kernel index
  cases hkernel : s.kernels.contains kernel with
  | true => exact hbound
  | false =>
    have habsent := not_mem_keys_of_contains hkernel
    exact hbound.of_kernels fun kernel' => (Table.get?_modify_of_not_mem habsent _ _).symm

/-- The value has its slot, whether there is the kernel or not. -/
theorem setKernelArg_bytes (h : d.Agrees s) (kernel : KernelId) (index : UInt32)
    (value : List UInt8) : (d.step s (.setKernelArg kernel index (.bytes value))).Agrees
      (s.setKernelArg kernel index (.bytes value)).2 := by
  rw [step, Simulator.setKernelArg, Simulator.attempt]
  cases s.failure? .setKernelArg with
  | some status => exact h
  | none =>
    have hslot : (SlotBound.slot d.values.length).value? (d.push value).values =
        some (.bytes value) := by
      simp [SlotBound.value?, Slots.push]
    exact (h.push value).conclude hslot kernel index

theorem setKernelArg_buffer (h : d.Agrees s) (kernel : KernelId) (index : UInt32) (id : MemId) :
    (d.step s (.setKernelArg kernel index (.buffer id))).Agrees
      (s.setKernelArg kernel index (.buffer id)).2 := by
  rw [step, Simulator.setKernelArg, Simulator.attempt]
  cases s.failure? .setKernelArg with
  | some status => exact h
  | none =>
    by_cases hbuffer : s.buffers.contains id = true
    · simp only [hbuffer]
      exact h.conclude rfl kernel index
    · simp only [hbuffer]
      exact h

theorem createKernel (h : d.Agrees s) (program : ProgramId) (name : String) :
    (d.step s (.createKernel program name)).Agrees (s.createKernel program name).2 := by
  rw [step]
  cases hcreate : s.createKernel program name with
  | mk result after =>
    cases result with
    | error status =>
      obtain rfl := Simulator.attempt_eq_error hcreate
      exact h
    | ok id =>
      have houtcome := Simulator.attempt_eq_ok hcreate
      split at houtcome
      · cases houtcome
      split_ifs at houtcome
      cases houtcome
      intro kernel
      change Option.Rel _ ((d.kernels.insert _ _).get? kernel) ((s.kernels.insert _ _).get? kernel)
      rw [Table.get?_insert, Table.get?_insert]
      split_ifs
      · exact .some fun index => .none
      · exact h kernel

theorem releaseKernel (h : d.Agrees s) (id : KernelId) :
    (d.step s (.release (.kernel id))).Agrees (s.releaseKernel id).2 := by
  have hkernels (kernel : KernelId) :
      (s.releaseKernel id).2.kernels.get? kernel = (s.kernels.erase id).get? kernel := by
    rw [Simulator.releaseKernel, Simulator.release]
    split_ifs with hkernel
    · rfl
    · rw [Table.erase_of_not_mem (not_mem_keys_of_contains (Bool.not_eq_true _ ▸ hkernel))]
  intro kernel
  rw [hkernels]
  change Option.Rel _ ((d.kernels.erase id).get? kernel) _
  rw [Table.get?_erase, Table.get?_erase]
  split_ifs
  · exact .none
  · exact h kernel

theorem driver_ofCreated {kind : ObjectKind} {object : Handle kind → Object}
    (result : Except Status (Handle kind) × Simulator) :
    (Outcome.ofCreated object result).driver = result.2 := by
  obtain ⟨_ | _, _⟩ := result <;> rfl

/-- Every command keeps the slots in agreement with the driver. -/
theorem step (h : d.Agrees s) (c : Command) : (d.step s c).Agrees (c.run s).driver := by
  -- Only four commands have to do with arguments; all others leave all kernels alone.
  have hquiet {s' : Simulator} (hs' : Simulator.Quiet (fun o => ∃ id, o = .kernel id) s s') :
      d.Agrees s' := h.of_kernels fun kernel => hs'.kernels kernel ⟨kernel, rfl⟩
  cases c with
  | createContext platform device =>
    rw [Command.run, driver_ofCreated]
    exact hquiet (.createContext _ s platform device)
  | createQueue context device =>
    rw [Command.run, driver_ofCreated]
    exact hquiet (.createQueue _ s context device)
  | createProgram context source =>
    rw [Command.run, driver_ofCreated]
    exact hquiet (.createProgram _ s context source)
  | buildProgram program => exact hquiet (.buildProgram _ s program)
  | createKernel program name =>
    rw [Command.run, driver_ofCreated]
    exact h.createKernel program name
  | setKernelArg kernel index value =>
    cases value with
    | bytes value => exact h.setKernelArg_bytes kernel index value
    | buffer id => exact h.setKernelArg_buffer kernel index id
  | createBuffer context contents =>
    rw [Command.run, driver_ofCreated]
    refine Simulator.attempt_snd (P := d.Agrees) h fun _ after houtcome => ?_
    split_ifs at houtcome
    cases houtcome
    exact h
  | enqueueKernel queue kernel size =>
    exact Simulator.enqueueKernel_snd (P := d.Agrees) h (fun _ _ _ => h) queue kernel
  | startLaunch queue kernel size =>
    rw [Command.run]
    cases s.startLaunch queue kernel size <;> exact h
  | release o =>
    cases o with
    | kernel id => exact h.releaseKernel id
    | context id => exact hquiet (.releaseObject (o := .context id) (by simp))
    | queue id => exact hquiet (.releaseObject (o := .queue id) (by simp))
    | program id => exact hquiet (.releaseObject (o := .program id) (by simp))
    | buffer id => exact hquiet (.releaseObject (o := .buffer id) (by simp))
  | _ => exact h

/-- They agree after any commands. -/
theorem after {t : Logged} (h : d.Agrees t.driver) (cs : List Command) :
    (d.after t.driver cs).Agrees (t.run cs).driver := by
  induction cs generalizing d t with
  | nil => exact h
  | cons c cs ih => exact ih (t := t.step c) (h.step c)

/-- What is bound is found through the slots. -/
theorem binding?_eq (h : d.Agrees s) {kernel : KernelId} {k : KernelObject}
    (hk : s.kernels.get? kernel = some k) (index : UInt32) :
    d.binding? kernel index = k.args.get? index := by
  have hkernel := h kernel
  rw [hk] at hkernel
  rw [binding?]
  generalize d.kernels.get? kernel = args at hkernel
  cases hkernel with
  | some hreads => exact rel_bind (hreads index)

end Agrees

end Slots

namespace Logged

/-- Whatever commands are given to a driver, its books are in order. A value that lies in a slot is
still the one that was bound last, also if failed calls have left slots behind. -/
theorem books_of_commands (platforms : List PlatformModel) (cs : List Command)
    (hcs : ∀ c ∈ cs, c.Injects) :
    let t := (start platforms).run cs
    t.Books ∧ ∀ kernel, .kernel kernel ∈ t.driver.objects → ∀ index,
      (Slots.after {} (.ofPlatforms platforms) cs).binding? kernel index =
        t.binding? kernel index := by
  intro t
  have hsound : t.Sound := (sound_start platforms).run hcs
  have hstart : Slots.Agrees {} (start platforms).driver := by
    intro kernel
    rw [get?_kernels_start]
    exact .none
  refine ⟨hsound.books, fun kernel hkernel index => ?_⟩
  obtain ⟨k, hk⟩ := Option.isSome_iff_exists.1 (Simulator.mem_objects.1 hkernel)
  exact ((hstart.after cs).binding?_eq hk index).trans (hsound.args kernel k hk index)

/-- A launch with a buffer that is released while the device runs, and a second launch. Before them
a value is bound to an argument of a kernel that is not there. -/
def releasedWhileRunning : List Command :=
  [.createContext ⟨0x1001⟩ ⟨0x1002⟩, .createQueue ⟨0x1003⟩ ⟨0x1002⟩,
    .createProgram ⟨0x1003⟩ "__kernel void f()", .buildProgram ⟨0x1005⟩,
    .createKernel ⟨0x1005⟩ "f", .createBuffer ⟨0x1003⟩ [1, 2],
    .setKernelArg ⟨0x1005⟩ 1 (.bytes [5]), .setKernelArg ⟨0x1006⟩ 1 (.bytes [6]),
    .setKernelArg ⟨0x1006⟩ 0 (.buffer ⟨0x1007⟩), .startLaunch ⟨0x1004⟩ ⟨0x1006⟩ 8,
    .release (.buffer ⟨0x1007⟩),
    .finishLaunch ⟨"f", 8, [.buffer ⟨0x1007⟩, .bytes [6]], [.buffer [1, 2], .bytes [6]]⟩
      [.buffer [3, 4], .bytes [6]],
    .enqueueKernel ⟨0x1004⟩ ⟨0x1006⟩ 8, .fail "clFinish" ⟨-5⟩, .finish ⟨0x1004⟩]

theorem books_of_commands_releasedWhileRunning :
    (∀ c ∈ releasedWhileRunning, c.Injects) ∧
      let t := (start [⟨"platform", [{ name := "device" }]⟩]).run releasedWhileRunning
      t.created.length = 5 ∧ t.released = [.buffer ⟨0x1007⟩] ∧ t.driver.liveObjects = 4 ∧
        (Command.run t.driver (.release (.buffer ⟨0x1007⟩))).status ≠ .success ∧
        (Command.run t.driver (.enqueueKernel ⟨0x1004⟩ ⟨0x1006⟩ 8)).status ≠ .success ∧
        (Slots.after {} (.ofPlatforms [⟨"platform", [{ name := "device" }]⟩])
          releasedWhileRunning).binding? ⟨0x1006⟩ 1 = some (.bytes [6]) := by
  have hfail : (⟨-5⟩ : Status) ≠ .success := by decide
  have hcs : ∀ c ∈ releasedWhileRunning, c.Injects := by
    simpa [releasedWhileRunning, Command.Injects] using hfail
  refine ⟨hcs, ?_⟩
  intro t
  obtain ⟨hbooks, hslots⟩ :=
    books_of_commands [⟨"platform", [{ name := "device" }]⟩] releasedWhileRunning hcs
  have hcreated : t.created.length = 5 := by decide
  have hreleased : t.released = [.buffer ⟨0x1007⟩] := by decide
  have hgone : .buffer ⟨0x1007⟩ ∈ t.released := hreleased ▸ List.mem_cons_self
  have hrecord : t.driver.released.length = 1 := by
    rw [hbooks.record, hreleased]
    rfl
  have hbalance : 5 = t.driver.liveObjects + 1 := by
    rw [← hcreated, ← hrecord]
    exact hbooks.balance
  exact ⟨hcreated, hreleased, (Nat.succ.inj hbalance).symm,
    fun hstatus => ((hbooks.release_iff _).1 hstatus).2 hgone,
    (hbooks.unbound ⟨0x1004⟩ ⟨0x1006⟩ 8 0 ⟨0x1007⟩ rfl hgone).1,
    (hslots ⟨0x1006⟩ (by decide) 1).trans rfl⟩

end Logged

end KernelForge.Device
