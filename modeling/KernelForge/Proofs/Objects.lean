import Mathlib
import KernelForge.Device.Simulator.Launches
import KernelForge.Device.Simulator.Objects

/-!
# Objects of the simulated driver

`Simulator.objects` lists every object that was created and not released. Who works with a driver
keeps a list of the objects that there are (`Owns`): creating adds one that was not there, releasing
one of them succeeds and takes it off the list, and everything else leaves the list alone. A call
that fails changes nothing.
-/

namespace KernelForge.Device

/-- An object that is released some time. -/
inductive Object
  | context (id : ContextId)
  | queue (id : QueueId)
  | program (id : ProgramId)
  | kernel (id : KernelId)
  | buffer (id : MemId)
deriving DecidableEq

namespace Object

/-- The number of the handle of an object. Handles of different kinds have different numbers. -/
def raw : Object → Nat
  | context id => id.raw
  | queue id => id.raw
  | program id => id.raw
  | kernel id => id.raw
  | buffer id => id.raw

/-- What the record of releases says when an object is released. -/
def resource : Object → Resource
  | context _ => .context
  | queue _ => .queue
  | program _ => .program
  | kernel _ => .kernel
  | buffer _ => .mem

end Object

namespace Simulator

variable {n : Nat} {s s' : Simulator} {xs ys : List Object} {o : Object}

/-- Everything that has been created and not released. -/
def objects (s : Simulator) : List Object :=
  s.contexts.keys.map .context ++ s.queues.keys.map .queue ++ s.programs.keys.map .program ++
    s.kernels.keys.map .kernel ++ s.buffers.keys.map .buffer

theorem length_objects (s : Simulator) : s.objects.length = s.liveObjects := by
  simp only [objects, liveObjects, List.length_append, List.length_map, Table.length_keys]

/-- How often an object is listed, by its kind. -/
theorem count_objects (s : Simulator) (o : Object) :
    s.objects.count o = match o with
      | .context id => s.contexts.keys.count id
      | .queue id => s.queues.keys.count id
      | .program id => s.programs.keys.count id
      | .kernel id => s.kernels.keys.count id
      | .buffer id => s.buffers.keys.count id := by
  have hnone {α : Type} {f : α → Object} {l : List α} (h : ∀ a, f a ≠ o) :
      (l.map f).count o = 0 :=
    List.count_eq_zero.2 fun ho => by
      obtain ⟨a, -, ha⟩ := List.mem_map.1 ho
      exact h a ha
  have hsome {α : Type} [DecidableEq α] {f : α → Object} {l : List α} {a : α}
      (h : Function.Injective f) : (l.map f).count (f a) = l.count a :=
    List.count_map_of_injective l f h a
  have hcontext : Function.Injective Object.context := fun _ _ => Object.context.inj
  have hqueue : Function.Injective Object.queue := fun _ _ => Object.queue.inj
  have hprogram : Function.Injective Object.program := fun _ _ => Object.program.inj
  have hkernel : Function.Injective Object.kernel := fun _ _ => Object.kernel.inj
  have hbuffer : Function.Injective Object.buffer := fun _ _ => Object.buffer.inj
  cases o <;> simp [objects, hnone, hsome, hcontext, hqueue, hprogram, hkernel, hbuffer]

/-- Release an object. -/
def releaseObject (s : Simulator) : Object → Status × Simulator
  | .context id => s.releaseContext id
  | .queue id => s.releaseQueue id
  | .program id => s.releaseProgram id
  | .kernel id => s.releaseKernel id
  | .buffer id => s.releaseBuffer id

theorem release_of_present (s : Simulator) (missing : Status) (resource : Resource)
    (after : Simulator) :
    s.release true missing resource after =
      (.success, { after with released := s.released ++ [resource] }) :=
  rfl

/-- Releasing an object that is there succeeds and is recorded. -/
theorem releaseObject_of_mem (h : o ∈ s.objects) :
    (s.releaseObject o).1 = .success ∧ (s.releaseObject o).2.objects = s.objects.filter (· ≠ o) ∧
      (s.releaseObject o).2.released = s.released ++ [o.resource] ∧
      (s.releaseObject o).2.handles = s.handles := by
  cases o with
  | context id =>
    have hpresent : s.contexts.contains id = true :=
      Table.contains_iff.2 (by simpa [objects] using h)
    rw [releaseObject, releaseContext, hpresent, release_of_present]
    simp [objects, Table.keys_erase, List.filter_map, Function.comp_def, Object.resource]
  | queue id =>
    have hpresent : s.queues.contains id = true :=
      Table.contains_iff.2 (by simpa [objects] using h)
    rw [releaseObject, releaseQueue, hpresent, release_of_present]
    simp [objects, Table.keys_erase, List.filter_map, Function.comp_def, Object.resource]
  | program id =>
    have hpresent : s.programs.contains id = true :=
      Table.contains_iff.2 (by simpa [objects] using h)
    rw [releaseObject, releaseProgram, hpresent, release_of_present]
    simp [objects, Table.keys_erase, List.filter_map, Function.comp_def, Object.resource]
  | kernel id =>
    have hpresent : s.kernels.contains id = true :=
      Table.contains_iff.2 (by simpa [objects] using h)
    rw [releaseObject, releaseKernel, hpresent, release_of_present]
    simp [objects, Table.keys_erase, List.filter_map, Function.comp_def, Object.resource]
  | buffer id =>
    have hpresent : s.buffers.contains id = true :=
      Table.contains_iff.2 (by simpa [objects] using h)
    rw [releaseObject, releaseBuffer, hpresent, release_of_present]
    simp [objects, Table.keys_erase, List.filter_map, Function.comp_def, Object.resource]

theorem keys_writeBack (bound : List (Bound × LaunchArg)) (buffers : Table MemId (List UInt8)) :
    (bound.foldl writeBack buffers).keys = buffers.keys := by
  induction bound generalizing buffers with
  | nil => rfl
  | cons arg rest ih =>
    rw [List.foldl_cons, ih]
    unfold writeBack
    split <;> simp

/-! ### Owning objects -/

/-- The objects of a driver are exactly the given ones. No handle of theirs is given out again, and
of all handles but `n` the object is here or was released once. -/
structure Owns (n : Nat) (s : Simulator) (xs : List Object) : Prop where
  perm : s.objects.Perm xs
  nodup : xs.Nodup
  fresh : ∀ o ∈ xs, o.raw < s.nextHandle
  ledger : s.handles = n + s.released.length + xs.length

namespace Owns

theorem mem_objects (h : Owns n s xs) (ho : o ∈ xs) : o ∈ s.objects :=
  h.perm.mem_iff.2 ho

theorem of_perm (h : Owns n s xs) (hperm : xs.Perm ys) : Owns n s ys where
  perm := h.perm.trans hperm
  nodup := hperm.nodup h.nodup
  fresh o ho := h.fresh o (hperm.mem_iff.2 ho)
  ledger := hperm.length_eq ▸ h.ledger

/-- What neither creates nor releases anything leaves the owner alone. -/
theorem of_eq (h : Owns n s xs) (hobjects : s'.objects = s.objects)
    (hhandles : s'.handles = s.handles) (hreleased : s'.released = s.released) : Owns n s' xs where
  perm := hobjects ▸ h.perm
  nodup := h.nodup
  fresh o ho := by
    rw [nextHandle, hhandles]
    exact h.fresh o ho
  ledger := by
    rw [hhandles, hreleased]
    exact h.ledger

/-- An object with a new handle comes to the others. -/
theorem create (h : Owns n s xs) (hraw : o.raw = s.nextHandle)
    (hobjects : ∀ x, s'.objects.count x = if x = o then 1 else s.objects.count x)
    (hhandles : s'.handles = s.handles + 1) (hreleased : s'.released = s.released) :
    Owns n s' (o :: xs) := by
  have hnew : o ∉ xs := fun ho => Nat.lt_irrefl _ (hraw ▸ h.fresh o ho)
  refine ⟨List.perm_iff_count.2 fun x => ?_, List.nodup_cons.2 ⟨hnew, h.nodup⟩, ?_, ?_⟩
  · rw [hobjects, h.perm.count_eq, List.count_cons]
    by_cases hx : x = o
    · simp [hx, List.count_eq_zero.2 hnew]
    · simp [hx, Ne.symm hx]
  · intro x hx
    rw [nextHandle, hhandles]
    rw [List.mem_cons] at hx
    obtain rfl | hx := hx
    · rw [hraw, nextHandle]
      omega
    · have hlt := h.fresh x hx
      rw [nextHandle] at hlt
      omega
  · rw [hhandles, hreleased, h.ledger, List.length_cons]
    omega

/-- An owner can release its objects, and does not own them any more. -/
theorem release (h : Owns n s (o :: xs)) :
    (s.releaseObject o).1 = .success ∧ Owns n (s.releaseObject o).2 xs ∧
      (s.releaseObject o).2.released = s.released ++ [o.resource] := by
  obtain ⟨hstatus, hobjects, hreleased, hhandles⟩ :=
    releaseObject_of_mem (h.mem_objects List.mem_cons_self)
  obtain ⟨ho, hnodup⟩ := List.nodup_cons.1 h.nodup
  refine ⟨hstatus, ⟨?_, hnodup, ?_, ?_⟩, hreleased⟩
  · rw [hobjects]
    have hperm := h.perm.filter (· ≠ o)
    have hkeep : xs.filter (· ≠ o) = xs :=
      List.filter_eq_self.2 fun x hx => decide_eq_true fun heq => ho (heq ▸ hx)
    rwa [List.filter_cons_of_neg (by simp), hkeep] at hperm
  · intro x hx
    rw [nextHandle, hhandles]
    exact h.fresh x (List.mem_cons_of_mem o hx)
  · rw [hhandles, hreleased, h.ledger, List.length_append, List.length_cons, List.length_singleton]
    omega

end Owns

/-- Some objects are released one after the other, every time with success. -/
inductive Releases : Simulator → List Object → Simulator → Prop
  | nil (s : Simulator) : Releases s [] s
  | cons {s after s' : Simulator} {o : Object} {rest : List Object}
      (h : s.releaseObject o = (.success, after)) (hrest : Releases after rest s') :
      Releases s (o :: rest) s'

/-- An owner can release its objects in any order. -/
theorem Owns.releases (h : Owns n s (xs ++ ys)) :
    ∃ s', Releases s xs s' ∧ Owns n s' ys ∧ s'.released = s.released ++ xs.map Object.resource := by
  induction xs generalizing s with
  | nil => exact ⟨s, .nil s, h, (List.append_nil _).symm⟩
  | cons o rest ih =>
    obtain ⟨hstatus, howns, hreleased⟩ := h.release
    obtain ⟨s', hrest, howns', hreleased'⟩ := ih howns
    refine ⟨s', .cons (Prod.ext hstatus rfl) hrest, howns', ?_⟩
    rw [hreleased', hreleased, List.append_assoc]
    rfl

/-! ### Calls of the driver -/

theorem attempt_eq_ok {α : Type} {call : Call} {outcome : Except Status (α × Simulator)} {a : α}
    (h : s.attempt call outcome = (.ok a, s')) : outcome = .ok (a, s') := by
  rw [attempt] at h
  cases hfailure : s.failure? call with
  | some status =>
    rw [hfailure] at h
    cases h
  | none =>
    rw [hfailure] at h
    cases outcome with
    | ok result =>
      cases h
      rfl
    | error status => cases h

/-- A call that fails changes nothing. -/
theorem attempt_eq_error {α : Type} {call : Call} {outcome : Except Status (α × Simulator)}
    {status : Status} (h : s.attempt call outcome = (.error status, s')) : s' = s := by
  rw [attempt] at h
  cases hfailure : s.failure? call with
  | some status =>
    rw [hfailure] at h
    cases h
    rfl
  | none =>
    rw [hfailure] at h
    cases outcome with
    | ok result => cases h
    | error status =>
      cases h
      rfl

/-- What holds before a call, and after it succeeds, holds after it in any case. -/
theorem attempt_snd {α : Type} {call : Call} {outcome : Except Status (α × Simulator)}
    {P : Simulator → Prop} (hbefore : P s)
    (hafter : ∀ a after, outcome = .ok (a, after) → P after) : P (s.attempt call outcome).2 := by
  cases hattempt : s.attempt call outcome with
  | mk result after =>
    cases result with
    | error status => rwa [attempt_eq_error hattempt]
    | ok a => exact hafter a after (attempt_eq_ok hattempt)

/-- What holds before a launch, and after it is performed, holds after it in any case. -/
theorem enqueueKernel_snd {P : Simulator → Prop} {size : Nat} (hbefore : P s)
    (hafter : ∀ name bound args, P (s.perform name size bound args)) (queue : QueueId)
    (kernel : KernelId) : P (s.enqueueKernel queue kernel size).2 := by
  refine attempt_snd (P := P) hbefore fun _ after houtcome => ?_
  split_ifs at houtcome
  split at houtcome
  · cases houtcome
  split at houtcome
  · cases houtcome
  split at houtcome
  · cases houtcome
  cases houtcome
  exact hafter _ _ _

namespace Owns

theorem createContext {platform : PlatformId} {device : DeviceId} {id : ContextId}
    (h : Owns n s xs) (hid : s.createContext platform device = (.ok id, s')) :
    Owns n s' (.context id :: xs) := by
  have houtcome := attempt_eq_ok hid
  split_ifs at houtcome
  cases houtcome
  refine h.create rfl (fun x => ?_) rfl rfl
  cases x <;> simp [count_objects, advance, Table.count_keys_insert]

theorem createQueue {context : ContextId} {device : DeviceId} {id : QueueId}
    (h : Owns n s xs) (hid : s.createQueue context device = (.ok id, s')) :
    Owns n s' (.queue id :: xs) := by
  have houtcome := attempt_eq_ok hid
  split_ifs at houtcome
  cases houtcome
  refine h.create rfl (fun x => ?_) rfl rfl
  cases x <;> simp [count_objects, advance, Table.count_keys_insert]

theorem createProgram {context : ContextId} {source : String} {id : ProgramId}
    (h : Owns n s xs) (hid : s.createProgram context source = (.ok id, s')) :
    Owns n s' (.program id :: xs) := by
  have houtcome := attempt_eq_ok hid
  split_ifs at houtcome
  cases houtcome
  refine h.create rfl (fun x => ?_) rfl rfl
  cases x <;> simp [count_objects, advance, Table.count_keys_insert]

theorem createKernel {program : ProgramId} {name : String} {id : KernelId}
    (h : Owns n s xs) (hid : s.createKernel program name = (.ok id, s')) :
    Owns n s' (.kernel id :: xs) := by
  have houtcome := attempt_eq_ok hid
  split at houtcome
  · cases houtcome
  split_ifs at houtcome
  cases houtcome
  refine h.create rfl (fun x => ?_) rfl rfl
  cases x <;> simp [count_objects, advance, Table.count_keys_insert]

theorem createBuffer {context : ContextId} {contents : List UInt8} {id : MemId}
    (h : Owns n s xs) (hid : s.createBuffer context contents = (.ok id, s')) :
    Owns n s' (.buffer id :: xs) := by
  have houtcome := attempt_eq_ok hid
  split_ifs at houtcome
  cases houtcome
  refine h.create rfl (fun x => ?_) rfl rfl
  cases x <;> simp [count_objects, advance, Table.count_keys_insert]

/-- A call that only gives a status leaves the objects alone if its success does. -/
theorem attempt (h : Owns n s xs) {call : Call} {outcome : Except Status (Unit × Simulator)}
    (hsame : ∀ after, outcome = .ok ((), after) →
      after.objects = s.objects ∧ after.handles = s.handles ∧ after.released = s.released) :
    Owns n (s.attempt call outcome).2 xs := by
  refine attempt_snd (P := (Owns n · xs)) h fun _ after houtcome => ?_
  obtain ⟨hobjects, hhandles, hreleased⟩ := hsame after houtcome
  exact h.of_eq hobjects hhandles hreleased

theorem buildProgram (h : Owns n s xs) (program : ProgramId) :
    Owns n (s.buildProgram program).2 xs := by
  have hcounted : Owns n { s with builds := s.builds + 1 } xs := h.of_eq rfl rfl rfl
  refine hcounted.attempt fun after houtcome => ?_
  split_ifs at houtcome
  cases houtcome
  simp [objects]

theorem setKernelArg (h : Owns n s xs) (kernel : KernelId) (index : UInt32) (value : Bound) :
    Owns n (s.setKernelArg kernel index value).2 xs := by
  refine h.attempt fun after houtcome => ?_
  split_ifs at houtcome
  cases houtcome
  simp [objects]

/-- A launch changes what is in buffers, and nothing else. -/
theorem enqueueKernel (h : Owns n s xs) (queue : QueueId) (kernel : KernelId) (size : Nat) :
    Owns n (s.enqueueKernel queue kernel size).2 xs :=
  enqueueKernel_snd (P := (Owns n · xs)) h (fun name bound args =>
    h.of_eq (by simp [perform, objects, keys_writeBack]) rfl rfl) queue kernel

end Owns

/-! ### A driver that nobody has used -/

theorem objects_addDevices (devices : List DeviceModel) (s : Simulator) :
    (addDevices devices s).2.objects = s.objects ∧
      (addDevices devices s).2.released = s.released ∧
      (addDevices devices s).2.failures = s.failures := by
  induction devices generalizing s with
  | nil => exact ⟨rfl, rfl, rfl⟩
  | cons d rest ih => exact ih _

theorem objects_ofPlatforms (platforms : List PlatformModel) :
    (ofPlatforms platforms).objects = [] ∧ (ofPlatforms platforms).released = [] ∧
      (ofPlatforms platforms).failures = {} := by
  have hadd (s : Simulator) : (platforms.foldl addPlatform s).objects = s.objects ∧
      (platforms.foldl addPlatform s).released = s.released ∧
      (platforms.foldl addPlatform s).failures = s.failures := by
    induction platforms generalizing s with
    | nil => exact ⟨rfl, rfl, rfl⟩
    | cons p rest ih =>
      obtain ⟨hobjects, hreleased, hfailures⟩ := objects_addDevices p.devices s.advance
      obtain ⟨hobjects', hreleased', hfailures'⟩ := ih (s.addPlatform p)
      exact ⟨hobjects'.trans hobjects, hreleased'.trans hreleased, hfailures'.trans hfailures⟩
  exact hadd {}

theorem Owns.ofPlatforms (platforms : List PlatformModel) :
    Owns (ofPlatforms platforms).handles (ofPlatforms platforms) [] where
  perm := by rw [(objects_ofPlatforms platforms).1]
  nodup := List.nodup_nil
  fresh := by simp
  ledger := by simp [(objects_ofPlatforms platforms).2.1]

end Simulator

end KernelForge.Device
