import Mathlib
import KernelForge.Proofs.FailedRuns

/-!
# What one call of a driver does

A `Command` is a call of the simulated driver, or something that is done to it. A launch is also
split into its two halves here, since other calls may come between them: it reads the arguments
(`Simulator.startLaunch`), and what the device has left is written back later
(`Simulator.finishLaunch`). Whatever the command, one of a few things happens (`Effect`): a command
that is refused has no effect but for the count of builds, and one that succeeds was given objects
that are there.
-/

namespace KernelForge.Device

/-! ### The halves of a launch -/

/-- A launch that has read its arguments and has not written anything back. -/
structure StartedLaunch where
  kernel : String
  size : Nat
  bound : List Bound
  args : List LaunchArg

namespace Simulator

/-- Read the arguments of a launch. -/
def startLaunch (s : Simulator) (queue : QueueId) (kernel : KernelId) (size : Nat) :
    Except Status StartedLaunch :=
  match s.failure? .enqueueKernel with
  | some status => .error status
  | none =>
    if !s.queues.contains queue then .error .invalidQueue
    else match s.kernels.get? kernel with
      | none => .error .invalidKernel
      | some k =>
        match arguments? k with
        | none => .error .invalidKernelArgs
        | some bound =>
          match bound.mapM s.launchArg? with
          | none => .error .invalidMemObject
          | some args => .ok ⟨k.name, size, bound, args⟩

/-- Write back what the device has left of the arguments of a launch. -/
def finishLaunch (s : Simulator) (l : StartedLaunch) (after : List LaunchArg) : Simulator :=
  { s with
    buffers := (l.bound.zip after).foldl writeBack s.buffers
    launches := s.launches ++ [⟨l.kernel, l.size, l.args⟩] }

variable {s s' : Simulator} {o : Object} {queue : QueueId} {kernel : KernelId} {size : Nat}

/-- A launch is its two halves, with the hook between them. -/
theorem enqueueKernel_eq (s : Simulator) (queue : QueueId) (kernel : KernelId) (size : Nat) :
    s.enqueueKernel queue kernel size =
      match s.startLaunch queue kernel size with
      | .ok l => (.success, s.finishLaunch l (s.runHook l.kernel l.size l.args))
      | .error status => (status, s) := by
  rw [enqueueKernel, startLaunch, attempt]
  cases s.failure? .enqueueKernel with
  | some status => rfl
  | none =>
    cases s.queues.contains queue with
    | false => rfl
    | true =>
      cases s.kernels.get? kernel with
      | none => rfl
      | some k =>
        cases hbound : arguments? k with
        | none => simp only [hbound]; rfl
        | some bound =>
          cases hargs : bound.mapM s.launchArg? with
          | none => simp only [hbound, hargs]; rfl
          | some args => simp only [hbound, hargs]; rfl

/-! ### Objects that are there -/

theorem mem_objects : o ∈ s.objects ↔ match o with
    | .context id => s.contexts.contains id = true
    | .queue id => s.queues.contains id = true
    | .program id => s.programs.contains id = true
    | .kernel id => s.kernels.contains id = true
    | .buffer id => s.buffers.contains id = true := by
  cases o <;> simp [objects, Table.contains_iff]

/-- What is not there cannot be released. -/
theorem releaseObject_of_not_mem (h : o ∉ s.objects) :
    ∃ status, status ≠ .success ∧ s.releaseObject o = (status, s) := by
  rw [mem_objects] at h
  cases o with
  | context id => exact ⟨.invalidContext, by decide, if_neg h⟩
  | queue id => exact ⟨.invalidQueue, by decide, if_neg h⟩
  | program id => exact ⟨.invalidProgram, by decide, if_neg h⟩
  | kernel id => exact ⟨.invalidKernel, by decide, if_neg h⟩
  | buffer id => exact ⟨.invalidMemObject, by decide, if_neg h⟩

theorem release_platforms {present : Bool} {missing : Status} {resource : Resource}
    {after : Simulator} (h : after.platforms = s.platforms) :
    (s.release present missing resource after).2.platforms = s.platforms := by
  rw [release]
  split_ifs
  · exact h
  · rfl

theorem releaseObject_platforms (s : Simulator) (o : Object) :
    (s.releaseObject o).2.platforms = s.platforms := by
  cases o <;> exact release_platforms rfl

/-- A kernel that is there after a release was there before. -/
theorem get?_kernels_of_releaseObject {k : KernelObject}
    (h : (s.releaseObject o).2.kernels.get? kernel = some k) : s.kernels.get? kernel = some k := by
  by_cases ho : o = .kernel kernel
  · subst ho
    rw [releaseObject, releaseKernel, release] at h
    split_ifs at h
    · rw [Table.get?_erase, if_pos rfl] at h
      cases h
    · exact h
  · have hquiet : Quiet (· = .kernel kernel) s (s.releaseObject o).2 := .releaseObject ho
    rwa [hquiet.kernels kernel rfl] at h

/-! ### Arguments that are bound -/

/-- A launch that gets all its arguments gets every one that is bound. -/
theorem mem_of_arguments? {k : KernelObject} {bound : List Bound} {index : UInt32} {value : Bound}
    (hkeys : k.args.keys.Nodup) (h : arguments? k = some bound)
    (hvalue : k.args.get? index = some value) : value ∈ bound := by
  have hfound : ∀ i < k.args.size, ∃ v ∈ bound, k.args.get? (UInt32.ofNat i) = some v := by
    intro i hi
    obtain ⟨hlength, hall⟩ := List.forall₂_iff_get.1 (forall₂_of_mapM h)
    have hfirst : i < (List.range k.args.size).length := by rwa [List.length_range]
    have hget := hall i hfirst (hlength ▸ hfirst)
    rw [List.get_eq_getElem, List.getElem_range] at hget
    exact ⟨_, List.get_mem _ _, hget⟩
  have hsize : k.args.size ≤ UInt32.size := by
    have hnodup : (k.args.keys.map UInt32.toNat).Nodup :=
      hkeys.map fun _ _ => UInt32.toNat_inj.1
    have hsub : k.args.keys.map UInt32.toNat ⊆ List.range UInt32.size := by
      intro n hn
      obtain ⟨i, -, rfl⟩ := List.mem_map.1 hn
      exact List.mem_range.2 i.toNat_lt
    have hle := (hnodup.subperm hsub).length_le
    rwa [List.length_map, Table.length_keys, List.length_range] at hle
  -- As many indices as there are keys are bound, so they are all the keys.
  have hperm : ((List.range k.args.size).map UInt32.ofNat).Perm k.args.keys := by
    have hnodup : ((List.range k.args.size).map UInt32.ofNat).Nodup := by
      refine List.Nodup.map_on (fun i hi j hj hij => ?_) List.nodup_range
      have htoNat := congrArg UInt32.toNat hij
      rwa [UInt32.toNat_ofNat_of_lt' ((List.mem_range.1 hi).trans_le hsize),
        UInt32.toNat_ofNat_of_lt' ((List.mem_range.1 hj).trans_le hsize)] at htoNat
    refine (hnodup.subperm fun i hi => ?_).perm_of_length_le (by simp [Table.length_keys])
    obtain ⟨n, hn, rfl⟩ := List.mem_map.1 hi
    obtain ⟨v, -, hv⟩ := hfound n (List.mem_range.1 hn)
    exact Table.contains_iff.1 (Table.contains_of_get? hv)
  have hindex : index ∈ k.args.keys := Table.contains_iff.1 (Table.contains_of_get? hvalue)
  obtain ⟨i, hi, rfl⟩ := List.mem_map.1 (hperm.mem_iff.2 hindex)
  obtain ⟨v, hv, hget⟩ := hfound i (List.mem_range.1 hi)
  rwa [Option.some.inj (hvalue.symm.trans hget)]

/-- What a launch needs to start. -/
theorem startLaunch_eq_ok {l : StartedLaunch} (h : s.startLaunch queue kernel size = .ok l) :
    s.failure? .enqueueKernel = none ∧ s.queues.contains queue = true ∧
      ∃ k, s.kernels.get? kernel = some k ∧ arguments? k = some l.bound ∧
        l.bound.mapM s.launchArg? = some l.args := by
  rw [startLaunch] at h
  split at h
  · cases h
  rename_i hfailure
  split_ifs at h with hqueue
  split at h
  · cases h
  rename_i k hk
  split at h
  · cases h
  rename_i bound hbound
  split at h
  · cases h
  rename_i args hargs
  cases h
  rw [Bool.not_eq_true, Bool.not_eq_false'] at hqueue
  exact ⟨hfailure, hqueue, k, hk, hbound, hargs⟩

theorem Strict.ne_of_failure? (h : s.Strict) {call : Call} {status : Status}
    (hfailure : s.failure? call = some status) : status ≠ .success := by
  rintro rfl
  exact h.failure?_ne call hfailure

/-- No status with which a launch is refused is a success. -/
theorem startLaunch_eq_error (h : s.Strict) {status : Status}
    (herror : s.startLaunch queue kernel size = .error status) : status ≠ .success := by
  rw [startLaunch] at herror
  split at herror
  · rename_i hfailure
    cases herror
    exact h.ne_of_failure? hfailure
  split_ifs at herror
  · cases herror
    decide
  split at herror
  · cases herror
    decide
  split at herror
  · cases herror
    decide
  split at herror
  · cases herror
    decide
  · cases herror

/-- A launch that starts finds every buffer that is bound to its kernel. -/
theorem mem_objects_of_startLaunch {l : StartedLaunch} {k : KernelObject} {index : UInt32}
    {id : MemId} (h : s.startLaunch queue kernel size = .ok l)
    (hk : s.kernels.get? kernel = some k) (hkeys : k.args.keys.Nodup)
    (hbuffer : k.args.get? index = some (.buffer id)) : .buffer id ∈ s.objects := by
  obtain ⟨-, -, k', hk', hbound, hargs⟩ := startLaunch_eq_ok h
  obtain rfl := Option.some.inj (hk.symm.trans hk')
  obtain ⟨i, hi⟩ := List.mem_iff_get.1 (mem_of_arguments? hkeys hbound hbuffer)
  obtain ⟨hlength, hall⟩ := List.forall₂_iff_get.1 (forall₂_of_mapM hargs)
  have harg := hall i.1 i.2 (hlength ▸ i.2)
  rw [hi, launchArg?, Option.map_eq_some_iff] at harg
  obtain ⟨contents, hcontents, -⟩ := harg
  exact mem_objects.2 (Table.contains_of_get? hcontents)

end Simulator

/-! ### Commands -/

/-- Something to do with a simulated driver. -/
inductive Command
  | platformIds (r : Request UInt32)
  | platformInfo (id : PlatformId) (param : UInt32) (r : Request Nat)
  | deviceIds (id : PlatformId) (r : Request UInt32)
  | deviceInfo (id : DeviceId) (param : UInt32) (r : Request Nat)
  | createContext (platform : PlatformId) (device : DeviceId)
  | createQueue (context : ContextId) (device : DeviceId)
  | createProgram (context : ContextId) (source : String)
  | buildProgram (program : ProgramId)
  | buildInfo (program : ProgramId) (param : UInt32) (r : Request Nat)
  | createKernel (program : ProgramId) (name : String)
  | setKernelArg (kernel : KernelId) (index : UInt32) (value : Bound)
  | createBuffer (context : ContextId) (contents : List UInt8)
  | enqueueKernel (queue : QueueId) (kernel : KernelId) (size : Nat)
  | startLaunch (queue : QueueId) (kernel : KernelId) (size : Nat)
  | finishLaunch (l : StartedLaunch) (after : List LaunchArg)
  | finish (queue : QueueId)
  | readBuffer (queue : QueueId) (id : MemId) (size : Nat)
  | release (o : Object)
  | fail (call : String) (status : Status)
  | failBuild (log : String)
  | onLaunch (hook : Hook)

/-- What comes of a command: its status, the object that it has created, if any, and the driver
afterwards. What was read or reported is left out. -/
structure Outcome where
  status : Status
  created : Option Object
  driver : Simulator

namespace Outcome

/-- The outcome of a call that gives an object. -/
def ofCreated {kind : ObjectKind} (object : Handle kind → Object) :
    Except Status (Handle kind) × Simulator → Outcome
  | (.ok id, s) => ⟨.success, some (object id), s⟩
  | (.error status, s) => ⟨status, none, s⟩

/-- The outcome of a call that gives nothing but a status. -/
def ofStatus : Status × Simulator → Outcome
  | (status, s) => ⟨status, none, s⟩

end Outcome

namespace Command

/-- Do what a command says. -/
def run (s : Simulator) : Command → Outcome
  | platformIds r => ⟨(s.platformIds r).status, none, s⟩
  | platformInfo id param r => ⟨(s.platformInfo id param r).status, none, s⟩
  | deviceIds id r => ⟨(s.deviceIds id r).status, none, s⟩
  | deviceInfo id param r => ⟨(s.deviceInfo id param r).status, none, s⟩
  | createContext platform device => .ofCreated .context (s.createContext platform device)
  | createQueue context device => .ofCreated .queue (s.createQueue context device)
  | createProgram context source => .ofCreated .program (s.createProgram context source)
  | buildProgram program => .ofStatus (s.buildProgram program)
  | buildInfo program param r => ⟨(s.buildInfo program param r).status, none, s⟩
  | createKernel program name => .ofCreated .kernel (s.createKernel program name)
  | setKernelArg kernel index value => .ofStatus (s.setKernelArg kernel index value)
  | createBuffer context contents => .ofCreated .buffer (s.createBuffer context contents)
  | enqueueKernel queue kernel size => .ofStatus (s.enqueueKernel queue kernel size)
  | startLaunch queue kernel size =>
    match s.startLaunch queue kernel size with
    | .ok _ => ⟨.success, none, s⟩
    | .error status => ⟨status, none, s⟩
  | finishLaunch l after => ⟨.success, none, s.finishLaunch l after⟩
  | finish queue => ⟨s.finish queue, none, s⟩
  | readBuffer queue id size => ⟨(s.readBuffer queue id size).1, none, s⟩
  | release o => .ofStatus (s.releaseObject o)
  | fail call status => ⟨.success, none, s.fail call status⟩
  | failBuild log => ⟨.success, none, s.failBuild log⟩
  | onLaunch hook => ⟨.success, none, { s with hook := some hook }⟩

/-- The objects that a command is given handles of. -/
def uses : Command → List Object
  | createQueue context _ => [.context context]
  | createProgram context _ => [.context context]
  | buildProgram program => [.program program]
  | buildInfo program _ _ => [.program program]
  | createKernel program _ => [.program program]
  | setKernelArg kernel _ (.bytes _) => [.kernel kernel]
  | setKernelArg kernel _ (.buffer id) => [.kernel kernel, .buffer id]
  | createBuffer context _ => [.context context]
  | enqueueKernel queue kernel _ => [.queue queue, .kernel kernel]
  | startLaunch queue kernel _ => [.queue queue, .kernel kernel]
  | finish queue => [.queue queue]
  | readBuffer queue id _ => [.queue queue, .buffer id]
  | release o => [o]
  | _ => []

/-- The failures that a command injects are no successes. -/
def Injects : Command → Prop
  | fail _ status => status ≠ .success
  | _ => True

/-- How many builds a command asks for. -/
def attempts : Command → Nat
  | buildProgram _ => 1
  | _ => 0

/-- The object that a command is to release. -/
def releases? : Command → Option Object
  | release o => some o
  | _ => none

/-- What a command is to bind to an argument of a kernel. -/
def binds? (kernel : KernelId) (index : UInt32) : Command → Option Bound
  | setKernelArg kernel' index' value =>
    if kernel' = kernel ∧ index' = index then some value else none
  | _ => none

/-! ### Effects -/

variable {s s' : Simulator} {c : Command} {o : Object}

/-- What is the same after every command that releases nothing. -/
structure Keeps (s s' : Simulator) : Prop where
  released : s'.released = s.released
  platforms : s'.platforms = s.platforms
  strict : s'.Strict

/-- What a command can do. Every command that succeeds was given objects that are there. -/
inductive Effect (s : Simulator) : Command → Outcome → Prop
  | refused {c : Command} {status : Status} (hstatus : status ≠ .success) :
      Effect s c ⟨status, none, { s with builds := s.builds + c.attempts }⟩
  | created {c : Command} {o : Object} {s' : Simulator} (huses : ∀ x ∈ c.uses, x ∈ s.objects)
      (hreleases : c.releases? = none) (hbinds : ∀ kernel index, c.binds? kernel index = none)
      (hraw : o.raw = s.nextHandle) (hhandles : s'.handles = s.handles + 1)
      (hobjects : ∀ x, s'.objects.count x = if x = o then 1 else s.objects.count x)
      (hkernels : ∀ kernel k, s'.kernels.get? kernel = some k →
        s.kernels.get? kernel = some k ∨ o = .kernel kernel ∧ k.args = {})
      (hkeeps : Keeps s s') :
      Effect s c ⟨.success, some o, s'⟩
  | released {o : Object} (ho : o ∈ s.objects) :
      Effect s (.release o) ⟨.success, none, (s.releaseObject o).2⟩
  | bound {kernel : KernelId} {index : UInt32} {value : Bound}
      (huses : ∀ x ∈ (setKernelArg kernel index value).uses, x ∈ s.objects) :
      Effect s (.setKernelArg kernel index value) ⟨.success, none,
        { s with kernels := s.kernels.modify kernel fun k =>
          { k with args := k.args.insert index value } }⟩
  | other {c : Command} {s' : Simulator} (huses : ∀ x ∈ c.uses, x ∈ s.objects)
      (hreleases : c.releases? = none) (hbinds : ∀ kernel index, c.binds? kernel index = none)
      (hhandles : s'.handles = s.handles) (hobjects : s'.objects = s.objects)
      (hkernels : s'.kernels = s.kernels) (hkeeps : Keeps s s') :
      Effect s c ⟨.success, none, s'⟩

theorem Keeps.refl (h : s.Strict) : Keeps s s :=
  ⟨rfl, rfl, h⟩

/-- How an attempt ends: it is refused, or something is true of what it gives. -/
inductive Ends {α : Type} (P : α → Simulator → Prop) : Except Status (α × Simulator) → Prop
  | refused {status : Status} (hstatus : status ≠ .success) : Ends P (.error status)
  | done {a : α} {s' : Simulator} (h : P a s') : Ends P (.ok (a, s'))

namespace Effect

theorem of_ne (hattempts : c.attempts = 0) {status : Status} (hstatus : status ≠ .success) :
    Effect s c ⟨status, none, s⟩ := by
  have hrefused : Effect s c _ := .refused hstatus
  rwa [hattempts] at hrefused

/-- A call that only looks at the driver. -/
theorem of_look (h : s.Strict) (hattempts : c.attempts = 0) (hreleases : c.releases? = none)
    (hbinds : ∀ kernel index, c.binds? kernel index = none) {status : Status}
    (huses : status = .success → ∀ x ∈ c.uses, x ∈ s.objects) :
    Effect s c ⟨status, none, s⟩ := by
  by_cases hstatus : status = .success
  · subst hstatus
    exact .other (huses rfl) hreleases hbinds rfl rfl rfl (.refl h)
  · exact of_ne hattempts hstatus

/-- A call that is attempted, by the outcome of the attempt. -/
theorem of_attempt {α : Type} (answer : Except Status α × Simulator → Outcome) {call : Call}
    {outcome : Except Status (α × Simulator)} (h : s.Strict) (hattempts : c.attempts = 0)
    (hrefused : ∀ status, answer (.error status, s) = ⟨status, none, s⟩)
    (houtcome : Ends (fun a s' => Effect s c (answer (.ok a, s'))) outcome) :
    Effect s c (answer (s.attempt call outcome)) := by
  rw [Simulator.attempt]
  cases hfailure : s.failure? call with
  | some status => exact hrefused status ▸ of_ne hattempts (h.ne_of_failure? hfailure)
  | none =>
    cases houtcome with
    | refused hstatus => exact hrefused _ ▸ of_ne hattempts hstatus
    | done heffect => exact heffect

/-- A call that creates an object. -/
theorem of_created {kind : ObjectKind} {object : Handle kind → Object} {call : Call}
    {outcome : Except Status (Handle kind × Simulator)} (h : s.Strict) (hattempts : c.attempts = 0)
    (houtcome : Ends (fun id s' => Effect s c ⟨.success, some (object id), s'⟩) outcome) :
    Effect s c (.ofCreated object (s.attempt call outcome)) :=
  of_attempt (.ofCreated object) h hattempts (fun _ => rfl) houtcome

/-- A call that gives a status. -/
theorem of_status {call : Call} {outcome : Except Status (Unit × Simulator)} (h : s.Strict)
    (hattempts : c.attempts = 0)
    (houtcome : Ends (fun _ s' => Effect s c ⟨.success, none, s'⟩) outcome) :
    Effect s c (.ofStatus (Simulator.statusOf (s.attempt call outcome).1,
      (s.attempt call outcome).2)) :=
  of_attempt (fun r => .ofStatus (Simulator.statusOf r.1, r.2)) h hattempts (fun _ => rfl) houtcome

end Effect

open Simulator

theorem effect_createContext (h : s.Strict) (platform : PlatformId) (device : DeviceId) :
    Effect s (createContext platform device) (run s (createContext platform device)) := by
  refine .of_created h rfl ?_
  split_ifs with howns
  · refine .done (.created (by simp [uses]) rfl (fun _ _ => rfl) rfl rfl (fun x => ?_)
      (fun _ _ hk => .inl hk) ⟨rfl, rfl, h⟩)
    cases x <;> simp [count_objects, advance, Table.count_keys_insert]
  · exact .refused (by decide)

theorem effect_createQueue (h : s.Strict) (context : ContextId) (device : DeviceId) :
    Effect s (createQueue context device) (run s (createQueue context device)) := by
  refine .of_created h rfl ?_
  split_ifs with hcontext hdevice
  · exact .refused (by decide)
  · exact .refused (by decide)
  · refine .done (.created (by simpa [uses, mem_objects] using hcontext) rfl (fun _ _ => rfl) rfl
      rfl (fun x => ?_) (fun _ _ hk => .inl hk) ⟨rfl, rfl, h⟩)
    cases x <;> simp [count_objects, advance, Table.count_keys_insert]

theorem effect_createProgram (h : s.Strict) (context : ContextId) (source : String) :
    Effect s (createProgram context source) (run s (createProgram context source)) := by
  refine .of_created h rfl ?_
  split_ifs with hcontext
  · refine .done (.created (by simpa [uses, mem_objects] using hcontext) rfl (fun _ _ => rfl) rfl
      rfl (fun x => ?_) (fun _ _ hk => .inl hk) ⟨rfl, rfl, h⟩)
    cases x <;> simp [count_objects, advance, Table.count_keys_insert]
  · exact .refused (by decide)

theorem effect_createKernel (h : s.Strict) (program : ProgramId) (name : String) :
    Effect s (createKernel program name) (run s (createKernel program name)) := by
  refine .of_created h rfl ?_
  cases hprogram : s.programs.get? program with
  | none => exact .refused (by decide)
  | some p =>
    simp only
    split_ifs
    · exact .refused (by decide)
    · exact .refused (by decide)
    · refine .done (.created (by simp [uses, mem_objects, Table.contains_of_get? hprogram]) rfl
        (fun _ _ => rfl) rfl rfl (fun x => ?_) (fun kernel k hk => ?_) ⟨rfl, rfl, h⟩)
      · cases x <;> simp [count_objects, advance, Table.count_keys_insert]
      · rw [Table.get?_insert] at hk
        split_ifs at hk with hkernel
        · cases hk
          exact .inr ⟨congrArg Object.kernel hkernel.symm, rfl⟩
        · exact .inl hk

theorem effect_createBuffer (h : s.Strict) (context : ContextId) (contents : List UInt8) :
    Effect s (createBuffer context contents) (run s (createBuffer context contents)) := by
  refine .of_created h rfl ?_
  split_ifs with hcontext
  · refine .done (.created (by simpa [uses, mem_objects] using hcontext) rfl (fun _ _ => rfl) rfl
      rfl (fun x => ?_) (fun _ _ hk => .inl hk) ⟨rfl, rfl, h⟩)
    cases x <;> simp [count_objects, advance, Table.count_keys_insert]
  · exact .refused (by decide)

/-- Also a build that is refused is counted. -/
theorem effect_buildProgram (h : s.Strict) (program : ProgramId) :
    Effect s (buildProgram program) (run s (buildProgram program)) := by
  rw [run, Simulator.buildProgram, attempt]
  cases hfailure : failure? { s with builds := s.builds + 1 } .buildProgram with
  | some status => exact .refused (h.ne_of_failure? hfailure)
  | none =>
    cases hprogram : s.programs.contains program with
    | false => exact .refused (by decide)
    | true =>
      refine .other (by simpa [uses, mem_objects] using hprogram) rfl (fun _ _ => rfl) rfl ?_ rfl
        ⟨rfl, rfl, h⟩
      simp [objects]

theorem effect_setKernelArg (h : s.Strict) (kernel : KernelId) (index : UInt32) (value : Bound) :
    Effect s (setKernelArg kernel index value) (run s (setKernelArg kernel index value)) := by
  refine .of_status h rfl ?_
  cases value with
  | bytes value =>
    cases hkernel : s.kernels.contains kernel with
    | false => exact .refused (by decide)
    | true => exact .done (.bound (by simpa [uses, mem_objects] using hkernel))
  | buffer id =>
    cases hbuffer : s.buffers.contains id with
    | false =>
      simp only [hbuffer]
      exact .refused (by decide)
    | true =>
      cases hkernel : s.kernels.contains kernel with
      | false =>
        simp only [hbuffer]
        exact .refused (by decide)
      | true =>
        simp only [hbuffer]
        exact .done (.bound (by simp [uses, mem_objects, hkernel, hbuffer]))

theorem mem_objects_of_started {queue : QueueId} {kernel : KernelId} {size : Nat}
    {l : StartedLaunch} (hl : s.startLaunch queue kernel size = .ok l) :
    ∀ x ∈ [Object.queue queue, .kernel kernel], x ∈ s.objects := by
  obtain ⟨-, hqueue, k, hk, -⟩ := startLaunch_eq_ok hl
  simp [mem_objects, hqueue, Table.contains_of_get? hk]

theorem Keeps.finishLaunch (h : s.Strict) (l : StartedLaunch) (after : List LaunchArg) :
    Keeps s (s.finishLaunch l after) :=
  ⟨rfl, rfl, h⟩

theorem objects_finishLaunch (s : Simulator) (l : StartedLaunch) (after : List LaunchArg) :
    (s.finishLaunch l after).objects = s.objects := by
  simp [Simulator.finishLaunch, objects, keys_writeBack]

theorem effect_startLaunch (h : s.Strict) (queue : QueueId) (kernel : KernelId) (size : Nat) :
    Effect s (startLaunch queue kernel size) (run s (startLaunch queue kernel size)) := by
  rw [run]
  cases hl : s.startLaunch queue kernel size with
  | error status => exact .of_ne rfl (startLaunch_eq_error h hl)
  | ok l =>
    exact .other (mem_objects_of_started hl) rfl (fun _ _ => rfl) rfl rfl rfl (.refl h)

theorem effect_enqueueKernel (h : s.Strict) (queue : QueueId) (kernel : KernelId) (size : Nat) :
    Effect s (enqueueKernel queue kernel size) (run s (enqueueKernel queue kernel size)) := by
  rw [run, enqueueKernel_eq]
  cases hl : s.startLaunch queue kernel size with
  | error status => exact .of_ne rfl (startLaunch_eq_error h hl)
  | ok l =>
    exact .other (mem_objects_of_started hl) rfl (fun _ _ => rfl) rfl (objects_finishLaunch ..) rfl
      (.finishLaunch h ..)

theorem effect_finish (h : s.Strict) (queue : QueueId) :
    Effect s (finish queue) (run s (finish queue)) := by
  refine .of_look h rfl rfl (fun _ _ => rfl) fun hstatus => ?_
  rw [Simulator.finish] at hstatus
  cases hfailure : s.failure? .finish with
  | some status =>
    rw [hfailure] at hstatus
    exact absurd hstatus (h.ne_of_failure? hfailure)
  | none =>
    rw [hfailure] at hstatus
    simp only at hstatus
    split_ifs at hstatus with hqueue
    · simpa [uses, mem_objects] using hqueue
    · cases hstatus

theorem effect_readBuffer (h : s.Strict) (queue : QueueId) (id : MemId) (size : Nat) :
    Effect s (readBuffer queue id size) (run s (readBuffer queue id size)) := by
  refine .of_look h rfl rfl (fun _ _ => rfl) fun hstatus => ?_
  rw [Simulator.readBuffer] at hstatus
  cases hfailure : s.failure? .readBuffer with
  | some status =>
    rw [hfailure] at hstatus
    exact absurd hstatus (h.ne_of_failure? hfailure)
  | none =>
    simp only [hfailure] at hstatus
    split_ifs at hstatus with hqueue
    · cases hstatus
    · cases hbuffer : s.buffers.get? id with
      | none =>
        rw [hbuffer] at hstatus
        cases hstatus
      | some contents =>
        rw [Bool.not_eq_true, Bool.not_eq_false'] at hqueue
        simp [uses, mem_objects, hqueue, Table.contains_of_get? hbuffer]

theorem effect_buildInfo (h : s.Strict) (program : ProgramId) (param : UInt32) (r : Request Nat) :
    Effect s (buildInfo program param r) (run s (buildInfo program param r)) := by
  refine .of_look h rfl rfl (fun _ _ => rfl) fun hstatus => ?_
  rw [Simulator.buildInfo, reply] at hstatus
  cases hfailure : s.failure? .getBuildInfo with
  | some status =>
    rw [hfailure] at hstatus
    exact absurd hstatus (h.ne_of_failure? hfailure)
  | none =>
    cases hprogram : s.programs.contains program with
    | true => simpa [uses, mem_objects] using hprogram
    | false =>
      rw [hfailure, hprogram] at hstatus
      cases hstatus

theorem effect_release (o : Object) : Effect s (release o) (run s (release o)) := by
  rw [run]
  by_cases ho : o ∈ s.objects
  · obtain ⟨hstatus, -⟩ := releaseObject_of_mem ho
    rw [Outcome.ofStatus, hstatus]
    exact .released ho
  · obtain ⟨status, hstatus, hsame⟩ := releaseObject_of_not_mem ho
    rw [hsame]
    exact .of_ne rfl hstatus

/-- A command has one of the effects. -/
theorem effect_run (h : s.Strict) (hc : c.Injects) : Effect s c (run s c) := by
  cases c with
  | platformIds r => exact .of_look h rfl rfl (fun _ _ => rfl) (by simp [uses])
  | platformInfo id param r => exact .of_look h rfl rfl (fun _ _ => rfl) (by simp [uses])
  | deviceIds id r => exact .of_look h rfl rfl (fun _ _ => rfl) (by simp [uses])
  | deviceInfo id param r => exact .of_look h rfl rfl (fun _ _ => rfl) (by simp [uses])
  | createContext platform device => exact effect_createContext h platform device
  | createQueue context device => exact effect_createQueue h context device
  | createProgram context source => exact effect_createProgram h context source
  | buildProgram program => exact effect_buildProgram h program
  | buildInfo program param r => exact effect_buildInfo h program param r
  | createKernel program name => exact effect_createKernel h program name
  | setKernelArg kernel index value => exact effect_setKernelArg h kernel index value
  | createBuffer context contents => exact effect_createBuffer h context contents
  | enqueueKernel queue kernel size => exact effect_enqueueKernel h queue kernel size
  | startLaunch queue kernel size => exact effect_startLaunch h queue kernel size
  | finishLaunch l after =>
    exact .other (by simp [uses]) rfl (fun _ _ => rfl) rfl (objects_finishLaunch ..) rfl
      (.finishLaunch h ..)
  | finish queue => exact effect_finish h queue
  | readBuffer queue id size => exact effect_readBuffer h queue id size
  | release o => exact effect_release o
  | fail call status =>
    exact .other (by simp [uses]) rfl (fun _ _ => rfl) rfl rfl rfl ⟨rfl, rfl, h.fail hc⟩
  | failBuild log =>
    have hbuild : (s.fail Call.buildProgram.name .buildFailure).Strict := h.fail (by decide)
    exact .other (by simp [uses]) rfl (fun _ _ => rfl) rfl rfl rfl ⟨rfl, rfl, hbuild⟩
  | onLaunch hook => exact .other (by simp [uses]) rfl (fun _ _ => rfl) rfl rfl rfl ⟨rfl, rfl, h⟩

/-- A command that fails leaves the driver as it was, except that a build is counted. -/
theorem Effect.driver_of_ne {out : Outcome} (h : Effect s c out) (hstatus : out.status ≠ .success) :
    out.created = none ∧ out.driver = { s with builds := s.builds + c.attempts } := by
  cases h with
  | refused _ => exact ⟨rfl, rfl⟩
  | _ => exact absurd rfl hstatus

/-- A command that succeeds was given objects that are there. -/
theorem Effect.mem_objects_of_success {out : Outcome} (h : Effect s c out)
    (hstatus : out.status = .success) : ∀ x ∈ c.uses, x ∈ s.objects := by
  cases h with
  | refused hne => exact absurd hstatus hne
  | created huses => exact huses
  | released ho => simpa [uses] using ho
  | bound huses => exact huses
  | other huses => exact huses

end Command

end KernelForge.Device
