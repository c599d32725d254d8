import Mathlib
import KernelForge.Device.Hook
import KernelForge.Proofs.CurrentBindings

/-!
# Failed runs leave host memory alone

A run copies buffers back to arrays one after the other, so a read that failed after another one had
succeeded would leave the arrays half changed. No read does: every buffer of a launch has room for
what is read from it (`bindArguments_steady`), a device that shortens no buffer leaves it the room
(`HasRoom.enqueueKernel`), and then all reads have the same status (`HasRoom.status_readBuffer`).
Whatever else fails does so before the first array is written (`compute_of_error`).
-/

namespace KernelForge

namespace Device

/-- A hook that leaves every buffer at least as long as it was. -/
def NeverShortens (hook : Hook) : Prop :=
  ∀ (name : String) (size : Nat) (args : List LaunchArg) (i : Nat) (before after : List UInt8),
    args[i]? = some (.buffer before) → (hook name size args)[i]? = some (.buffer after) →
      before.length ≤ after.length

/-- Flipping bits shortens nothing. -/
theorem neverShortens_xor (index : Nat) (key : UInt8) :
    NeverShortens (Hook.ofRules [.xor index key]) := by
  intro name size args i before after hbefore hafter
  change (args.modify index _)[i]? = _ at hafter
  rw [List.getElem?_modify, hbefore] at hafter
  obtain ⟨_, h, hafter⟩ := Option.map_eq_some_iff.1 hafter
  cases h
  split_ifs at hafter
  · cases hafter
    exact (List.length_map _).ge
  · cases hafter
    exact Nat.le_refl _

namespace Simulator

variable {s s' : Simulator} {id : MemId} {size : Nat}

/-- A buffer whose handle was handed out and that has at least `size` bytes. -/
structure HasRoom (s : Simulator) (id : MemId) (size : Nat) : Prop where
  lt : id.raw < s.nextHandle
  room : ∃ contents, s.buffers.get? id = some contents ∧ size ≤ contents.length

/-- Nothing was launched, the device runs what it did, and no buffer has lost its room. -/
structure Steady (s s' : Simulator) : Prop where
  launches : s'.launches = s.launches
  hook : s'.hook = s.hook
  hasRoom : ∀ {id size}, s.HasRoom id size → s'.HasRoom id size

namespace Steady

theorem refl (s : Simulator) : Steady s s where
  launches := rfl
  hook := rfl
  hasRoom h := h

theorem trans {after : Simulator} (h : Steady s after) (h' : Steady after s') : Steady s s' where
  launches := h'.launches.trans h.launches
  hook := h'.hook.trans h.hook
  hasRoom hroom := h'.hasRoom (h.hasRoom hroom)

/-- What has the same buffers and has launched nothing. -/
theorem of_eq (hlaunches : s'.launches = s.launches) (hhook : s'.hook = s.hook)
    (hbuffers : s'.buffers = s.buffers) (hhandles : s.handles ≤ s'.handles) : Steady s s' where
  launches := hlaunches
  hook := hhook
  hasRoom h := ⟨Nat.lt_of_lt_of_le h.lt (by simpa [nextHandle] using hhandles), hbuffers ▸ h.room⟩

/-- A call is steady if its success is. -/
theorem attempt {α : Type} {call : Call} {outcome : Except Status (α × Simulator)}
    (h : ∀ a after, outcome = .ok (a, after) → Steady s after) :
    Steady s (s.attempt call outcome).2 :=
  attempt_snd (P := Steady s) (refl s) h

theorem createProgram (s : Simulator) (context : ContextId) (source : String) :
    Steady s (s.createProgram context source).2 := by
  refine attempt fun a after h => ?_
  split_ifs at h
  cases h
  exact of_eq rfl rfl rfl (Nat.le_succ _)

theorem buildProgram (s : Simulator) (program : ProgramId) :
    Steady s (s.buildProgram program).2 := by
  have hcounted : Steady s { s with builds := s.builds + 1 } := of_eq rfl rfl rfl (Nat.le_refl _)
  refine hcounted.trans (attempt fun a after h => ?_)
  split_ifs at h
  cases h
  exact of_eq rfl rfl rfl (Nat.le_refl _)

theorem createKernel (s : Simulator) (program : ProgramId) (name : String) :
    Steady s (s.createKernel program name).2 := by
  refine attempt fun a after h => ?_
  split at h
  · cases h
  split_ifs at h
  cases h
  exact of_eq rfl rfl rfl (Nat.le_succ _)

theorem releaseProgram (s : Simulator) (program : ProgramId) :
    Steady s (s.releaseProgram program).2 := by
  rw [Simulator.releaseProgram, Simulator.release]
  split_ifs
  · exact of_eq rfl rfl rfl (Nat.le_refl _)
  · exact refl s

/-- A new buffer takes no room from the others, since its handle is new. -/
theorem createBuffer (s : Simulator) (context : ContextId) (contents : List UInt8) :
    Steady s (s.createBuffer context contents).2 := by
  refine attempt fun a after h => ?_
  split_ifs at h
  cases h
  refine ⟨rfl, rfl, fun {id size} hroom => ⟨Nat.lt_succ_of_lt hroom.lt, ?_⟩⟩
  obtain ⟨found, hfound, hsize⟩ := hroom.room
  refine ⟨found, (Table.get?_insert ..).trans ((if_neg ?_).trans hfound), hsize⟩
  rintro rfl
  exact Nat.lt_irrefl _ hroom.lt

theorem setKernelArg (s : Simulator) (kernel : KernelId) (index : UInt32) (value : Bound) :
    Steady s (s.setKernelArg kernel index value).2 := by
  refine attempt fun a after h => ?_
  split_ifs at h
  cases h
  exact of_eq rfl rfl rfl (Nat.le_refl _)

end Steady

theorem hasRoom_createBuffer {context : ContextId} {contents : List UInt8}
    (h : s.createBuffer context contents = (.ok id, s')) : s'.HasRoom id contents.length := by
  have houtcome := attempt_eq_ok h
  split_ifs at houtcome
  cases houtcome
  exact ⟨Nat.lt_succ_self _, contents, (Table.get?_insert ..).trans (if_pos rfl), Nat.le_refl _⟩

/-! ### Launches and reads -/

/-- A launch is refused and changes nothing, or it is performed with the arguments that are bound. -/
theorem enqueueKernel_cases (s : Simulator) (queue : QueueId) (kernel : KernelId) (size : Nat) :
    (s.enqueueKernel queue kernel size).2 = s ∨
      ∃ name bound args, bound.mapM s.launchArg? = some args ∧
        s.enqueueKernel queue kernel size = (.success, s.perform name size bound args) := by
  rw [enqueueKernel]
  cases hattempt : s.attempt .enqueueKernel _ with
  | mk result after =>
    cases result with
    | error status => exact .inl (attempt_eq_error hattempt)
    | ok _ =>
      have houtcome := attempt_eq_ok hattempt
      split_ifs at houtcome
      split at houtcome
      · cases houtcome
      split at houtcome
      · cases houtcome
      split at houtcome
      · cases houtcome
      rename_i hargs
      cases houtcome
      exact .inr ⟨_, _, _, hargs, rfl⟩

/-- A buffer keeps its room if nothing shorter is written back to it. -/
theorem room_foldl_writeBack {pairs : List (Bound × LaunchArg)} {buffers : Table MemId (List UInt8)}
    (hpairs : ∀ contents, (.buffer id, .buffer contents) ∈ pairs → size ≤ contents.length)
    (h : ∃ contents, buffers.get? id = some contents ∧ size ≤ contents.length) :
    ∃ contents, (pairs.foldl writeBack buffers).get? id = some contents ∧
      size ≤ contents.length := by
  induction pairs generalizing buffers with
  | nil => exact h
  | cons pair rest ih =>
    refine ih (fun contents hmem => hpairs contents (List.mem_cons_of_mem _ hmem)) ?_
    obtain ⟨b, arg⟩ := pair
    by_cases hb : b.buffer? = some id
    · obtain ⟨before, hbefore, hsize⟩ := h
      obtain rfl : b = .buffer id := by
        cases b with
        | bytes value => cases hb
        | buffer other => exact congrArg Bound.buffer (Option.some.inj hb)
      cases arg with
      | bytes value => exact ⟨before, hbefore, hsize⟩
      | buffer contents =>
        refine ⟨contents, ?_, hpairs contents List.mem_cons_self⟩
        rw [writeBack, Table.get?_modify, if_pos rfl, hbefore]
        rfl
    · rwa [get?_writeBack_of_ne hb]

theorem forall₂_of_mapM {α β : Type} {f : α → Option β} {as : List α} {bs : List β}
    (h : as.mapM f = some bs) : List.Forall₂ (fun a b => f a = some b) as bs := by
  induction as generalizing bs with
  | nil =>
    cases h
    exact .nil
  | cons a as ih =>
    simp only [List.mapM_cons, Option.bind_eq_bind, Option.bind_eq_some_iff, Option.pure_def,
      Option.some.injEq] at h
    obtain ⟨b, hb, rest, hrest, rfl⟩ := h
    exact .cons hb (ih hrest)

/-- The device finds the contents of a buffer wherever the buffer is bound. -/
theorem HasRoom.perform (h : s.HasRoom id size) (hhook : ∀ hook ∈ s.hook, NeverShortens hook)
    {name : String} {count : Nat} {bound : List Bound} {args : List LaunchArg}
    (hargs : bound.mapM s.launchArg? = some args) :
    (s.perform name count bound args).HasRoom id size := by
  obtain ⟨before, hbefore, hsize⟩ := h.room
  refine ⟨h.lt, room_foldl_writeBack (fun after hmem => ?_) h.room⟩
  obtain ⟨i, hi⟩ := List.mem_iff_getElem?.1 hmem
  obtain ⟨hbound, hafter⟩ := List.getElem?_zip_eq_some.1 hi
  have harg : args[i]? = some (.buffer before) := by
    obtain ⟨hlt, hget⟩ := List.getElem?_eq_some_iff.1 hbound
    obtain ⟨hlength, hall⟩ := List.forall₂_iff_get.1 (forall₂_of_mapM hargs)
    have hseen := hall i hlt (hlength ▸ hlt)
    rw [List.get_eq_getElem, hget, launchArg?, hbefore] at hseen
    rw [List.getElem?_eq_getElem (hlength ▸ hlt)]
    exact hseen.symm
  refine hsize.trans ?_
  rw [runHook] at hafter
  cases hs : s.hook with
  | none =>
    rw [hs] at hafter
    obtain rfl : before = after := by simpa [harg] using hafter
    exact Nat.le_refl _
  | some hook =>
    rw [hs] at hafter
    exact hhook hook hs name count args i before after harg hafter

theorem HasRoom.enqueueKernel (h : s.HasRoom id size)
    (hhook : ∀ hook ∈ s.hook, NeverShortens hook) (queue : QueueId) (kernel : KernelId)
    (count : Nat) : (s.enqueueKernel queue kernel count).2.HasRoom id size := by
  rcases s.enqueueKernel_cases queue kernel count with hsame | ⟨name, bound, args, hargs, hdone⟩
  · rwa [hsame]
  · rw [hdone]
    exact h.perform hhook hargs

/-- The status of reading from a queue, whichever buffer is read. -/
def readStatus (s : Simulator) (queue : QueueId) : Status :=
  match s.failure? .readBuffer with
  | some status => status
  | none => if s.queues.contains queue then .success else .invalidQueue

/-- A read within the room of a buffer has nothing of its own to fail for. -/
theorem HasRoom.status_readBuffer (h : s.HasRoom id size) (queue : QueueId) :
    (s.readBuffer queue id size).1 = s.readStatus queue := by
  obtain ⟨contents, hcontents, hsize⟩ := h.room
  rw [readBuffer, readStatus]
  cases s.failure? .readBuffer with
  | some status => rfl
  | none =>
    cases s.queues.contains queue with
    | false => rfl
    | true => simp [hcontents, Nat.not_lt.2 hsize]

end Simulator

end Device

namespace Launch

open Device

theorem Memory.exists_copyFromBytes {mem : Memory} {a : SharedArray} {bytes : List UInt8}
    (h : bytes.length = mem.length a * a.element.width) :
    ∃ mem', mem.copyFromBytes a bytes = .ok mem' :=
  ⟨_, if_pos h⟩

/-- Copying bytes to an array changes no length. -/
theorem Memory.length_copyFromBytes {mem mem' : Memory} {a : SharedArray} {bytes : List UInt8}
    (h : mem.copyFromBytes a bytes = .ok mem') (b : SharedArray) : mem'.length b = mem.length b := by
  rw [copyFromBytes] at h
  split_ifs at h
  cases h
  rw [length, cells_setCells]
  split_ifs with hb
  · simp [length, cells, hb.1]
  · rfl

namespace DeviceContext

variable {s : Simulator} {mem mem' : Memory} {e : Error}

/-! ### Before the device runs -/

theorem build_steady (context : ContextId) (cls : KernelClass) (s : Simulator) :
    Simulator.Steady s (build context cls s).2 := by
  rw [build]
  cases deviceSource cls with
  | error e => exact .refl s
  | ok source =>
    have hcreate := Simulator.Steady.createProgram s context source.text
    cases hprogram : s.createProgram context source.text with
    | mk program s₁ =>
      rw [hprogram] at hcreate
      cases program with
      | error status =>
        simp only [hprogram]
        exact hcreate
      | ok program =>
        simp only [hprogram, buildCreated]
        refine hcreate.trans ((Simulator.Steady.buildProgram s₁ program).trans ?_)
        have hkernel := Simulator.Steady.createKernel (s₁.buildProgram program).2 program
          source.entryPoint
        split_ifs
        · split
          · rename_i hcreated
            rwa [hcreated] at hkernel
          · rename_i hcreated
            rw [hcreated] at hkernel
            exact hkernel.trans (.releaseProgram _ program)
        · exact .releaseProgram _ program

theorem programOf_steady (cx : DeviceContext) (live : Live) (key : Nat) (cls : KernelClass)
    (s : Simulator) : Simulator.Steady s (cx.programOf live key cls s).2.2 := by
  have hbuild := build_steady live.context cls s
  rw [programOf, Cache.getOrBuild]
  cases hslot : cx.cache.slot key with
  | mk id cache =>
    cases hfound : cache.artifact? id with
    | some p =>
      simp only [hfound]
      exact .refl s
    | none =>
      cases hresult : build live.context cls s with
      | mk result s' =>
        have hrun : (build live.context cls).run s = pure (result, s') := hresult
        simp only [hfound, StateT.run_bind, hrun, pure_bind]
        rw [hresult] at hbuild
        cases result <;> exact hbuild

/-! ### Binding the arguments -/

/-- Outputs that are as long as the bytes of their arrays, in buffers with room for them. -/
def Fitting (mem : Memory) (s : Simulator) (outputs : List Output) : Prop :=
  ∀ output ∈ outputs, output.size = (mem.toBytes output.array).length ∧
    s.HasRoom output.buffer output.size

theorem Fitting.mono {outputs : List Output} (h : Fitting mem s outputs)
    (hroom : ∀ {id size}, s.HasRoom id size → s'.HasRoom id size) : Fitting mem s' outputs :=
  fun output houtput => ⟨(h output houtput).1, hroom (h output houtput).2⟩

theorem Fitting.append {outputs later : List Output} (h : Fitting mem s outputs)
    (hlater : Fitting mem s later) : Fitting mem s (outputs ++ later) := fun output houtput =>
  (List.mem_append.1 houtput).elim (h output) (hlater output)

theorem bindArgument_steady (context : ContextId) (kernel : KernelId) (mem : Memory) (index : Nat)
    (binding : Binding) (s : Simulator) :
    Simulator.Steady s (bindArgument context kernel mem index binding s).2.2 ∧
      Fitting mem (bindArgument context kernel mem index binding s).2.2
        (bindArgument context kernel mem index binding s).1.toList := by
  have hbinds := bindsArgument context kernel mem index s binding
  generalize bindArgument context kernel mem index binding s = outcome at hbinds ⊢
  cases hbinds with
  | refused _ e => exact ⟨.refl s, nofun⟩
  | scalar value hindex =>
    exact ⟨Simulator.Steady.setKernelArg s kernel (UInt32.ofNat index) (.bytes value.toBytes),
      nofun⟩
  | array a id s₁ hindex hbuffer =>
    have hcreate := Simulator.Steady.createBuffer s context (mem.toBytes a)
    rw [hbuffer] at hcreate
    have hbind := Simulator.Steady.setKernelArg s₁ kernel (UInt32.ofNat index) (.buffer id)
    refine ⟨hcreate.trans hbind, fun output houtput => ?_⟩
    obtain rfl := List.mem_singleton.1 houtput
    exact ⟨rfl, hbind.hasRoom (Simulator.hasRoom_createBuffer hbuffer)⟩

theorem bindArguments_steady (context : ContextId) (kernel : KernelId) (mem : Memory) (index : Nat)
    (bindings : List Binding) (s : Simulator) :
    Simulator.Steady s (bindArguments context kernel mem index bindings s).2.2 ∧
      Fitting mem (bindArguments context kernel mem index bindings s).2.2
        (bindArguments context kernel mem index bindings s).1 := by
  induction bindings generalizing index s with
  | nil => exact ⟨.refl s, nofun⟩
  | cons binding rest ih =>
    obtain ⟨hsteady, hmade⟩ := bindArgument_steady context kernel mem index binding s
    rw [bindArguments]
    cases hbind : bindArgument context kernel mem index binding s with
    | mk made more =>
      obtain ⟨result, s₁⟩ := more
      rw [hbind] at hsteady hmade
      cases result with
      | error e => exact ⟨hsteady, hmade⟩
      | ok _ =>
        obtain ⟨hrest, hlater⟩ := ih (index + 1) s₁
        exact ⟨hsteady.trans hrest, (hmade.mono hrest.hasRoom).append hlater⟩

/-! ### Reading back -/

theorem accept_success (call : Call) : accept call .success = .ok () :=
  if_pos rfl

theorem accept_of_ne {call : Call} {status : Status} (h : status ≠ .success) :
    accept call status = .error (refused call status) :=
  if_neg h

/-- What fits still fits after another array has been written. -/
theorem Fitting.copyFromBytes {outputs : List Output} (h : Fitting mem s outputs)
    {a : SharedArray} {bytes : List UInt8} (hcopy : mem.copyFromBytes a bytes = .ok mem') :
    Fitting mem' s outputs := fun output houtput => by
  refine ⟨(h output houtput).1.trans ?_, (h output houtput).2⟩
  rw [Memory.length_toBytes, Memory.length_toBytes, Memory.length_copyFromBytes hcopy]

/-- If one read succeeds, so do all. -/
theorem readBack_of_success {queue : QueueId} {outputs : List Output}
    (hstatus : s.readStatus queue = .success) (h : Fitting mem s outputs) :
    (readBack queue s outputs mem).1 = .ok () := by
  induction outputs generalizing mem with
  | nil => rfl
  | cons output rest ih =>
    obtain ⟨hsize, hroom⟩ := h output List.mem_cons_self
    have hrest : Fitting mem s rest := fun o ho => h o (List.mem_cons_of_mem output ho)
    have hread := (hroom.status_readBuffer queue).trans hstatus
    obtain ⟨mem', hcopy⟩ : ∃ mem', mem.copyFromBytes output.array
        (overwrite (List.replicate output.size 0)
          (s.readBuffer queue output.buffer output.size).2) = .ok mem' :=
      Memory.exists_copyFromBytes
        (by rw [length_overwrite, List.length_replicate, hsize, Memory.length_toBytes])
    rw [readBack]
    simp only [hread, accept_success, hcopy]
    exact ih (hrest.copyFromBytes hcopy)

/-- Reading back fails before anything is written, if it fails. -/
theorem readBack_of_error {queue : QueueId} {outputs : List Output} (h : Fitting mem s outputs)
    (hread : readBack queue s outputs mem = (.error e, mem')) :
    mem' = mem ∧ ∃ status, e = refused .readBuffer status := by
  by_cases hstatus : s.readStatus queue = .success
  · have hok := readBack_of_success hstatus h
    rw [hread] at hok
    cases hok
  · cases outputs with
    | nil => cases hread
    | cons output rest =>
      obtain ⟨-, hroom⟩ := h output List.mem_cons_self
      rw [readBack] at hread
      simp only [hroom.status_readBuffer queue, accept_of_ne hstatus] at hread
      cases hread
      exact ⟨rfl, _, rfl⟩

/-! ### Launching -/

/-- How a run fails: the memory of the host is as before, and so are the launches unless the failure
is that of waiting for a launch or of reading its results. -/
structure FailsCleanly (m : Machine) (e : Error) (m' : Machine) : Prop where
  memory : m'.memory = m.memory
  launches : m'.simulator.launches = m.simulator.launches ∨
    (∃ launch, m'.simulator.launches = m.simulator.launches ++ [launch]) ∧
      ∃ status, e = refused .finish status ∨ e = refused .readBuffer status

namespace FailsCleanly

variable {m m₁ m' : Machine}

theorem of_launches (hmemory : m'.memory = m.memory)
    (hlaunches : m'.simulator.launches = m.simulator.launches) : FailsCleanly m e m' :=
  ⟨hmemory, .inl hlaunches⟩

/-- A failure does not see what has been done before without a launch. -/
theorem of_steady (hsteady : Simulator.Steady m.simulator s)
    (h : FailsCleanly { m with simulator := s } e m') : FailsCleanly m e m' where
  memory := h.memory
  launches := hsteady.launches ▸ h.launches

end FailsCleanly

theorem runBound_of_error {live : Live} {kernel : KernelId} {size : Nat} {outputs : List Output}
    {m m' : Machine} (hhook : ∀ hook ∈ m.simulator.hook, NeverShortens hook)
    (hfitting : Fitting m.memory m.simulator outputs)
    (hrun : runBound live kernel size outputs m = (.error e, m')) : FailsCleanly m e m' := by
  have hcases := m.simulator.enqueueKernel_cases live.queue kernel size
  have hafter := hfitting.mono fun h => h.enqueueKernel hhook live.queue kernel size
  rw [runBound] at hrun
  cases henqueue : m.simulator.enqueueKernel live.queue kernel size with
  | mk status s₁ =>
    simp only [henqueue] at hcases hafter hrun
    by_cases hstatus : status = .success
    · -- From here on there may have been a launch.
      have hlaunches : s₁.launches = m.simulator.launches ∨
          ∃ launch, s₁.launches = m.simulator.launches ++ [launch] := by
        rcases hcases with hsame | ⟨name, bound, args, -, hdone⟩
        · exact .inl (congrArg Simulator.launches hsame)
        · exact .inr ⟨_, congrArg (fun outcome => outcome.2.launches) hdone⟩
      rw [hstatus, accept_success] at hrun
      by_cases hfinish : s₁.finish live.queue = .success
      · rw [hfinish, accept_success] at hrun
        obtain ⟨hresult, rfl⟩ := Prod.mk.inj hrun
        obtain ⟨hmemory, status, he⟩ := readBack_of_error hafter (Prod.ext hresult rfl)
        exact ⟨hmemory, hlaunches.imp_right fun hlaunch => ⟨hlaunch, status, .inr he⟩⟩
      · rw [accept_of_ne hfinish] at hrun
        cases hrun
        exact ⟨rfl, hlaunches.imp_right fun hlaunch => ⟨hlaunch, _, .inl rfl⟩⟩
    · rw [accept_of_ne hstatus] at hrun
      cases hrun
      rcases hcases with hsame | ⟨name, bound, args, -, hdone⟩
      · exact .of_launches rfl (congrArg Simulator.launches hsame)
      · exact absurd (congrArg Prod.fst hdone) hstatus

theorem launch_of_error {live : Live} {kernel : KernelId} {bindings : List Binding} {size : Nat}
    {m m' : Machine} (hhook : ∀ hook ∈ m.simulator.hook, NeverShortens hook)
    (hlaunch : launch live kernel bindings size m = (.error e, m')) : FailsCleanly m e m' := by
  obtain ⟨hsteady, hfitting⟩ :=
    bindArguments_steady live.context kernel m.memory 0 bindings m.simulator
  have hreleased (outputs : List Output) (s : Simulator) :
      (releaseOutputs outputs s).launches = s.launches := by
    have hquiet : Simulator.Quiet (fun _ => False) s (releaseOutputs outputs s) :=
      releaseOutputs_quiet (fun _ _ => id) s
    exact hquiet.launches
  rw [launch] at hlaunch
  cases hbind : bindArguments live.context kernel m.memory 0 bindings m.simulator with
  | mk outputs more =>
    obtain ⟨result, s₁⟩ := more
    simp only [hbind] at hsteady hfitting hlaunch
    cases result with
    | error _ =>
      cases hlaunch
      exact .of_launches rfl ((hreleased outputs s₁).trans hsteady.launches)
    | ok _ =>
      obtain ⟨hresult, rfl⟩ := Prod.mk.inj hlaunch
      have hfails := runBound_of_error (m := { m with simulator := s₁ }) (hsteady.hook ▸ hhook)
        hfitting (Prod.ext hresult rfl)
      obtain ⟨hmemory, hlaunches⟩ := hfails.of_steady hsteady
      exact ⟨hmemory, (hreleased outputs _).symm ▸ hlaunches⟩

/-- A run that fails leaves the memory of the host as it was, whatever the context holds, whichever
calls of the driver are made to fail and whatever is bound to the kernel, if no buffer is shortened
by the device. It has launched nothing unless waiting for the launch failed or reading back did. -/
theorem compute_of_error {cx cx' : DeviceContext} {size : Nat} {kernel : Kernel} {m m' : Machine}
    (hhook : ∀ hook ∈ m.simulator.hook, NeverShortens hook)
    (h : cx.compute size kernel m = (.error e, cx', m')) : FailsCleanly m e m' := by
  have hcomputes := computes cx size kernel m
  rw [h] at hcomputes
  generalize houtcome : ((.error e : Except Error Unit), cx', m') = outcome at hcomputes
  cases hcomputes with
  | closed hlive =>
    cases houtcome
    exact .of_launches rfl rfl
  | noClass hlive hcls =>
    cases houtcome
    exact .of_launches rfl rfl
  | @ended live cls hlive hcls result hresult =>
    cases houtcome
    exact .of_launches rfl (cx.programOf_steady live kernel.key cls m.simulator).launches
  | @launched live cls program hlive hcls hprogram hsize hcheck result m' hlaunch =>
    cases houtcome
    have hsteady := cx.programOf_steady live kernel.key cls m.simulator
    exact (launch_of_error (m := { m with simulator := _ }) (hsteady.hook ▸ hhook)
      hlaunch).of_steady hsteady

end DeviceContext

/-- The device inverts all bits, and its results cannot be read. -/
def unreadable : List Action := [
  .create ⟨0x1001⟩ ⟨⟨0x1002⟩, "device", 1, 3, [], 1, 1, 1⟩,
  .write ⟨[[1, 2]]⟩,
  .onLaunch (Hook.ofRules [.xor 1 255]),
  .fail Call.readBuffer.name ⟨-5⟩]

theorem compute_of_error_unreadable :
    let d := (Desk.ofPlatforms [{ name := "platform", devices := [{ name := "device" }] }]).run
      unreadable
    ∃ cx e cx' m', d.contexts[0]? = some cx ∧
      cx.compute 2 (Desk.scalingBy 5) d.machine = (.error e, cx', m') ∧
      m'.simulator.launches.length = 1 ∧ m'.memory.toBytes ⟨.float, 0⟩ = [1, 0, 0, 0, 2, 0, 0, 0] := by
  intro d
  obtain ⟨cx, hcx⟩ : ∃ cx, d.contexts[0]? = some cx :=
    Option.isSome_iff_exists.1 (by decide +kernel)
  have hlaunches : (d.contexts[0]?.map fun cx =>
      (cx.compute 2 (Desk.scalingBy 5) d.machine).2.2.simulator.launches.length) = some 1 := by
    decide +kernel
  have hfails : (d.contexts[0]?.map fun cx =>
      (cx.compute 2 (Desk.scalingBy 5) d.machine).1.isOk) = some false := by
    decide +kernel
  rw [hcx, Option.map_some, Option.some.injEq] at hlaunches hfails
  cases hcompute : cx.compute 2 (Desk.scalingBy 5) d.machine with
  | mk result more =>
    obtain ⟨cx', m'⟩ := more
    rw [hcompute] at hlaunches hfails
    cases result with
    | ok _ => cases hfails
    | error e =>
      have hhook : ∀ hook ∈ d.machine.simulator.hook, NeverShortens hook := by
        intro hook hmem
        obtain rfl : Hook.ofRules [.xor 1 255] = hook := Option.some.inj hmem
        exact neverShortens_xor 1 255
      have hmemory := (DeviceContext.compute_of_error hhook hcompute).memory
      refine ⟨cx, e, cx', m', hcx, hcompute, hlaunches, ?_⟩
      rw [hmemory]
      decide +kernel

end Launch

end KernelForge
