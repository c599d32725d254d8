import Mathlib
import KernelForge.Launch.DeviceContext
import KernelForge.Proofs.Artifacts
import KernelForge.Proofs.Objects

/-!
# What a device context holds on a driver

A device context holds a kernel and a program for each artifact in its cache, a queue and a context
(`DeviceContext.objects`). Every operation keeps the account of whoever works with the driver: what
it creates it holds afterwards, releases at once, or releases before it is over, whichever of its
calls fail. Closing releases everything, each thing after what was made from it.
-/

namespace KernelForge.Launch

open Device

/-- What was created for an artifact, in the order in which it is released. -/
def DeviceProgram.objects (p : DeviceProgram) : List Object :=
  [.kernel p.kernel, .program p.program]

/-- What a build that ended in some way has left. -/
def DeviceProgram.gained : Except Error DeviceProgram → List Object
  | .ok p => p.objects
  | .error _ => []

namespace DeviceContext

variable {n : Nat} {s s' : Simulator} {xs : List Object} {cx : DeviceContext}

/-- What a context holds, in the order in which closing releases it. -/
def objects (cx : DeviceContext) : List Object :=
  match cx.live with
  | none => []
  | some live =>
    cx.cache.artifacts.flatMap DeviceProgram.objects ++ [.queue live.queue, .context live.context]

/-- The keys for which a context holds a program and a kernel. -/
def keys (cx : DeviceContext) : List Nat :=
  cx.cache.contents.map Prod.fst

/-- A context that is asked for a kernel can build it. -/
def Builds (cx : DeviceContext) (kernel : Kernel) (s : Simulator) : Prop :=
  ∃ live cls p s', cx.live = some live ∧ kernel.cls = some cls ∧
    build live.context cls s = (.ok p, s')

/-! ### Opening -/

/-- A context that could be opened holds its queue and its context; one that could not be opened has
left nothing. -/
theorem create_cases (h : s.Owns n xs) (platform : PlatformId) (device : DeviceProfile) :
    (∃ cx s', create platform device s = (.ok cx, s') ∧ s'.Owns n (cx.objects ++ xs) ∧
      cx.cache = {}) ∨
    ∃ e s', create platform device s = (.error e, s') ∧ s'.Owns n xs := by
  rw [create]
  cases hcontext : s.createContext platform device.id with
  | mk context s₁ =>
    cases context with
    | error status =>
      refine .inr ⟨_, s₁, rfl, ?_⟩
      rwa [Simulator.attempt_eq_error hcontext]
    | ok context =>
      have hopened := h.createContext hcontext
      simp only
      cases hqueue : s₁.createQueue context device.id with
      | mk queue s₂ =>
        cases queue with
        | error status =>
          refine .inr ⟨_, _, rfl, ?_⟩
          rw [Simulator.attempt_eq_error hqueue]
          exact hopened.release.2.1
        | ok queue => exact .inl ⟨_, s₂, rfl, hopened.createQueue hqueue, rfl⟩

theorem create_ok {platform : PlatformId} {device : DeviceProfile} (h : s.Owns n xs)
    (hcreate : create platform device s = (.ok cx, s')) :
    s'.Owns n (cx.objects ++ xs) ∧ cx.cache = {} := by
  obtain ⟨_, _, heq, howns⟩ | ⟨_, _, heq, -⟩ := create_cases h platform device
  · cases hcreate.symm.trans heq
    exact howns
  · cases hcreate.symm.trans heq

theorem create_error {platform : PlatformId} {device : DeviceProfile} {e : Error}
    (h : s.Owns n xs) (hcreate : create platform device s = (.error e, s')) : s'.Owns n xs := by
  obtain ⟨_, _, heq, -⟩ | ⟨_, _, heq, howns⟩ := create_cases h platform device
  · cases hcreate.symm.trans heq
  · cases hcreate.symm.trans heq
    exact howns

/-! ### Building -/

theorem buildCreated_owns {source : Source.KernelSource} {program : ProgramId}
    (h : s.Owns n (.program program :: xs)) :
    (buildCreated source program s).2.Owns n
      (DeviceProgram.gained (buildCreated source program s).1 ++ xs) := by
  have hbuilt := h.buildProgram program
  rw [buildCreated]
  cases hbuild : s.buildProgram program with
  | mk status s₁ =>
    rw [hbuild] at hbuilt
    simp only
    split_ifs with hstatus
    · cases hkernel : s₁.createKernel program source.entryPoint with
      | mk kernel s₂ =>
        cases kernel with
        | ok kernel => exact hbuilt.createKernel hkernel
        | error status =>
          rw [Simulator.attempt_eq_error hkernel]
          exact hbuilt.release.2.1
    · exact hbuilt.release.2.1

/-- A build leaves a program and a kernel if it succeeds, and nothing else. -/
theorem build_owns (h : s.Owns n xs) (context : ContextId) (cls : KernelClass) :
    (build context cls s).2.Owns n (DeviceProgram.gained (build context cls s).1 ++ xs) := by
  rw [build]
  cases deviceSource cls with
  | error e => exact h
  | ok source =>
    cases hprogram : s.createProgram context source.text with
    | mk program s₁ =>
      cases program with
      | error status =>
        simp only [hprogram]
        rwa [Simulator.attempt_eq_error hprogram]
      | ok program =>
        simp only [hprogram]
        exact buildCreated_owns (h.createProgram hprogram)

theorem programOf_of_mem (htidy : cx.cache.Tidy) (live : Live) {key : Nat} (cls : KernelClass)
    {p : DeviceProgram} (hmem : (key, p) ∈ cx.cache.contents) (s : Simulator) :
    cx.programOf live key cls s = (.ok p, cx, s) := by
  rw [programOf, htidy.getOrBuild_of_mem hmem]
  rfl

theorem programOf_of_not_mem (htidy : cx.cache.Tidy) (live : Live) {key : Nat} (cls : KernelClass)
    (hkey : key ∉ cx.cache.contents.map Prod.fst) (s : Simulator) :
    cx.programOf live key cls s =
      match build live.context cls s with
      | (.ok p, s') => (.ok p, { cx with cache := cx.cache.add key p }, s')
      | (.error e, s') => (.error e, { cx with cache := cx.cache.skip }, s') := by
  rw [programOf, htidy.getOrBuild_of_not_mem hkey]
  cases hbuild : build live.context cls s with
  | mk result s' =>
    have hrun : (build live.context cls).run s = pure (result, s') := hbuild
    rw [StateT.run_bind, hrun, pure_bind]
    cases result <;> rfl

/-- A key is built if it was not yet and its build succeeds. -/
theorem mem_keys_programOf (htidy : cx.cache.Tidy) (live : Live) (key : Nat) (cls : KernelClass)
    (s : Simulator) (j : Nat) :
    j ∈ (cx.programOf live key cls s).2.1.keys ↔
      j ∈ cx.keys ∨ key = j ∧ ∃ p s', build live.context cls s = (.ok p, s') := by
  by_cases hkey : key ∈ cx.keys
  · obtain ⟨⟨key, p⟩, hmem, rfl⟩ := List.mem_map.1 hkey
    rw [programOf_of_mem htidy live cls hmem]
    exact ⟨Or.inl, fun h => h.elim id fun h => h.1 ▸ hkey⟩
  · rw [programOf_of_not_mem htidy live cls hkey]
    cases build live.context cls s with
    | mk result s' =>
      cases result with
      | ok p =>
        simp only [keys, htidy.contents_add, List.map_append, List.mem_append, List.map_singleton,
          List.mem_singleton]
        grind
      | error e =>
        rw [keys, htidy.contents_skip]
        refine ⟨Or.inl, ?_⟩
        rintro (hold | ⟨-, p, s', hbuild⟩)
        · exact hold
        · cases hbuild

/-- How a context and a driver stand after an operation of the context: it has kept what it had, and
the driver has the objects of the context and those of others. -/
structure Balanced (n : Nat) (xs : List Object) (cx : DeviceContext) (s : Simulator) : Prop where
  owns : s.Owns n (cx.objects ++ xs)
  tidy : cx.cache.Tidy

/-- A program that comes to the cache comes to what the context holds. -/
theorem objects_add {live : Live} (hlive : cx.live = some live) (htidy : cx.cache.Tidy) (key : Nat)
    (p : DeviceProgram) :
    (p.objects ++ cx.objects).Perm ({ cx with cache := cx.cache.add key p }).objects := by
  simp only [objects, hlive, Cache.artifacts_eq, htidy.contents_add, List.map_append,
    List.flatMap_append, List.map_singleton, List.flatMap_singleton]
  rw [← List.append_assoc]
  exact List.perm_append_comm.append_right _

theorem objects_skip (htidy : cx.cache.Tidy) :
    ({ cx with cache := cx.cache.skip }).objects = cx.objects := by
  simp only [objects, Cache.artifacts_eq, htidy.contents_skip]

theorem Balanced.programOf (h : Balanced n xs cx s) {live : Live} (hlive : cx.live = some live)
    (key : Nat) (cls : KernelClass) :
    Balanced n xs (cx.programOf live key cls s).2.1 (cx.programOf live key cls s).2.2 := by
  by_cases hkey : key ∈ cx.cache.contents.map Prod.fst
  · obtain ⟨⟨key, p⟩, hmem, rfl⟩ := List.mem_map.1 hkey
    rw [programOf_of_mem h.tidy live cls hmem]
    exact h
  · rw [programOf_of_not_mem h.tidy live cls hkey]
    have hbuild := build_owns h.owns live.context cls
    rw [h.tidy.keys_contents] at hkey
    cases hresult : build live.context cls s with
    | mk result s' =>
      rw [hresult] at hbuild
      cases result with
      | ok p =>
        refine ⟨hbuild.of_perm ?_, h.tidy.add hkey p⟩
        rw [← List.append_assoc]
        exact (objects_add hlive h.tidy key p).append_right xs
      | error e =>
        refine ⟨?_, h.tidy.skip⟩
        rw [objects_skip h.tidy]
        exact hbuild

/-! ### Launching -/

/-- The buffers that were made for a launch. -/
def made (outputs : List Output) : List Object :=
  outputs.map fun output => .buffer output.buffer

theorem made_append (outputs later : List Output) :
    made (outputs ++ later) = made outputs ++ made later :=
  List.map_append

theorem bindValue_owns (h : s.Owns n xs) (kernel : KernelId) (index : UInt32) (value : Bound) :
    (bindValue kernel index value s).2.Owns n xs :=
  h.setKernelArg kernel index value

/-- How the binding of one argument can go: it is refused and nothing happens, a number is bound, or
a buffer is made and bound. -/
inductive BindsArgument (context : ContextId) (kernel : KernelId) (mem : Memory) (index : Nat)
    (s : Simulator) : Binding → Option Output × Except Error Unit × Simulator → Prop
  | refused (binding : Binding) (e : Error) :
      BindsArgument context kernel mem index s binding (none, .error e, s)
  | scalar (value : Scalar) (hindex : index < UInt32.size) :
      BindsArgument context kernel mem index s (.scalar value)
        (none, bindValue kernel (UInt32.ofNat index) (.bytes value.toBytes) s)
  | array (a : SharedArray) (id : MemId) (s₁ : Simulator) (hindex : index < UInt32.size)
      (hbuffer : s.createBuffer context (mem.toBytes a) = (.ok id, s₁)) :
      BindsArgument context kernel mem index s (.array a)
        (some ⟨a, id, (mem.toBytes a).length⟩,
          bindValue kernel (UInt32.ofNat index) (.buffer id) s₁)

theorem bindsArgument (context : ContextId) (kernel : KernelId) (mem : Memory) (index : Nat)
    (s : Simulator) (binding : Binding) :
    BindsArgument context kernel mem index s binding
      (bindArgument context kernel mem index binding s) := by
  rw [bindArgument, argumentIndex]
  split_ifs with hindex
  · cases binding with
    | scalar value => exact .scalar value hindex
    | array a =>
      simp only [Binding.toBytes]
      cases hbuffer : s.createBuffer context (mem.toBytes a) with
      | mk buffer s₁ =>
        cases buffer with
        | error status =>
          rw [Simulator.attempt_eq_error hbuffer]
          exact .refused _ _
        | ok id => exact .array a id s₁ hindex hbuffer
  · exact .refused _ _

theorem bindArgument_owns (h : s.Owns n xs) (context : ContextId) (kernel : KernelId) (mem : Memory)
    (index : Nat) (binding : Binding) :
    (bindArgument context kernel mem index binding s).2.2.Owns n
      (made (bindArgument context kernel mem index binding s).1.toList ++ xs) := by
  have hbinds := bindsArgument context kernel mem index s binding
  generalize bindArgument context kernel mem index binding s = outcome at hbinds ⊢
  cases hbinds with
  | refused _ e => exact h
  | scalar value hindex => exact bindValue_owns h kernel _ _
  | array a id s₁ hindex hbuffer => exact bindValue_owns (h.createBuffer hbuffer) kernel _ _

theorem bindArguments_owns (h : s.Owns n xs) (context : ContextId) (kernel : KernelId)
    (mem : Memory) (index : Nat) (bindings : List Binding) :
    (bindArguments context kernel mem index bindings s).2.2.Owns n
      (made (bindArguments context kernel mem index bindings s).1 ++ xs) := by
  induction bindings generalizing index s xs with
  | nil => exact h
  | cons binding rest ih =>
    have hbound := bindArgument_owns h context kernel mem index binding
    rw [bindArguments]
    cases hbind : bindArgument context kernel mem index binding s with
    | mk first more =>
      obtain ⟨result, s₁⟩ := more
      rw [hbind] at hbound
      cases result with
      | error e => exact hbound
      | ok _ =>
        refine (ih hbound (index + 1)).of_perm ?_
        rw [made_append, ← List.append_assoc]
        exact List.perm_append_comm.append_right xs

theorem runBound_owns {m : Machine} (h : m.simulator.Owns n xs) (live : Live) (kernel : KernelId)
    (size : Nat) (outputs : List Output) :
    (runBound live kernel size outputs m).2.simulator.Owns n xs := by
  have hlaunched := h.enqueueKernel live.queue kernel size
  rw [runBound]
  cases henqueue : m.simulator.enqueueKernel live.queue kernel size with
  | mk status s₁ =>
    rw [henqueue] at hlaunched
    simp only
    split <;> exact hlaunched

theorem releaseOutputs_owns {outputs : List Output} (h : s.Owns n (made outputs ++ xs)) :
    (releaseOutputs outputs s).Owns n xs := by
  induction outputs generalizing s with
  | nil => exact h
  | cons output rest ih => exact ih h.release.2.1

/-- When a launch is over its buffers are gone, however it ended. -/
theorem launch_owns {m : Machine} (h : m.simulator.Owns n xs) (live : Live) (kernel : KernelId)
    (bindings : List Binding) (size : Nat) :
    (launch live kernel bindings size m).2.simulator.Owns n xs := by
  have hbound := bindArguments_owns h live.context kernel m.memory 0 bindings
  rw [launch]
  cases hbind : bindArguments live.context kernel m.memory 0 bindings m.simulator with
  | mk outputs more =>
    obtain ⟨result, s₁⟩ := more
    rw [hbind] at hbound
    cases result with
    | error e => exact releaseOutputs_owns hbound
    | ok _ =>
      let m₁ : Machine := { m with simulator := s₁ }
      have hrun : m₁.simulator.Owns n (made outputs ++ xs) := hbound
      exact releaseOutputs_owns (runBound_owns hrun live kernel size outputs)

/-! ### Operations of a context -/

theorem Balanced.source (h : Balanced n xs cx s) (kernel : Kernel) :
    Balanced n xs (cx.source kernel s).2.1 (cx.source kernel s).2.2 := by
  rw [DeviceContext.source]
  cases hlive : cx.live with
  | none => exact h
  | some live =>
    cases kernel.cls with
    | none => exact h
    | some cls => exact h.programOf hlive kernel.key cls

theorem source_of_none (hlive : cx.live = none) (kernel : Kernel) (s : Simulator) :
    cx.source kernel s = (.error .closed, cx, s) := by
  rw [DeviceContext.source, hlive]

theorem mem_keys_source (htidy : cx.cache.Tidy) (kernel : Kernel) (s : Simulator) (j : Nat) :
    j ∈ (cx.source kernel s).2.1.keys ↔ j ∈ cx.keys ∨ kernel.key = j ∧ cx.Builds kernel s := by
  rw [DeviceContext.source, Builds]
  cases hlive : cx.live with
  | none => simp
  | some live =>
    cases kernel.cls with
    | none => simp
    | some cls =>
      simp only [mem_keys_programOf htidy]
      simp

/-- How a run can go: the context is closed, the kernel has no class, the run ends once the program
has been asked for (which is a success only without work-items), or there is a launch. -/
inductive Computes (cx : DeviceContext) (size : Nat) (kernel : Kernel) (m : Machine) :
    Except Error Unit × DeviceContext × Machine → Prop
  | closed (hlive : cx.live = none) : Computes cx size kernel m (.error .closed, cx, m)
  | noClass {live : Live} (hlive : cx.live = some live) (hcls : kernel.cls = none) :
      Computes cx size kernel m (.error .noClass, cx, m)
  | ended {live : Live} {cls : KernelClass} (hlive : cx.live = some live)
      (hcls : kernel.cls = some cls) (result : Except Error Unit)
      (hresult : result = .ok () → size = 0) :
      Computes cx size kernel m (result, (cx.programOf live kernel.key cls m.simulator).2.1,
        { m with simulator := (cx.programOf live kernel.key cls m.simulator).2.2 })
  | launched {live : Live} {cls : KernelClass} {program : DeviceProgram}
      (hlive : cx.live = some live) (hcls : kernel.cls = some cls)
      (hprogram : (cx.programOf live kernel.key cls m.simulator).1 = .ok program)
      (hsize : size ≠ 0)
      (hcheck : checkBindings cls.metadata m.memory program.source.arguments kernel.bindings =
        .ok ())
      {result : Except Error Unit} {m' : Machine}
      (hlaunch : launch live program.kernel kernel.bindings size
        { m with simulator := (cx.programOf live kernel.key cls m.simulator).2.2 } = (result, m')) :
      Computes cx size kernel m (result, (cx.programOf live kernel.key cls m.simulator).2.1, m')

theorem computes (cx : DeviceContext) (size : Nat) (kernel : Kernel) (m : Machine) :
    Computes cx size kernel m (cx.compute size kernel m) := by
  rw [DeviceContext.compute]
  cases hlive : cx.live with
  | none => exact .closed hlive
  | some live =>
    cases hcls : kernel.cls with
    | none => exact .noClass hlive hcls
    | some cls =>
      simp only
      split
      · exact .ended hlive hcls _ nofun
      · rename_i program hprogram
        split_ifs with hsize
        · exact .ended hlive hcls _ fun _ => hsize
        · split
          · exact .ended hlive hcls _ nofun
          · rename_i hcheck
            exact .launched hlive hcls hprogram hsize hcheck rfl

/-- What a run makes of the context is what asking for the source makes of it. -/
theorem compute_context (cx : DeviceContext) (size : Nat) (kernel : Kernel) (m : Machine) :
    (cx.compute size kernel m).2.1 = (cx.source kernel m.simulator).2.1 := by
  have hcomputes := computes cx size kernel m
  generalize cx.compute size kernel m = outcome at hcomputes ⊢
  cases hcomputes with
  | closed hlive => rw [source_of_none hlive]
  | noClass hlive hcls => simp only [DeviceContext.source, hlive, hcls]
  | ended hlive hcls result hresult => simp only [DeviceContext.source, hlive, hcls]
  | launched hlive hcls hprogram hsize hcheck hlaunch =>
    simp only [DeviceContext.source, hlive, hcls]

theorem compute_of_none (hlive : cx.live = none) (size : Nat) (kernel : Kernel) (m : Machine) :
    cx.compute size kernel m = (.error .closed, cx, m) := by
  rw [DeviceContext.compute, hlive]

theorem Balanced.compute {m : Machine} (h : Balanced n xs cx m.simulator) (size : Nat)
    (kernel : Kernel) :
    Balanced n xs (cx.compute size kernel m).2.1 (cx.compute size kernel m).2.2.simulator := by
  have hcomputes := computes cx size kernel m
  generalize cx.compute size kernel m = outcome at hcomputes ⊢
  cases hcomputes with
  | closed hlive => exact h
  | noClass hlive hcls => exact h
  | ended hlive hcls result hresult => exact h.programOf hlive _ _
  | @launched live cls program hlive hcls _ _ _ result m' hlaunch =>
    have hprogram := h.programOf hlive kernel.key cls
    have howns := launch_owns (m := { m with simulator := _ }) hprogram.owns live program.kernel
      kernel.bindings size
    rw [hlaunch] at howns
    exact ⟨howns, hprogram.tidy⟩

/-! ### Closing -/

/-- Each release that closing makes is the release of what the context holds at its place. -/
theorem forall₂_releases (live : Live) (programs : List DeviceProgram) :
    List.Forall₂ (fun (r : Release) o => r.2 = fun s => s.releaseObject o) (releases live programs)
      (programs.flatMap DeviceProgram.objects ++ [.queue live.queue, .context live.context]) := by
  induction programs with
  | nil => exact .cons rfl (.cons rfl .nil)
  | cons p rest ih => exact .cons rfl (.cons rfl ih)

theorem releaseAll_eq {rs : List Release} {os : List Object}
    (hall : List.Forall₂ (fun (r : Release) o => r.2 = fun s => s.releaseObject o) rs os)
    (h : Simulator.Releases s os s') : releaseAll rs s = (.ok (), s') := by
  induction hall generalizing s with
  | nil =>
    cases h
    rfl
  | @cons r o rs os hr _ ih =>
    cases h with
    | @cons _ after _ _ _ hrelease hrest =>
      obtain ⟨call, release⟩ := r
      cases hr
      simp only [releaseAll, hrelease, ih hrest]
      rfl

/-- Closing an open context releases what it holds, in that order and every time with success. -/
theorem Balanced.close (h : Balanced n xs cx s) (hlive : cx.live.isSome) :
    ∃ cx' s', cx.close s = (.ok (), cx', s') ∧ cx'.live = none ∧ Balanced n xs cx' s' ∧
      Simulator.Releases s cx.objects s' ∧
      s'.released = s.released ++ cx.objects.map Object.resource := by
  obtain ⟨live, hlive⟩ := Option.isSome_iff_exists.1 hlive
  obtain ⟨s', hreleases, howns, hreleased⟩ := h.owns.releases
  have hobjects : cx.objects = cx.cache.artifacts.flatMap DeviceProgram.objects ++
      [.queue live.queue, .context live.context] := by
    rw [objects, hlive]
  have hall := releaseAll_eq (forall₂_releases live cx.cache.artifacts) (hobjects ▸ hreleases)
  refine ⟨{ cx with live := none, cache := cx.cache.drain.2 }, s', ?_, rfl,
    ⟨howns, Cache.Tidy.drain cx.cache⟩, hreleases, hreleased⟩
  rw [DeviceContext.close, hlive]
  simp only [Cache.drain, hall]

/-- A closed context is closed without doing anything. -/
theorem close_of_none (hlive : cx.live = none) (s : Simulator) :
    cx.close s = (.ok (), cx, s) := by
  rw [DeviceContext.close, hlive]

theorem live_close (cx : DeviceContext) (s : Simulator) : (cx.close s).2.1.live = none := by
  rw [DeviceContext.close]
  split
  · assumption
  · rfl

theorem Balanced.closed (h : Balanced n xs cx s) :
    Balanced n xs (cx.close s).2.1 (cx.close s).2.2 := by
  cases hlive : cx.live with
  | none =>
    rw [close_of_none hlive]
    exact h
  | some live =>
    obtain ⟨cx', s', hclose, -, hbalanced, -⟩ := h.close (by rw [hlive]; rfl)
    rw [hclose]
    exact hbalanced

end DeviceContext

end KernelForge.Launch
