import Mathlib
import KernelForge.Device.Hook
import KernelForge.Proofs.Histories
import KernelForge.Proofs.Launches
import KernelForge.Proofs.Units

/-!
# Launches see the current bindings

A program stays ready through any history: its kernel is there under the name of the entry function,
and nothing is bound past the fields of its class (`DeviceContext.Prepared`). What a context does
leaves the kernels of the others alone, and failed launches leave arguments bound, but none too
many. So every run that succeeds makes one launch with the bindings of that moment (`launch_of_compute`).
-/

namespace KernelForge.Launch

open Device

variable {n : Nat} {s s' : Simulator} {xs : List Object} {classOf : Nat → Option KernelClass}

/-- A program of a class that can be launched. -/
structure DeviceProgram.Ready (cls : Option KernelClass) (p : DeviceProgram) (s : Simulator) :
    Prop where
  built : ∃ c, cls = some c ∧ DeviceContext.deviceSource c = .ok p.source
  kernel : s.HasKernel p.kernel p.source.entryPoint p.source.arguments.length

theorem DeviceProgram.Ready.of_frame {cls : Option KernelClass} {p : DeviceProgram}
    {keep : Object → Prop} (h : p.Ready cls s) (hframe : Simulator.Frame keep s s')
    (hkeep : keep (.kernel p.kernel)) : p.Ready cls s' where
  built := h.built
  kernel := h.kernel.of_frame hframe hkeep

namespace DeviceContext

variable {cx : DeviceContext}

/-- The programs of an open context are ready for launches. The class of a key is fixed. -/
def Prepared (classOf : Nat → Option KernelClass) (cx : DeviceContext) (s : Simulator) : Prop :=
  cx.live.isSome → ∀ entry ∈ cx.cache.contents, entry.2.Ready (classOf entry.1) s

theorem kernel_mem_objects (hlive : cx.live.isSome) {entry : Nat × DeviceProgram}
    (hentry : entry ∈ cx.cache.contents) : .kernel entry.2.kernel ∈ cx.objects := by
  obtain ⟨live, hlive⟩ := Option.isSome_iff_exists.1 hlive
  rw [objects, hlive, Cache.artifacts_eq]
  exact List.mem_append_left _ (List.mem_flatMap.2
    ⟨entry.2, List.mem_map_of_mem hentry, List.mem_cons_self⟩)

theorem Prepared.of_frame {keep : Object → Prop} (h : Prepared classOf cx s)
    (hframe : Simulator.Frame keep s s') (hkeep : ∀ o ∈ cx.objects, keep o) :
    Prepared classOf cx s' := fun hlive entry hentry =>
  (h hlive entry hentry).of_frame hframe (hkeep _ (kernel_mem_objects hlive hentry))

/-- No two programs of a context share their kernel. -/
theorem eq_of_kernel_eq (hnodup : cx.objects.Nodup) (hlive : cx.live.isSome)
    {entry other : Nat × DeviceProgram} (hentry : entry ∈ cx.cache.contents)
    (hother : other ∈ cx.cache.contents) (hkernel : entry.2.kernel = other.2.kernel) :
    entry.2 = other.2 := by
  obtain ⟨live, hlive⟩ := Option.isSome_iff_exists.1 hlive
  rw [objects, hlive, Cache.artifacts_eq] at hnodup
  have hapart := (List.nodup_flatMap.1 (List.nodup_append.1 hnodup).1).2
  have hsymm : Std.Symm (Function.onFun List.Disjoint DeviceProgram.objects) :=
    ⟨fun _ _ h => h.symm⟩
  by_contra hne
  have hdisjoint : entry.2.objects.Disjoint other.2.objects :=
    hapart.forall (List.mem_map_of_mem hentry) (List.mem_map_of_mem hother) hne
  exact hdisjoint (a := .kernel entry.2.kernel) List.mem_cons_self
    (hkernel ▸ List.mem_cons_self)

/-! ### Building -/

theorem buildCreated_quiet {source : Source.KernelSource} {program : ProgramId}
    (h : s.Owns n (.program program :: xs)) :
    Simulator.Quiet (· ∈ xs) s (buildCreated source program s).2 := by
  have hnew : .program program ∉ xs := (List.nodup_cons.1 h.nodup).1
  have hbuilt : Simulator.Quiet (· ∈ xs) s (s.buildProgram program).2 := .buildProgram _ s program
  have howns := h.buildProgram program
  rw [buildCreated]
  cases hbuild : s.buildProgram program with
  | mk status s₁ =>
    rw [hbuild] at hbuilt howns
    simp only
    split_ifs
    · have hkernel : Simulator.Quiet (· ∈ xs) s₁ (s₁.createKernel program source.entryPoint).2 :=
        .createKernel howns (fun o ho => List.mem_cons_of_mem _ ho) program source.entryPoint
      split
      · rename_i hcreated
        rw [hcreated] at hkernel
        exact hbuilt.trans hkernel
      · rename_i hcreated
        rw [hcreated] at hkernel
        exact (hbuilt.trans hkernel).trans (.releaseObject (o := .program program) hnew)
    · exact hbuilt.trans (.releaseObject (o := .program program) hnew)

/-- A build leaves everything else alone. -/
theorem build_quiet (h : s.Owns n xs) (context : ContextId) (cls : KernelClass) :
    Simulator.Quiet (· ∈ xs) s (build context cls s).2 := by
  rw [build]
  cases deviceSource cls with
  | error e => exact .refl _ s
  | ok source =>
    have hcreate : Simulator.Quiet (· ∈ xs) s (s.createProgram context source.text).2 :=
      .createProgram _ s context source.text
    cases hprogram : s.createProgram context source.text with
    | mk program s₁ =>
      rw [hprogram] at hcreate
      cases program with
      | error status =>
        simp only [hprogram]
        exact hcreate
      | ok program =>
        simp only [hprogram]
        exact hcreate.trans (buildCreated_quiet (h.createProgram hprogram))

/-- What was built just now is ready. -/
theorem ready_of_build {context : ContextId} {cls : KernelClass} {p : DeviceProgram}
    (h : build context cls s = (.ok p, s')) : p.Ready (some cls) s' := by
  rw [build] at h
  cases hsource : deviceSource cls with
  | error e =>
    rw [hsource] at h
    cases h
  | ok source =>
    simp only [hsource] at h
    split at h
    · cases h
    rw [buildCreated] at h
    simp only at h
    split_ifs at h
    · split at h
      · rename_i hcreated
        cases h
        exact ⟨⟨cls, rfl, hsource⟩, Simulator.hasKernel_createKernel hcreated _⟩
      · cases h
    · cases h

/-! ### Operations of a context -/

/-- Getting a program leaves the objects of others alone, and the program is ready. -/
theorem programOf_prepared (h : cx.Balanced n xs s) (hprepared : Prepared classOf cx s)
    (live : Live) {key : Nat} {cls : KernelClass} (hcls : classOf key = some cls) :
    Prepared classOf (cx.programOf live key cls s).2.1 (cx.programOf live key cls s).2.2 ∧
      Simulator.Quiet (· ∈ xs) s (cx.programOf live key cls s).2.2 ∧
      ∀ p, (cx.programOf live key cls s).1 = .ok p →
        (key, p) ∈ (cx.programOf live key cls s).2.1.cache.contents := by
  by_cases hkey : key ∈ cx.cache.contents.map Prod.fst
  · obtain ⟨⟨key, p⟩, hmem, rfl⟩ := List.mem_map.1 hkey
    rw [programOf_of_mem h.tidy live cls hmem]
    refine ⟨hprepared, .refl _ s, fun q hq => ?_⟩
    cases hq
    exact hmem
  · have hbuilt := build_quiet h.owns live.context cls
    rw [programOf_of_not_mem h.tidy live cls hkey]
    cases hbuild : build live.context cls s with
    | mk result s' =>
      rw [hbuild] at hbuilt
      have hothers : Simulator.Quiet (· ∈ xs) s s' := hbuilt.mono fun o => List.mem_append_right _
      have hold : Prepared classOf cx s' :=
        hprepared.of_frame hbuilt.toFrame fun o => List.mem_append_left xs
      cases result with
      | error e =>
        refine ⟨fun hopen entry hentry => ?_, hothers, nofun⟩
        rw [h.tidy.contents_skip] at hentry
        exact hold hopen entry hentry
      | ok p =>
        refine ⟨fun hopen entry hentry => ?_, hothers, fun q hq => ?_⟩
        · rw [h.tidy.contents_add, List.mem_append, List.mem_singleton] at hentry
          obtain hentry | rfl := hentry
          · exact hold hopen entry hentry
          · rw [hcls]
            exact ready_of_build hbuild
        · cases hq
          rw [h.tidy.contents_add]
          exact List.mem_append_right _ (List.mem_singleton_self _)

/-- A launch leaves the programs of its context ready, and the kernels of others alone. -/
theorem launch_prepared {m : Machine} (h : cx.Balanced n xs m.simulator)
    (hprepared : Prepared classOf cx m.simulator) (hlive : cx.live.isSome)
    {entry : Nat × DeviceProgram} (hentry : entry ∈ cx.cache.contents) {bindings : List Binding}
    (hlength : bindings.length ≤ entry.2.source.arguments.length) (live : Live) (size : Nat) :
    Prepared classOf cx (launch live entry.2.kernel bindings size m).2.simulator ∧
      Simulator.Frame (· ∈ xs) m.simulator
        (launch live entry.2.kernel bindings size m).2.simulator := by
  have hbound : Simulator.Frame (Others (cx.objects ++ xs) entry.2.kernel) m.simulator _ :=
    (bindArguments_quiet h.owns live.context entry.2.kernel m.memory 0 bindings).toFrame
  have hrun := launch_frame live entry.2.kernel bindings size m
  have hframe : Simulator.Frame
      (fun o => Others (cx.objects ++ xs) entry.2.kernel o ∧ ∃ id, o = .kernel id) m.simulator
      (launch live entry.2.kernel bindings size m).2.simulator :=
    (hbound.mono fun _ ho => ho.1).trans (hrun.mono fun _ ho => ho.2)
  obtain ⟨hobjects, -, hapart⟩ := List.nodup_append.1 h.owns.nodup
  have hown := kernel_mem_objects hlive hentry
  refine ⟨fun _ other hother => ?_, hframe.failures, fun id hid => ?_⟩
  · by_cases hsame : entry.2.kernel = other.2.kernel
    · -- The kernel that is launched: its arguments change, but no more of them are bound.
      have heq := eq_of_kernel_eq hobjects hlive hentry hother hsame
      have hready := hprepared hlive other hother
      refine ⟨hready.built, ?_⟩
      rw [← heq] at hready ⊢
      exact (bindArguments_hasKernel hready.kernel (by omega) _ _).of_frame hrun ⟨_, rfl⟩
    · refine (hprepared hlive other hother).of_frame hframe ⟨⟨?_, fun heq => ?_⟩, _, rfl⟩
      · exact List.mem_append_left xs (kernel_mem_objects hlive hother)
      · exact hsame (Object.kernel.inj heq).symm
  · refine hframe.kernels id ⟨⟨List.mem_append_right _ hid, fun heq => ?_⟩, id, rfl⟩
    exact hapart _ hown _ hid heq.symm

theorem source_prepared (h : cx.Balanced n xs s) (hprepared : Prepared classOf cx s)
    {kernel : Kernel} (hcls : kernel.cls = classOf kernel.key) :
    Prepared classOf (cx.source kernel s).2.1 (cx.source kernel s).2.2 ∧
      Simulator.Frame (· ∈ xs) s (cx.source kernel s).2.2 := by
  have hrefl : Prepared classOf cx s ∧ Simulator.Frame (· ∈ xs) s s :=
    ⟨hprepared, (Simulator.Quiet.refl _ s).toFrame⟩
  rw [DeviceContext.source]
  cases cx.live with
  | none => exact hrefl
  | some live =>
    cases hkernel : kernel.cls with
    | none => exact hrefl
    | some cls =>
      obtain ⟨hnext, hquiet, -⟩ := programOf_prepared h hprepared live (hcls.symm.trans hkernel)
      exact ⟨hnext, hquiet.toFrame⟩

theorem compute_prepared {m : Machine} (h : cx.Balanced n xs m.simulator)
    (hprepared : Prepared classOf cx m.simulator) (size : Nat) {kernel : Kernel}
    (hkernel : kernel.cls = classOf kernel.key) :
    Prepared classOf (cx.compute size kernel m).2.1 (cx.compute size kernel m).2.2.simulator ∧
      Simulator.Frame (· ∈ xs) m.simulator (cx.compute size kernel m).2.2.simulator := by
  have hcomputes := computes cx size kernel m
  generalize cx.compute size kernel m = outcome at hcomputes ⊢
  cases hcomputes with
  | closed hlive => exact ⟨hprepared, (Simulator.Quiet.refl _ m.simulator).toFrame⟩
  | noClass hlive hcls => exact ⟨hprepared, (Simulator.Quiet.refl _ m.simulator).toFrame⟩
  | @ended live cls hlive hcls result hresult =>
    obtain ⟨hnext, hquiet, -⟩ := programOf_prepared h hprepared live (hkernel.symm.trans hcls)
    exact ⟨hnext, hquiet.toFrame⟩
  | @launched live cls program hlive hcls hprogram _ hcheck result m' hlaunch =>
    obtain ⟨hnext, hquiet, hcached⟩ := programOf_prepared h hprepared live (hkernel.symm.trans hcls)
    have hlength := (carries_of_checkBindings hcheck).length_eq
    have hopen : (cx.programOf live kernel.key cls m.simulator).2.1.live.isSome :=
      Option.isSome_iff_exists.2 ⟨live, hlive⟩
    have hafter := launch_prepared (m := { m with simulator := _ })
      (h.programOf hlive kernel.key cls) hnext hopen (hcached program hprogram) hlength.ge live size
    rw [hlaunch] at hafter
    exact ⟨hafter.1, hquiet.toFrame.trans hafter.2⟩

theorem close_prepared (h : cx.Balanced n xs s) :
    Prepared classOf (cx.close s).2.1 (cx.close s).2.2 ∧
      Simulator.Frame (· ∈ xs) s (cx.close s).2.2 := by
  constructor
  · intro hopen
    rw [live_close] at hopen
    cases hopen
  · cases hlive : cx.live with
    | none =>
      rw [close_of_none hlive]
      exact (Simulator.Quiet.refl _ s).toFrame
    | some live =>
      obtain ⟨cx', s', hclose, -, -, hreleases, -⟩ := h.close (by rw [hlive]; rfl)
      rw [hclose]
      have hapart := (List.nodup_append.1 h.owns.nodup).2.2
      exact (Simulator.Quiet.releases hreleases fun o ho hothers =>
        hapart o ho o hothers rfl).toFrame

theorem create_frame (h : s.Owns n xs) (platform : PlatformId) (device : DeviceProfile) :
    Simulator.Frame (· ∈ xs) s (create platform device s).2 := by
  have hcontext : Simulator.Quiet (· ∈ xs) s (s.createContext platform device.id).2 :=
    .createContext _ s platform device.id
  rw [create]
  cases hopened : s.createContext platform device.id with
  | mk context s₁ =>
    rw [hopened] at hcontext
    cases context with
    | error status => exact hcontext.toFrame
    | ok context =>
      have hqueue : Simulator.Quiet (· ∈ xs) s₁ (s₁.createQueue context device.id).2 :=
        .createQueue _ s₁ context device.id
      have hnew : .context context ∉ xs := (List.nodup_cons.1 (h.createContext hopened).nodup).1
      simp only
      split
      · rename_i hrefused
        rw [hrefused] at hqueue
        exact ((hcontext.trans hqueue).trans
          (.releaseObject (o := .context context) hnew)).toFrame
      · rename_i hcreated
        rw [hcreated] at hqueue
        exact (hcontext.trans hqueue).toFrame

theorem generate_of_deviceSource {cls : KernelClass} {source : Source.KernelSource}
    (h : deviceSource cls = .ok source) : Source.generate cls = .ok source := by
  have hmap : (Source.generate cls).mapError .ofSource = (.ok source : Except Error _) →
      Source.generate cls = .ok source := by
    intro hgenerate
    cases hresult : Source.generate cls with
    | error e =>
      rw [hresult] at hgenerate
      cases hgenerate
    | ok result =>
      rw [hresult] at hgenerate
      cases hgenerate
      rfl
  rw [deviceSource] at h
  split at h
  · split_ifs at h
    exact hmap h
  · exact hmap h

/-- A run without work-items launches nothing. -/
theorem compute_zero {m : Machine} (h : cx.Balanced n xs m.simulator)
    (hprepared : Prepared classOf cx m.simulator) {kernel : Kernel}
    (hkernel : kernel.cls = classOf kernel.key) :
    (cx.compute 0 kernel m).2.2.simulator.launches = m.simulator.launches ∧
      (cx.compute 0 kernel m).2.2.memory = m.memory := by
  have hcomputes := computes cx 0 kernel m
  generalize cx.compute 0 kernel m = outcome at hcomputes ⊢
  cases hcomputes with
  | closed hlive => exact ⟨rfl, rfl⟩
  | noClass hlive hcls => exact ⟨rfl, rfl⟩
  | @ended live cls hlive hcls result hresult =>
    exact ⟨(programOf_prepared h hprepared live (hkernel.symm.trans hcls)).2.1.launches, rfl⟩
  | launched hlive hcls hprogram hsize hcheck hlaunch => exact absurd rfl hsize

/-- A run that succeeds launches the entry function once, with one argument for each field in order,
and the arrays get what the device leaves in their buffers. -/
theorem compute_of_ok {m m' : Machine} {cx' : DeviceContext} (h : cx.Balanced n xs m.simulator)
    (hstrict : m.simulator.Strict) (hprepared : Prepared classOf cx m.simulator) {kernel : Kernel}
    (hkernel : kernel.cls = classOf kernel.key) {size : Nat} (hsize : 0 < size)
    (hcompute : cx.compute size kernel m = (.ok (), cx', m')) :
    ∃ cls, kernel.cls = some cls ∧
      List.Forall₂ (Carries cls.metadata m.memory) cls.fields kernel.bindings ∧
      m'.simulator.launches = m.simulator.launches ++ [⟨Identifier.ofName entryName, size,
        kernel.bindings.map (Binding.argument m.memory)⟩] ∧
      (Separate kernel.bindings →
        KeepsLengths m.memory kernel.bindings
          (argumentsAfter m (Identifier.ofName entryName) size kernel.bindings) →
        ∀ j a, kernel.bindings[j]? = some (.array a) →
          m'.memory.toBytes a = Simulator.contentsAfter
            (argumentsAfter m (Identifier.ofName entryName) size kernel.bindings) j
            (m.memory.toBytes a)) := by
  have hcomputes := computes cx size kernel m
  rw [hcompute] at hcomputes
  generalize houtcome : ((.ok () : Except Error Unit), cx', m') = outcome at hcomputes
  cases hcomputes with
  | closed hlive => cases houtcome
  | noClass hlive hcls => cases houtcome
  | ended hlive hcls result hresult =>
    obtain ⟨rfl, -⟩ := Prod.mk.inj houtcome
    exact absurd (hresult rfl) hsize.ne'
  | @launched live cls program hlive hcls hprogram _ hcheck result m' hlaunch =>
    cases houtcome
    obtain ⟨hnext, hquiet, hcached⟩ := programOf_prepared h hprepared live (hkernel.symm.trans hcls)
    obtain ⟨⟨c, hc, hsource⟩, hhas⟩ :=
      hnext (Option.isSome_iff_exists.2 ⟨live, hlive⟩) _ (hcached program hprogram)
    obtain rfl := Option.some.inj (hcls.symm.trans (hkernel.trans hc))
    obtain ⟨entry, texts, hentry, -, hgenerated⟩ :=
      Source.eq_of_generate (generate_of_deviceSource hsource)
    have hname : entry.name = entryName := by
      have hfound := List.find?_some hentry
      rw [Bool.and_eq_true, beq_iff_eq] at hfound
      exact hfound.1
    have hcarries := carries_of_checkBindings hcheck
    rw [hname] at hgenerated
    rw [hgenerated] at hcarries hhas
    rw [hcarries.length_eq] at hhas
    obtain ⟨hlaunches, hresults⟩ := launch_of_ok (m := { m with simulator := _ })
      (h.programOf hlive kernel.key cls).owns (hstrict.of_frame hquiet.toFrame) hhas hlaunch
    rw [argumentsAfter_of_hook hquiet.hook] at hresults
    rw [hquiet.launches] at hlaunches
    exact ⟨cls, hcls, hcarries, hlaunches, hresults⟩

end DeviceContext

/-! ### Histories -/

/-- The class of a kernel is that of its key, and no injected failure is a success. -/
def Action.Regular (classOf : Nat → Option KernelClass) : Action → Prop
  | .compute _ _ kernel => kernel.cls = classOf kernel.key
  | .source _ kernel => kernel.cls = classOf kernel.key
  | .fail _ status => status ≠ .success
  | _ => True

namespace Desk

variable {d : Desk}

/-- Every program of an open context is ready for launches. -/
structure Prepared (classOf : Nat → Option KernelClass) (d : Desk) : Prop where
  strict : d.machine.simulator.Strict
  contexts : ∀ cx ∈ d.contexts, cx.Prepared classOf d.machine.simulator

namespace Prepared

theorem start (platforms : List PlatformModel) : Prepared classOf (ofPlatforms platforms) where
  strict := by
    intro call status hfailure
    rw [ofPlatforms, (Simulator.objects_ofPlatforms platforms).2.2] at hfailure
    cases hfailure
  contexts := by simp [ofPlatforms]

/-- What leaves the failures and the kernels alone leaves all programs ready. -/
theorem contexts_of_frame {keep : Object → Prop} (h : d.Prepared classOf)
    (hframe : Simulator.Frame keep d.machine.simulator s) {contexts : List DeviceContext}
    (hcontexts : contexts ⊆ d.contexts)
    (hkeep : ∀ o ∈ contexts.flatMap DeviceContext.objects, keep o) :
    ∀ cx ∈ contexts, cx.Prepared classOf s := fun cx hcx =>
  (h.contexts cx (hcontexts hcx)).of_frame hframe fun o ho =>
    hkeep o (List.mem_flatMap.2 ⟨cx, hcx, ho⟩)

theorem onDriver (h : d.Prepared classOf) {f : Simulator → Simulator}
    (hstrict : (f d.machine.simulator).Strict)
    (hkernels : (f d.machine.simulator).kernels = d.machine.simulator.kernels) :
    (d.onDriver f).Prepared classOf where
  strict := hstrict
  contexts cx hcx hlive entry hentry := by
    have hready := h.contexts cx hcx hlive entry hentry
    refine ⟨hready.built, ?_⟩
    rw [Simulator.HasKernel, Desk.onDriver, hkernels]
    exact hready.kernel

theorem onContext (h : d.Prepared classOf) (hbalanced : Balanced n d) (i : Nat)
    (use : DeviceContext → Machine → DeviceContext × Machine)
    (huse : ∀ xs cx, cx.Balanced n xs d.machine.simulator →
      cx.Prepared classOf d.machine.simulator →
      (use cx d.machine).1.Prepared classOf (use cx d.machine).2.simulator ∧
        Simulator.Frame (· ∈ xs) d.machine.simulator (use cx d.machine).2.simulator) :
    (d.onContext i use).Prepared classOf := by
  rw [Desk.onContext]
  cases hcx : d.contexts[i]? with
  | none => exact h
  | some cx =>
    obtain ⟨hnext, hframe⟩ :=
      huse _ cx (hbalanced.context hcx) (h.contexts cx (List.mem_of_getElem? hcx))
    have hlt := (List.getElem?_eq_some_iff.1 hcx).1
    have hothers := h.contexts_of_frame hframe (List.eraseIdx_subset ..) fun o ho => ho
    refine ⟨h.strict.of_frame hframe, fun cx' hcx' => ?_⟩
    obtain rfl | hother := List.mem_cons.1 ((List.set_perm_cons_eraseIdx hlt _).mem_iff.1 hcx')
    · exact hnext
    · exact hothers cx' hother

theorem act (h : d.Prepared classOf) (hbalanced : Balanced n d) {action : Action}
    (haction : action.Regular classOf) : (d.act action).Prepared classOf := by
  cases action with
  | create platform device =>
    have hframe := DeviceContext.create_frame hbalanced.owns platform device
    have hcontexts := h.contexts_of_frame hframe (List.Subset.refl _) fun o ho => ho
    have hstrict := h.strict.of_frame hframe
    rw [Desk.act]
    cases hcreate : DeviceContext.create platform device d.machine.simulator with
    | mk result s =>
      rw [hcreate] at hcontexts hstrict
      cases result with
      | error e => exact ⟨hstrict, hcontexts⟩
      | ok cx =>
        refine ⟨hstrict, fun cx' hcx' => ?_⟩
        obtain hold | hnew := List.mem_append.1 hcx'
        · exact hcontexts cx' hold
        · obtain rfl := List.mem_singleton.1 hnew
          intro _ entry hentry
          rw [(DeviceContext.create_ok hbalanced.owns hcreate).2] at hentry
          cases hentry
  | compute i size kernel =>
    exact h.onContext hbalanced i (fun cx m => (cx.compute size kernel m).2)
      fun xs cx hcx hprepared => DeviceContext.compute_prepared hcx hprepared size haction
  | source i kernel =>
    exact h.onContext hbalanced i
      (fun cx m => ((cx.source kernel m.simulator).2.1,
        { m with simulator := (cx.source kernel m.simulator).2.2 }))
      fun xs cx hcx hprepared => DeviceContext.source_prepared hcx hprepared haction
  | close i =>
    exact h.onContext hbalanced i
      (fun cx m => ((cx.close m.simulator).2.1,
        { m with simulator := (cx.close m.simulator).2.2 }))
      fun xs cx hcx _ => DeviceContext.close_prepared hcx
  | fail call status => exact h.onDriver (f := (·.fail call status)) (h.strict.fail haction) rfl
  | failBuild log =>
    exact h.onDriver (f := (·.failBuild log)) (h.strict.fail (by decide)) rfl
  | onLaunch hook => exact h.onDriver (f := fun s => { s with hook := some hook }) h.strict rfl
  | write memory => exact ⟨h.strict, h.contexts⟩

/-- After any regular history every program of an open context is ready for launches. -/
theorem run (h : d.Prepared classOf) (hbalanced : Balanced n d) {actions : List Action}
    (hactions : ∀ action ∈ actions, action.Regular classOf) : (d.run actions).Prepared classOf := by
  induction actions generalizing d with
  | nil => exact h
  | cons action rest ih =>
    have hnext := h.act hbalanced (hactions action List.mem_cons_self)
    exact ih hnext (hbalanced.act action) fun a ha => hactions a (List.mem_cons_of_mem _ ha)

end Prepared

/-- After any history of kernels that keep their class, with failures injected anywhere, every run
with work-items that succeeds launches the entry function once. The launch has one argument for each
field, in order: the bytes of what is bound to the field now, which fit the field, whatever earlier
launches have bound or left bound. If no two bound arrays share their storage and the device keeps
the lengths of buffers, every bound array holds afterwards what the device left in its buffer. A run
without work-items launches nothing. -/
theorem launch_of_compute (platforms : List PlatformModel) {actions : List Action}
    (hactions : ∀ action ∈ actions, action.Regular classOf) {i : Nat} {cx : DeviceContext}
    (hcx : ((ofPlatforms platforms).run actions).contexts[i]? = some cx) {kernel : Kernel}
    (hkernel : kernel.cls = classOf kernel.key) :
    let m := ((ofPlatforms platforms).run actions).machine
    ((cx.compute 0 kernel m).2.2.simulator.launches = m.simulator.launches ∧
      (cx.compute 0 kernel m).2.2.memory = m.memory) ∧
    ∀ size cx' m', 0 < size → cx.compute size kernel m = (.ok (), cx', m') →
      ∃ cls, kernel.cls = some cls ∧
        List.Forall₂ (Carries cls.metadata m.memory) cls.fields kernel.bindings ∧
        m'.simulator.launches = m.simulator.launches ++ [⟨Identifier.ofName entryName, size,
          kernel.bindings.map (Binding.argument m.memory)⟩] ∧
        let after := m.simulator.runHook (Identifier.ofName entryName) size
          (kernel.bindings.map (Binding.argument m.memory))
        (DeviceContext.Separate kernel.bindings →
          DeviceContext.KeepsLengths m.memory kernel.bindings after →
          ∀ j a, kernel.bindings[j]? = some (.array a) →
            m'.memory.toBytes a = Simulator.contentsAfter after j (m.memory.toBytes a)) := by
  intro m
  have hbalanced := (Balanced.start platforms).run actions
  have hstart : (ofPlatforms platforms).Prepared classOf := .start platforms
  have hprepared := hstart.run (Balanced.start platforms) hactions
  have hown := hbalanced.context hcx
  have hready := hprepared.contexts cx (List.mem_of_getElem? hcx)
  refine ⟨DeviceContext.compute_zero hown hready hkernel, fun size cx' m' hsize hcompute => ?_⟩
  exact DeviceContext.compute_of_ok hown hprepared.strict hready hkernel hsize hcompute

/-- A class with a number and an array for fields. -/
def scaling : KernelClass where
  name := ⟨"Scaling"⟩
  fields := [⟨"factor", .int⟩, ⟨"data", .array .float⟩]
  methods := [{ name := entryName }]

/-- A kernel of the class, bound to a number and the first block of memory. -/
def scalingBy (factor : Int32) : Kernel where
  key := 0
  cls := some scaling
  bindings := [.scalar (.int factor), .array ⟨.float, 0⟩]

/-- The device first leaves no bytes in a buffer, so that the run fails with its arguments bound.
Then it inverts all bits. -/
def rerun : List Action := [
  .create ⟨0x1001⟩ ⟨⟨0x1002⟩, "device", 1, 3, [], 1, 1, 1⟩,
  .write ⟨[[1, 2]]⟩,
  .onLaunch (Hook.ofRules [.set 1 []]),
  .compute 0 2 (scalingBy 7),
  .onLaunch (Hook.ofRules [.xor 1 255])]

theorem launch_of_compute_rerun :
    let d := (ofPlatforms [{ name := "platform", devices := [{ name := "device" }] }]).run rerun
    ∃ cx cx' m', d.contexts[0]? = some cx ∧
      cx.compute 2 (scalingBy 5) d.machine = (.ok (), cx', m') ∧
      m'.simulator.launches = d.machine.simulator.launches ++ [⟨Identifier.ofName entryName, 2,
        [.bytes [5, 0, 0, 0], .buffer [1, 0, 0, 0, 2, 0, 0, 0]]⟩] ∧
      m'.memory.toBytes ⟨.float, 0⟩ = [254, 255, 255, 255, 253, 255, 255, 255] := by
  intro d
  have hregular : ∀ action ∈ rerun, action.Regular fun _ => some scaling := by
    simp [rerun, Action.Regular, scalingBy]
  obtain ⟨cx, hcx⟩ : ∃ cx, d.contexts[0]? = some cx :=
    Option.isSome_iff_exists.1 (by decide +kernel)
  have hok : (d.contexts[0]?.map fun cx => (cx.compute 2 (scalingBy 5) d.machine).1.isOk) =
      some true := by decide +kernel
  rw [hcx, Option.map_some] at hok
  cases hcompute : cx.compute 2 (scalingBy 5) d.machine with
  | mk result more =>
    obtain ⟨cx', m'⟩ := more
    rw [hcompute] at hok
    cases result with
    | error e => cases hok
    | ok _ =>
      have hclass : (scalingBy 5).cls = some scaling := rfl
      obtain ⟨-, hrun⟩ := launch_of_compute _ hregular hcx hclass
      obtain ⟨cls, -, -, hlaunches, hresults⟩ := hrun 2 cx' m' (by decide) hcompute
      have hmemory : d.machine.memory.toBytes ⟨.float, 0⟩ = [1, 0, 0, 0, 2, 0, 0, 0] := by
        decide +kernel
      have hargs : (scalingBy 5).bindings.map (Binding.argument d.machine.memory) =
          [.bytes [5, 0, 0, 0], .buffer [1, 0, 0, 0, 2, 0, 0, 0]] := by
        decide +kernel
      have hafter : d.machine.simulator.runHook (Identifier.ofName entryName) 2
          ((scalingBy 5).bindings.map (Binding.argument d.machine.memory)) =
          [.bytes [5, 0, 0, 0], .buffer [254, 255, 255, 255, 253, 255, 255, 255]] := by
        decide +kernel
      have hkeeps : DeviceContext.KeepsLengths d.machine.memory (scalingBy 5).bindings
          (d.machine.simulator.runHook (Identifier.ofName entryName) 2
            ((scalingBy 5).bindings.map (Binding.argument d.machine.memory))) := by
        intro j a contents ha hcontents
        rw [hafter] at hcontents
        match j with
        | 0 => cases ha
        | 1 =>
          cases ha
          cases hcontents
          rw [hmemory]
          rfl
        | _ + 2 => cases ha
      have hdata := hresults (List.pairwise_singleton _ _) hkeeps 1 _ rfl
      refine ⟨cx, cx', m', hcx, hcompute, ?_, ?_⟩
      · exact hargs ▸ hlaunches
      · exact hdata.trans (congrArg (Simulator.contentsAfter · 1 _) hafter)

end Desk

end KernelForge.Launch
