import Mathlib
import KernelForge.Proofs.Arguments
import KernelForge.Proofs.Copies
import KernelForge.Proofs.Ownership

/-!
# What a launch does

A launch binds every argument anew: a number as its bytes, an array through a buffer of its own
(`bindArguments_of_ok`). So whatever was bound to the kernel before, the device sees the current
bindings, and what it leaves in the buffers comes back to the arrays (`launch_of_ok`). A launch that
fails half-way leaves arguments bound, but none past the last field (`bindArguments_hasKernel`).
-/

namespace KernelForge.Launch

open Device

/-- A binding as a launch sees it. -/
def Binding.argument (mem : Memory) : Binding → LaunchArg
  | .scalar value => .bytes value.toBytes
  | .array a => .buffer (mem.toBytes a)

/-- The array of a binding. -/
def Binding.array? : Binding → Option SharedArray
  | .scalar _ => none
  | .array a => some a

namespace DeviceContext

variable {n : Nat} {s s' : Simulator} {xs : List Object} {context : ContextId} {kernel : KernelId}
  {mem : Memory}

theorem eq_success_of_accept {call : Call} {status : Status} (h : accept call status = .ok ()) :
    status = .success := by
  rw [accept] at h
  split_ifs at h with hstatus
  exact hstatus

/-! ### Binding arguments -/

/-- What an argument is bound to stands for a binding. -/
def Stored (mem : Memory) (s : Simulator) : Binding → Bound → Prop
  | .scalar value, bound => bound = .bytes value.toBytes
  | .array a, bound => ∃ id, bound = .buffer id ∧ s.buffers.get? id = some (mem.toBytes a)

/-- The buffer that has to be copied back to a binding. -/
def output? (mem : Memory) : Binding × Bound → Option Output
  | (.array a, .buffer id) => some ⟨a, id, (mem.toBytes a).length⟩
  | _ => none

/-- The objects other than a kernel. -/
def Others (xs : List Object) (kernel : KernelId) (o : Object) : Prop :=
  o ∈ xs ∧ o ≠ .kernel kernel

theorem not_others (xs : List Object) (kernel : KernelId) : ¬ Others xs kernel (.kernel kernel) :=
  fun h => h.2 rfl

theorem bindValue_quiet (s : Simulator) (number : UInt32) (value : Bound) :
    Simulator.Quiet (Others xs kernel) s (bindValue kernel number value s).2 :=
  .setKernelArg (not_others xs kernel) number value

theorem bindArgument_quiet (h : s.Owns n xs) (context : ContextId) (kernel : KernelId)
    (mem : Memory) (index : Nat) (binding : Binding) :
    Simulator.Quiet (Others xs kernel) s
      (bindArgument context kernel mem index binding s).2.2 := by
  have hbinds := bindsArgument context kernel mem index s binding
  generalize bindArgument context kernel mem index binding s = outcome at hbinds ⊢
  cases hbinds with
  | refused _ e => exact .refl _ s
  | scalar value hindex => exact bindValue_quiet s _ _
  | array a id s₁ hindex hbuffer =>
    have hcreate : Simulator.Quiet (Others xs kernel) s
        (s.createBuffer context (mem.toBytes a)).2 := .createBuffer h (fun o ho => ho.1) context _
    rw [hbuffer] at hcreate
    exact hcreate.trans (bindValue_quiet s₁ _ _)

/-- Arguments are bound in a way that concerns the kernel and new buffers only. -/
theorem bindArguments_quiet (h : s.Owns n xs) (context : ContextId) (kernel : KernelId)
    (mem : Memory) (index : Nat) (bindings : List Binding) :
    Simulator.Quiet (Others xs kernel) s
      (bindArguments context kernel mem index bindings s).2.2 := by
  induction bindings generalizing index s xs with
  | nil => exact .refl _ s
  | cons binding rest ih =>
    have hquiet : Simulator.Quiet (Others xs kernel) s _ :=
      bindArgument_quiet h context kernel mem index binding
    have howns := bindArgument_owns h context kernel mem index binding
    rw [bindArguments]
    cases hbind : bindArgument context kernel mem index binding s with
    | mk first more =>
      obtain ⟨result, s₁⟩ := more
      rw [hbind] at hquiet howns
      cases result with
      | error e => exact hquiet
      | ok _ =>
        refine hquiet.trans ((ih howns (index + 1)).mono ?_)
        exact fun o ho => ⟨List.mem_append_right _ ho.1, ho.2⟩

theorem bindValue_hasKernel {name : String} {count index : Nat} (h : s.HasKernel kernel name count)
    (hindex : index < count) (hsize : index < UInt32.size) (value : Bound) :
    (bindValue kernel (UInt32.ofNat index) value s).2.HasKernel kernel name count := by
  refine h.setKernelArg ?_ value
  rwa [UInt32.toNat_ofNat_of_lt' hsize]

theorem bindArgument_hasKernel {name : String} {count index : Nat}
    (h : s.HasKernel kernel name count) (hindex : index < count) (context : ContextId) (mem : Memory)
    (binding : Binding) :
    (bindArgument context kernel mem index binding s).2.2.HasKernel kernel name count := by
  have hbinds := bindsArgument context kernel mem index s binding
  generalize bindArgument context kernel mem index binding s = outcome at hbinds ⊢
  cases hbinds with
  | refused _ e => exact h
  | scalar value hsize => exact bindValue_hasKernel h hindex hsize _
  | array a id s₁ hsize hbuffer =>
    refine bindValue_hasKernel ?_ hindex hsize _
    have houtcome := Simulator.attempt_eq_ok hbuffer
    split_ifs at houtcome
    cases houtcome
    exact h

/-- However far binding the arguments gets, it binds none past the last. -/
theorem bindArguments_hasKernel {name : String} {count index : Nat} {bindings : List Binding}
    (h : s.HasKernel kernel name count) (hcount : index + bindings.length ≤ count)
    (context : ContextId) (mem : Memory) :
    (bindArguments context kernel mem index bindings s).2.2.HasKernel kernel name count := by
  induction bindings generalizing index s with
  | nil => exact h
  | cons binding rest ih =>
    rw [List.length_cons] at hcount
    have hindex : index < count := by omega
    have hstep := bindArgument_hasKernel h hindex context mem binding
    rw [bindArguments]
    cases hbind : bindArgument context kernel mem index binding s with
    | mk first more =>
      obtain ⟨result, s₁⟩ := more
      rw [hbind] at hstep
      cases result with
      | error e => exact hstep
      | ok _ => exact ih hstep (by omega)

theorem bindValue_of_ok (h : s.Strict) {number : UInt32} {value : Bound}
    (hbind : bindValue kernel number value s = (.ok (), s')) :
    s' = { s with kernels := s.kernels.modify kernel fun k =>
      { k with args := k.args.insert number value } } := by
  have hstatus := eq_success_of_accept (congrArg Prod.fst hbind)
  rw [← Simulator.setKernelArg_of_success h hstatus]
  exact (congrArg Prod.snd hbind).symm

/-- An argument that could be bound stands for its binding. -/
theorem bindArgument_of_ok (h : s.Strict) {index : Nat} {binding : Binding} {output : Option Output}
    (hbind : bindArgument context kernel mem index binding s = (output, .ok (), s')) :
    ∃ value, index < UInt32.size ∧ output = output? mem (binding, value) ∧
      Stored mem s' binding value ∧
      s'.kernels = s.kernels.modify kernel fun k =>
        { k with args := k.args.insert (UInt32.ofNat index) value } := by
  have hbinds := bindsArgument context kernel mem index s binding
  rw [hbind] at hbinds
  generalize houtcome : (output, (.ok () : Except Error Unit), s') = outcome at hbinds
  cases hbinds with
  | refused _ e => cases houtcome
  | scalar value hindex =>
    obtain ⟨rfl, hvalue⟩ := Prod.mk.inj houtcome
    rw [bindValue_of_ok h hvalue.symm]
    exact ⟨.bytes value.toBytes, hindex, rfl, rfl, rfl⟩
  | array a id s₁ hindex hbuffer =>
    obtain ⟨rfl, hvalue⟩ := Prod.mk.inj houtcome
    have hcreated := Simulator.attempt_eq_ok hbuffer
    split_ifs at hcreated
    cases hcreated
    rw [bindValue_of_ok (s := { s.advance with buffers := _ }) h hvalue.symm]
    exact ⟨.buffer _, hindex, rfl, ⟨_, rfl, (Table.get?_insert ..).trans (if_pos rfl)⟩, rfl⟩

theorem Stored.of_quiet {keep : Object → Prop} {binding : Binding} {value : Bound}
    (h : Stored mem s binding value) (hquiet : Simulator.Quiet keep s s')
    (hkeep : ∀ id, value = .buffer id → keep (.buffer id)) : Stored mem s' binding value := by
  cases binding with
  | scalar v => exact h
  | array a =>
    obtain ⟨id, rfl, hid⟩ := h
    exact ⟨id, rfl, (hquiet.buffers id (hkeep id rfl)).trans hid⟩

/-- If all arguments could be bound, each stands for its binding, whatever was bound before. -/
theorem bindArguments_of_ok (h : s.Owns n xs) (hstrict : s.Strict) {k : KernelObject}
    (hk : s.kernels.get? kernel = some k) {index : Nat} {bindings : List Binding}
    {outputs : List Output}
    (hbind : bindArguments context kernel mem index bindings s = (outputs, .ok (), s')) :
    ∃ bound k', s'.kernels.get? kernel = some k' ∧
      List.Forall₂ (Stored mem s') bindings bound ∧
      outputs = (bindings.zip bound).filterMap (output? mem) ∧
      (∀ i value, bound[i]? = some value →
        index + i < UInt32.size ∧ k'.args.get? (UInt32.ofNat (index + i)) = some value) ∧
      ∀ number : UInt32, number.toNat < index → k'.args.get? number = k.args.get? number := by
  induction bindings generalizing index s xs k outputs with
  | nil =>
    cases hbind
    exact ⟨[], k, hk, .nil, rfl, by simp, fun _ _ => rfl⟩
  | cons binding rest ih =>
    rw [bindArguments] at hbind
    have howns := bindArgument_owns h context kernel mem index binding
    have hquiet : Simulator.Quiet (Others xs kernel) s _ :=
      bindArgument_quiet h context kernel mem index binding
    cases hfirst : bindArgument context kernel mem index binding s with
    | mk output more =>
      obtain ⟨result, s₁⟩ := more
      rw [hfirst] at hbind howns hquiet
      cases result with
      | error e => cases hbind
      | ok _ =>
        cases hlater : bindArguments context kernel mem (index + 1) rest s₁ with
        | mk later more =>
          obtain ⟨result, s₂⟩ := more
          simp only [hlater] at hbind
          cases hbind
          obtain ⟨value, hindex, houtput, hstored, hkernels⟩ := bindArgument_of_ok hstrict hfirst
          have htoNat := UInt32.toNat_ofNat_of_lt' hindex
          have hk₁ : s₁.kernels.get? kernel =
              some { k with args := k.args.insert (UInt32.ofNat index) value } := by
            rw [hkernels, Table.get?_modify, if_pos rfl, hk]
            rfl
          obtain ⟨bound, k', hk', hall, houtputs, hargs, hbefore⟩ :=
            ih howns (hstrict.of_frame hquiet.toFrame) hk₁ hlater
          have hstays : Simulator.Quiet (Others (made output.toList ++ xs) kernel) s₁ _ :=
            bindArguments_quiet howns context kernel mem (index + 1) rest
          rw [hlater] at hstays
          refine ⟨value :: bound, k', hk', .cons (hstored.of_quiet hstays ?_) hall, ?_, ?_, ?_⟩
          · rintro id rfl
            refine ⟨List.mem_append_left _ ?_, by simp⟩
            cases binding with
            | scalar v => cases hstored
            | array a =>
              rw [houtput]
              exact List.mem_singleton_self _
          · rw [List.zip_cons_cons, List.filterMap_cons, ← houtput, houtputs]
            cases output <;> rfl
          · intro i v hi
            cases i with
            | zero =>
              cases hi
              refine ⟨hindex, ?_⟩
              rw [Nat.add_zero, hbefore _ (by omega)]
              exact (Table.get?_insert ..).trans (if_pos rfl)
            | succ i =>
              rw [Nat.add_comm i 1, ← Nat.add_assoc]
              exact hargs i v hi
          · intro number hnumber
            rw [hbefore number (by omega)]
            refine (Table.get?_insert ..).trans (if_neg ?_)
            rintro rfl
            omega

/-! ### What the device sees and leaves -/

theorem mapM_launchArg? {bindings : List Binding} {bound : List Bound}
    (h : List.Forall₂ (Stored mem s) bindings bound) :
    bound.mapM s.launchArg? = some (bindings.map (Binding.argument mem)) := by
  refine mapM_of_forall₂ (List.forall₂_map_right_iff.2 (h.flip.imp fun value binding hstored => ?_))
  cases binding with
  | scalar v =>
    obtain rfl : value = .bytes v.toBytes := hstored
    rfl
  | array a =>
    obtain ⟨id, rfl, hid⟩ := hstored
    rw [Simulator.launchArg?, hid]
    rfl

theorem map_array_outputs {bindings : List Binding} {bound : List Bound}
    (h : List.Forall₂ (Stored mem s) bindings bound) :
    ((bindings.zip bound).filterMap (output? mem)).map Output.array =
      bindings.filterMap Binding.array? := by
  induction h with
  | nil => rfl
  | @cons binding value _ _ hstored _ ih =>
    rw [List.zip_cons_cons, List.filterMap_cons, List.filterMap_cons, ← ih]
    cases binding with
    | scalar v => rfl
    | array a =>
      obtain ⟨id, rfl, -⟩ := hstored
      rfl

theorem map_buffer_outputs {bindings : List Binding} {bound : List Bound}
    (h : List.Forall₂ (Stored mem s) bindings bound) :
    ((bindings.zip bound).filterMap (output? mem)).map Output.buffer =
      bound.filterMap Bound.buffer? := by
  induction h with
  | nil => rfl
  | @cons binding value _ _ hstored _ ih =>
    rw [List.zip_cons_cons, List.filterMap_cons, List.filterMap_cons, ← ih]
    cases binding with
    | scalar v =>
      obtain rfl : value = .bytes v.toBytes := hstored
      rfl
    | array a =>
      obtain ⟨id, rfl, -⟩ := hstored
      rfl

/-- Reading back changes the arrays of the outputs only, and if no two of them share their storage,
each holds afterwards what is in its buffer. -/
theorem readBack_of_ok (h : s.Strict) {queue : QueueId} {outputs : List Output} {mem' : Memory}
    (hread : readBack queue s outputs mem = (.ok (), mem')) :
    (∀ b : SharedArray, b.address ∉ outputs.map (·.array.address) → mem'.cells b = mem.cells b) ∧
      ((outputs.map (·.array.address)).Nodup → ∀ output ∈ outputs, ∀ contents,
        s.buffers.get? output.buffer = some contents → contents.length = output.size →
        mem'.toBytes output.array = contents) := by
  induction outputs generalizing mem with
  | nil =>
    cases hread
    exact ⟨fun _ _ => rfl, fun _ _ hnone => absurd hnone List.not_mem_nil⟩
  | cons output rest ih =>
    rw [readBack] at hread
    cases hstatus : accept .readBuffer (s.readBuffer queue output.buffer output.size).1 with
    | error e =>
      simp only [hstatus] at hread
      cases hread
    | ok _ =>
      simp only [hstatus] at hread
      split at hread
      · cases hread
      rename_i mem₁ hcopy
      obtain ⟨hframe, hback⟩ := ih hread
      refine ⟨fun b hb => ?_, fun hnodup o ho contents hcontents hlength => ?_⟩
      · rw [List.map_cons, List.mem_cons, not_or] at hb
        rw [hframe b hb.2, Memory.cells_copyFromBytes hcopy hb.1]
      · rw [List.map_cons, List.nodup_cons] at hnodup
        rw [List.mem_cons] at ho
        obtain rfl | ho := ho
        · obtain ⟨found, hfound, -, htaken⟩ :=
            Simulator.readBuffer_of_success h (eq_success_of_accept hstatus)
          obtain rfl := Option.some.inj (hfound.symm.trans hcontents)
          rw [htaken, ← hlength, List.take_length, overwrite_eq List.length_replicate.symm] at hcopy
          -- The other outputs are copied to other arrays.
          rw [Memory.toBytes_eq, hframe _ hnodup.1, ← Memory.toBytes_eq,
            Memory.toBytes_copyFromBytes hcopy]
        · exact hback hnodup.2 o ho contents hcontents hlength

theorem runBound_of_ok {live : Live} {size : Nat} {outputs : List Output} {m m' : Machine}
    (h : m.simulator.Strict) (hrun : runBound live kernel size outputs m = (.ok (), m')) :
    ∃ k bound args, m.simulator.kernels.get? kernel = some k ∧
      Simulator.arguments? k = some bound ∧ bound.mapM m.simulator.launchArg? = some args ∧
      m'.simulator = m.simulator.perform k.name size bound args ∧
      readBack live.queue m'.simulator outputs m.memory = (.ok (), m'.memory) := by
  rw [runBound] at hrun
  cases hcalls : accept .enqueueKernel (m.simulator.enqueueKernel live.queue kernel size).1 *>
      accept .finish ((m.simulator.enqueueKernel live.queue kernel size).2.finish live.queue) with
  | error e =>
    simp only [hcalls] at hrun
    cases hrun
  | ok _ =>
    simp only [hcalls] at hrun
    cases hstatus : accept .enqueueKernel
        (m.simulator.enqueueKernel live.queue kernel size).1 with
    | error e =>
      rw [hstatus] at hcalls
      cases hcalls
    | ok _ =>
      obtain ⟨k, bound, args, hk, hbound, hargs, hafter⟩ :=
        Simulator.enqueueKernel_of_success h (eq_success_of_accept hstatus)
      refine ⟨k, bound, args, hk, hbound, hargs, ?_⟩
      obtain ⟨hresult, rfl⟩ := Prod.mk.inj hrun
      exact ⟨hafter, Prod.ext hresult rfl⟩

/-- A launch that succeeds has bound its arguments and run with them. -/
theorem launch_eq_ok {live : Live} {size : Nat} {bindings : List Binding} {m m' : Machine}
    (hlaunch : launch live kernel bindings size m = (.ok (), m')) :
    ∃ outputs s₁ m₁,
      bindArguments live.context kernel m.memory 0 bindings m.simulator = (outputs, .ok (), s₁) ∧
      runBound live kernel size outputs { m with simulator := s₁ } = (.ok (), m₁) ∧
      m' = { m₁ with simulator := releaseOutputs outputs m₁.simulator } := by
  rw [launch] at hlaunch
  cases hbind : bindArguments live.context kernel m.memory 0 bindings m.simulator with
  | mk outputs more =>
    obtain ⟨result, s₁⟩ := more
    simp only [hbind] at hlaunch
    cases result with
    | error e => cases hlaunch
    | ok _ =>
      obtain ⟨hresult, hmachine⟩ := Prod.mk.inj hlaunch
      exact ⟨outputs, s₁, _, rfl, Prod.ext hresult rfl, hmachine.symm⟩

theorem releaseOutputs_quiet {keep : Object → Prop} {outputs : List Output}
    (h : ∀ output ∈ outputs, ¬ keep (.buffer output.buffer)) (s : Simulator) :
    Simulator.Quiet keep s (releaseOutputs outputs s) := by
  induction outputs generalizing s with
  | nil => exact .refl keep s
  | cons output rest ih =>
    have hfirst : Simulator.Quiet keep s (s.releaseObject (.buffer output.buffer)).2 :=
      .releaseObject (h output List.mem_cons_self)
    exact hfirst.trans (ih (fun o ho => h o (List.mem_cons_of_mem output ho)) _)

/-- Once its arguments are bound, a launch leaves all kernels alone. -/
theorem launch_frame (live : Live) (kernel : KernelId) (bindings : List Binding) (size : Nat)
    (m : Machine) :
    Simulator.Frame (fun o => ∃ id, o = .kernel id)
      (bindArguments live.context kernel m.memory 0 bindings m.simulator).2.2
      (launch live kernel bindings size m).2.simulator := by
  have hreleased (outputs : List Output) (s : Simulator) :
      Simulator.Frame (fun o => ∃ id, o = .kernel id) s (releaseOutputs outputs s) :=
    (releaseOutputs_quiet (fun _ _ => nofun) s).toFrame
  rw [launch]
  cases hbind : bindArguments live.context kernel m.memory 0 bindings m.simulator with
  | mk outputs more =>
    obtain ⟨result, s₁⟩ := more
    cases result with
    | error e => exact hreleased outputs s₁
    | ok _ =>
      refine Simulator.Frame.trans ?_ (hreleased outputs _)
      have hlaunched : Simulator.Frame (fun o => ∃ id, o = .kernel id) s₁
          (s₁.enqueueKernel live.queue kernel size).2 :=
        Simulator.enqueueKernel_snd (P := Simulator.Frame _ s₁) ⟨rfl, fun _ _ => rfl⟩
          (fun _ _ _ => ⟨rfl, fun _ _ => rfl⟩) live.queue kernel
      simp only [runBound]
      split <;> exact hlaunched

/-- The arguments of a launch as the device leaves them. -/
def argumentsAfter (m : Machine) (name : String) (size : Nat) (bindings : List Binding) :
    List LaunchArg :=
  m.simulator.runHook name size (bindings.map (Binding.argument m.memory))

theorem argumentsAfter_of_hook {m : Machine} (hhook : s.hook = m.simulator.hook) (name : String)
    (size : Nat) (bindings : List Binding) :
    argumentsAfter { m with simulator := s } name size bindings =
      argumentsAfter m name size bindings := by
  rw [argumentsAfter, argumentsAfter, Simulator.runHook, Simulator.runHook, hhook]

/-- No two arrays among some bindings share their storage. -/
def Separate (bindings : List Binding) : Prop :=
  (bindings.filterMap Binding.array?).Pairwise fun a b => a.sharesStorage b = false

/-- The device leaves every buffer as long as it was. -/
def KeepsLengths (mem : Memory) (bindings : List Binding) (after : List LaunchArg) : Prop :=
  ∀ (i : Nat) (a : SharedArray) (contents : List UInt8), bindings[i]? = some (.array a) →
    after[i]? = some (.buffer contents) → contents.length = (mem.toBytes a).length

theorem Separate.nodup {bindings : List Binding} (h : Separate bindings) :
    ((bindings.filterMap Binding.array?).map SharedArray.address).Nodup := by
  refine List.pairwise_map.2 (List.Pairwise.imp (fun hab heq => ?_) h)
  rw [SharedArray.sharesStorage, heq, beq_self_eq_true] at hab
  cases hab

theorem KeepsLengths.length_contentsAfter {bindings : List Binding} {after : List LaunchArg}
    (h : KeepsLengths mem bindings after) {i : Nat} {a : SharedArray}
    (ha : bindings[i]? = some (.array a)) :
    (Simulator.contentsAfter after i (mem.toBytes a)).length = (mem.toBytes a).length := by
  rw [Simulator.contentsAfter]
  split
  · rename_i contents hcontents
    exact h i a contents ha hcontents
  · rfl

/-- The arguments of a kernel with one for each binding are those that were bound just now. -/
theorem arguments_of_bound {bindings : List Binding} {bound : List Bound} {k : KernelObject}
    (hwithin : k.Within bindings.length) (hall : List.Forall₂ (Stored mem s) bindings bound)
    (hargs : ∀ i value, bound[i]? = some value →
      0 + i < UInt32.size ∧ k.args.get? (UInt32.ofNat (0 + i)) = some value) :
    Simulator.arguments? k = some bound := by
  refine Simulator.arguments?_eq (hall.length_eq ▸ hwithin) ?_ fun i value hi => ?_
  · by_contra hmany
    rw [Nat.not_le] at hmany
    have hlast := (hargs UInt32.size _ (List.getElem?_eq_getElem hmany)).1
    omega
  · have hi' := (hargs i value hi).2
    rwa [Nat.zero_add] at hi'

theorem nodup_buffers {outputs : List Output} (h : s.Owns n (made outputs ++ xs)) :
    (outputs.map Output.buffer).Nodup := by
  have hmade : made outputs = (outputs.map Output.buffer).map Object.buffer := by
    rw [made, List.map_map]
    rfl
  exact List.Nodup.of_map Object.buffer (hmade ▸ (List.nodup_append.1 h.nodup).1)

/-- After the results have been read back, an array holds what the device has left in its buffer. -/
theorem toBytes_of_readBack {bindings : List Binding} {bound : List Bound} {queue : QueueId}
    {name : String} {size : Nat} {mem' : Memory} (hstrict : s.Strict)
    (hall : List.Forall₂ (Stored mem s) bindings bound)
    (hnodup : (bound.filterMap Bound.buffer?).Nodup) (hseparate : Separate bindings)
    (hkeeps : KeepsLengths mem bindings
      (s.runHook name size (bindings.map (Binding.argument mem))))
    (hread : readBack queue (s.perform name size bound (bindings.map (Binding.argument mem)))
      ((bindings.zip bound).filterMap (output? mem)) mem = (.ok (), mem'))
    {i : Nat} {a : SharedArray} (ha : bindings[i]? = some (.array a)) :
    mem'.toBytes a = Simulator.contentsAfter
      (s.runHook name size (bindings.map (Binding.argument mem))) i (mem.toBytes a) := by
  obtain ⟨hi, hget⟩ := List.getElem?_eq_some_iff.1 ha
  have hi' : i < bound.length := hall.length_eq ▸ hi
  have hstored : Stored mem s bindings[i] bound[i] := (List.forall₂_iff_get.1 hall).2 i hi hi'
  rw [hget] at hstored
  obtain ⟨id, hid, hcontents⟩ := hstored
  have hbound : bound[i]? = some (.buffer id) := by rw [List.getElem?_eq_getElem hi', hid]
  have hzip : (Binding.array a, Bound.buffer id) ∈ bindings.zip bound :=
    List.mem_of_getElem? (List.getElem?_zip_eq_some.2 ⟨ha, hbound⟩)
  have houtput : (⟨a, id, (mem.toBytes a).length⟩ : Output) ∈
      (bindings.zip bound).filterMap (output? mem) := List.mem_filterMap.2 ⟨_, hzip, rfl⟩
  have haddresses : (((bindings.zip bound).filterMap (output? mem)).map
      (·.array.address)).Nodup := by
    have hsame := hseparate.nodup
    rwa [← map_array_outputs hall, List.map_map] at hsame
  have hafter : (s.perform name size bound (bindings.map (Binding.argument mem))).Strict := hstrict
  exact (readBack_of_ok hafter hread).2 haddresses _ houtput _
    (Simulator.get?_writeBacks hnodup hbound hcontents _) (hkeeps.length_contentsAfter ha)

/-- A launch that succeeds shows the device the current bindings, whatever was bound to the kernel
before, and the arrays get what the device leaves in their buffers. -/
theorem launch_of_ok {live : Live} {size : Nat} {name : String} {bindings : List Binding}
    {m m' : Machine} (h : m.simulator.Owns n xs) (hstrict : m.simulator.Strict)
    (hkernel : m.simulator.HasKernel kernel name bindings.length)
    (hlaunch : launch live kernel bindings size m = (.ok (), m')) :
    m'.simulator.launches =
        m.simulator.launches ++ [⟨name, size, bindings.map (Binding.argument m.memory)⟩] ∧
      (Separate bindings →
        KeepsLengths m.memory bindings (argumentsAfter m name size bindings) →
        ∀ i a, bindings[i]? = some (.array a) → m'.memory.toBytes a =
          Simulator.contentsAfter (argumentsAfter m name size bindings) i
            (m.memory.toBytes a)) := by
  obtain ⟨outputs, s₁, m₁, hbind, hrun, rfl⟩ := launch_eq_ok hlaunch
  have hquiet : Simulator.Quiet (Others xs kernel) m.simulator _ :=
    bindArguments_quiet h live.context kernel m.memory 0 bindings
  have howns := bindArguments_owns h live.context kernel m.memory 0 bindings
  obtain ⟨k, hk, rfl, hwithin⟩ := bindArguments_hasKernel hkernel (Nat.zero_add _).le
    live.context m.memory
  rw [hbind] at hquiet howns hk
  have hstrict₁ : s₁.Strict := hstrict.of_frame hquiet.toFrame
  obtain ⟨k₀, hk₀, -⟩ := hkernel
  obtain ⟨bound, k', hk', hall, houtputs, hargs, -⟩ := bindArguments_of_ok h hstrict hk₀ hbind
  obtain rfl := Option.some.inj (hk.symm.trans hk')
  obtain ⟨k₂, bound₂, args, hk₂, hbound₂, hargs₂, hperform, hread⟩ := runBound_of_ok hstrict₁ hrun
  obtain rfl := Option.some.inj (hk.symm.trans hk₂)
  obtain rfl := Option.some.inj ((arguments_of_bound hwithin hall hargs).symm.trans hbound₂)
  obtain rfl := Option.some.inj ((mapM_launchArg? hall).symm.trans hargs₂)
  refine ⟨?_, fun hseparate hkeeps i a ha => ?_⟩
  · have hreleased : Simulator.Quiet (fun _ => False) m₁.simulator
        (releaseOutputs outputs m₁.simulator) :=
      releaseOutputs_quiet (fun _ _ => id) m₁.simulator
    rw [hreleased.launches, hperform, Simulator.perform, hquiet.launches]
  · rw [← argumentsAfter_of_hook hquiet.hook] at hkeeps ⊢
    have hbuffers := nodup_buffers howns
    rw [houtputs, map_buffer_outputs hall] at hbuffers
    rw [hperform, houtputs] at hread
    exact toBytes_of_readBack hstrict₁ hall hbuffers hseparate hkeeps hread ha

end DeviceContext

end KernelForge.Launch
