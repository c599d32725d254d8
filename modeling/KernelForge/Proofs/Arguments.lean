import Mathlib
import KernelForge.Proofs.Objects

/-!
# Arguments of simulated kernels

A driver keeps what is bound to the arguments of a kernel until it is bound anew, and a launch takes
all of them. If no argument past the first `n` was ever bound and the first `n` have been bound just
now, a launch sees exactly these (`arguments?_eq`), and afterwards every bound buffer holds what the
device left in it (`get?_writeBacks`). Calls leave objects alone that have nothing to do with them
(`Quiet`).
-/

namespace KernelForge.Device

namespace Simulator

variable {n : Nat} {s s' : Simulator} {xs : List Object} {keep : Object → Prop}

/-! ### Leaving objects alone -/

/-- The injected failures and the kernels in question are as they were. -/
structure Frame (keep : Object → Prop) (s s' : Simulator) : Prop where
  failures : s'.failures = s.failures
  kernels : ∀ id, keep (.kernel id) → s'.kernels.get? id = s.kernels.get? id

/-- Nothing was launched, and the objects in question are as they were. -/
structure Quiet (keep : Object → Prop) (s s' : Simulator) : Prop extends Frame keep s s' where
  buffers : ∀ id, keep (.buffer id) → s'.buffers.get? id = s.buffers.get? id
  hook : s'.hook = s.hook
  launches : s'.launches = s.launches

theorem Frame.trans {after : Simulator} (h : Frame keep s after) (h' : Frame keep after s') :
    Frame keep s s' where
  failures := h'.failures.trans h.failures
  kernels id hid := (h'.kernels id hid).trans (h.kernels id hid)

theorem Frame.mono {keep' : Object → Prop} (h : Frame keep s s') (hsub : ∀ o, keep' o → keep o) :
    Frame keep' s s' where
  failures := h.failures
  kernels id hid := h.kernels id (hsub _ hid)

namespace Quiet

theorem refl (keep : Object → Prop) (s : Simulator) : Quiet keep s s where
  failures := rfl
  kernels _ _ := rfl
  buffers _ _ := rfl
  hook := rfl
  launches := rfl

theorem trans {after : Simulator} (h : Quiet keep s after) (h' : Quiet keep after s') :
    Quiet keep s s' where
  toFrame := h.toFrame.trans h'.toFrame
  buffers id hid := (h'.buffers id hid).trans (h.buffers id hid)
  hook := h'.hook.trans h.hook
  launches := h'.launches.trans h.launches

theorem mono {keep' : Object → Prop} (h : Quiet keep s s') (hsub : ∀ o, keep' o → keep o) :
    Quiet keep' s s' where
  toFrame := h.toFrame.mono hsub
  buffers id hid := h.buffers id (hsub _ hid)
  hook := h.hook
  launches := h.launches

/-- A call leaves alone what its success leaves alone. -/
theorem attempt {α : Type} {call : Call} {outcome : Except Status (α × Simulator)}
    (h : ∀ a after, outcome = .ok (a, after) → Quiet keep s after) :
    Quiet keep s (s.attempt call outcome).2 :=
  attempt_snd (P := Quiet keep s) (refl keep s) h

/-- What has the same failures, kernels and buffers and has launched nothing. -/
theorem of_eq (hfailures : s'.failures = s.failures) (hkernels : s'.kernels = s.kernels)
    (hbuffers : s'.buffers = s.buffers) (hhook : s'.hook = s.hook)
    (hlaunches : s'.launches = s.launches) : Quiet keep s s' where
  failures := hfailures
  kernels _ _ := by rw [hkernels]
  buffers _ _ := by rw [hbuffers]
  hook := hhook
  launches := hlaunches

theorem createContext (keep : Object → Prop) (s : Simulator) (platform : PlatformId)
    (device : DeviceId) : Quiet keep s (s.createContext platform device).2 := by
  refine attempt fun a after h => ?_
  split_ifs at h
  cases h
  exact of_eq rfl rfl rfl rfl rfl

theorem createQueue (keep : Object → Prop) (s : Simulator) (context : ContextId)
    (device : DeviceId) : Quiet keep s (s.createQueue context device).2 := by
  refine attempt fun a after h => ?_
  split_ifs at h
  cases h
  exact of_eq rfl rfl rfl rfl rfl

theorem createProgram (keep : Object → Prop) (s : Simulator) (context : ContextId)
    (source : String) : Quiet keep s (s.createProgram context source).2 := by
  refine attempt fun a after h => ?_
  split_ifs at h
  cases h
  exact of_eq rfl rfl rfl rfl rfl

theorem buildProgram (keep : Object → Prop) (s : Simulator) (program : ProgramId) :
    Quiet keep s (s.buildProgram program).2 := by
  have hcounted : Quiet keep s { s with builds := s.builds + 1 } := of_eq rfl rfl rfl rfl rfl
  refine hcounted.trans (attempt fun a after h => ?_)
  split_ifs at h
  cases h
  exact of_eq rfl rfl rfl rfl rfl

theorem createKernel (h : s.Owns n xs) (hkeep : ∀ o, keep o → o ∈ xs) (program : ProgramId)
    (name : String) : Quiet keep s (s.createKernel program name).2 := by
  refine attempt fun a after houtcome => ?_
  split at houtcome
  · cases houtcome
  split_ifs at houtcome
  cases houtcome
  refine ⟨⟨rfl, fun id hid => ?_⟩, fun _ _ => rfl, rfl, rfl⟩
  refine (Table.get?_insert ..).trans (if_neg ?_)
  rintro rfl
  exact Nat.lt_irrefl _ (h.fresh _ (hkeep _ hid))

theorem createBuffer (h : s.Owns n xs) (hkeep : ∀ o, keep o → o ∈ xs) (context : ContextId)
    (contents : List UInt8) : Quiet keep s (s.createBuffer context contents).2 := by
  refine attempt fun a after houtcome => ?_
  split_ifs at houtcome
  cases houtcome
  refine ⟨⟨rfl, fun _ _ => rfl⟩, fun id hid => ?_, rfl, rfl⟩
  refine (Table.get?_insert ..).trans (if_neg ?_)
  rintro rfl
  exact Nat.lt_irrefl _ (h.fresh _ (hkeep _ hid))

theorem setKernelArg {kernel : KernelId} (hkernel : ¬ keep (.kernel kernel)) (index : UInt32)
    (value : Bound) : Quiet keep s (s.setKernelArg kernel index value).2 := by
  refine attempt fun a after h => ?_
  split_ifs at h
  cases h
  refine ⟨⟨rfl, fun id hid => ?_⟩, fun _ _ => rfl, rfl, rfl⟩
  refine (Table.get?_modify ..).trans (if_neg ?_)
  rintro rfl
  exact hkernel hid

theorem release {present : Bool} {missing : Status} {resource : Resource} {after : Simulator}
    (h : Quiet keep s after) : Quiet keep s (s.release present missing resource after).2 := by
  rw [Simulator.release]
  split_ifs
  · exact h.trans (of_eq rfl rfl rfl rfl rfl)
  · exact refl keep s

theorem releaseObject {o : Object} (ho : ¬ keep o) : Quiet keep s (s.releaseObject o).2 := by
  cases o with
  | context id => exact release (of_eq rfl rfl rfl rfl rfl)
  | queue id => exact release (of_eq rfl rfl rfl rfl rfl)
  | program id => exact release (of_eq rfl rfl rfl rfl rfl)
  | kernel id =>
    refine release ⟨⟨rfl, fun other hother => ?_⟩, fun _ _ => rfl, rfl, rfl⟩
    refine (Table.get?_erase ..).trans (if_neg ?_)
    rintro rfl
    exact ho hother
  | buffer id =>
    refine release ⟨⟨rfl, fun _ _ => rfl⟩, fun other hother => ?_, rfl, rfl⟩
    refine (Table.get?_erase ..).trans (if_neg ?_)
    rintro rfl
    exact ho hother

theorem releases {os : List Object} (h : Releases s os s') (hos : ∀ o ∈ os, ¬ keep o) :
    Quiet keep s s' := by
  induction h with
  | nil s => exact refl keep s
  | @cons s after s' o rest hrelease _ ih =>
    have hfirst : Quiet keep s (s.releaseObject o).2 := releaseObject (hos o List.mem_cons_self)
    rw [hrelease] at hfirst
    exact hfirst.trans (ih fun o' ho' => hos o' (List.mem_cons_of_mem o ho'))

end Quiet

/-! ### Calls that succeed -/

/-- No injected failure passes for a success. -/
def Strict (s : Simulator) : Prop :=
  ∀ call status, s.failures.get? call = some status → status ≠ .success

theorem Strict.of_frame (h : s.Strict) (hframe : Frame keep s s') : s'.Strict := by
  rw [Strict, hframe.failures]
  exact h

theorem Strict.fail (h : s.Strict) {call : String} {status : Status} (hstatus : status ≠ .success) :
    (s.fail call status).Strict := by
  intro name other hother
  rw [Simulator.fail, Table.get?_insert] at hother
  split_ifs at hother
  · cases hother
    exact hstatus
  · exact h name other hother

theorem Strict.failure?_ne (h : s.Strict) (call : Call) : s.failure? call ≠ some .success :=
  fun hfailure => h _ _ hfailure rfl

/-- A call that reports success did what it is for. -/
theorem Strict.attempt_eq (h : s.Strict) {call : Call} {outcome : Except Status (Unit × Simulator)}
    (hsuccess : statusOf (s.attempt call outcome).1 = .success)
    (hrefused : ∀ status, outcome = .error status → status ≠ .success) :
    ∃ after, outcome = .ok ((), after) ∧ (s.attempt call outcome).2 = after := by
  cases hattempt : s.attempt call outcome with
  | mk result after =>
    rw [hattempt] at hsuccess
    cases result with
    | ok a => exact ⟨after, attempt_eq_ok hattempt, rfl⟩
    | error status =>
      obtain rfl : status = .success := hsuccess
      rw [attempt] at hattempt
      cases hfailure : s.failure? call with
      | some status =>
        rw [hfailure] at hattempt
        cases hattempt
        exact absurd hfailure (h.failure?_ne call)
      | none =>
        rw [hfailure] at hattempt
        cases outcome with
        | ok a => cases hattempt
        | error status =>
          cases hattempt
          exact absurd rfl (hrefused _ rfl)

theorem setKernelArg_of_success (h : s.Strict) {kernel : KernelId} {index : UInt32} {value : Bound}
    (hsuccess : (s.setKernelArg kernel index value).1 = .success) :
    (s.setKernelArg kernel index value).2 =
      { s with kernels := s.kernels.modify kernel fun k =>
        { k with args := k.args.insert index value } } := by
  obtain ⟨after, houtcome, hafter⟩ := h.attempt_eq hsuccess fun status hstatus => by
    split_ifs at hstatus <;> cases hstatus <;> decide
  refine Eq.trans hafter ?_
  split_ifs at houtcome
  cases houtcome
  rfl

theorem enqueueKernel_of_success (h : s.Strict) {queue : QueueId} {kernel : KernelId} {size : Nat}
    (hsuccess : (s.enqueueKernel queue kernel size).1 = .success) :
    ∃ k bound args, s.kernels.get? kernel = some k ∧ arguments? k = some bound ∧
      bound.mapM s.launchArg? = some args ∧
      (s.enqueueKernel queue kernel size).2 = s.perform k.name size bound args := by
  obtain ⟨after, houtcome, hafter⟩ := h.attempt_eq hsuccess fun status hstatus => by
    split_ifs at hstatus
    · cases hstatus
      decide
    split at hstatus
    · cases hstatus
      decide
    split at hstatus
    · cases hstatus
      decide
    split at hstatus <;> cases hstatus
    decide
  split_ifs at houtcome
  split at houtcome
  · cases houtcome
  rename_i k hk
  split at houtcome
  · cases houtcome
  rename_i bound hbound
  split at houtcome
  · cases houtcome
  rename_i args hargs
  cases houtcome
  exact ⟨k, bound, args, hk, hbound, hargs, hafter⟩

theorem readBuffer_of_success (h : s.Strict) {queue : QueueId} {id : MemId} {size : Nat}
    (hsuccess : (s.readBuffer queue id size).1 = .success) :
    ∃ contents, s.buffers.get? id = some contents ∧ size ≤ contents.length ∧
      (s.readBuffer queue id size).2 = contents.take size := by
  rw [readBuffer] at hsuccess ⊢
  cases hfailure : s.failure? .readBuffer with
  | some status =>
    rw [hfailure] at hsuccess
    obtain rfl : status = .success := hsuccess
    exact absurd hfailure (h.failure?_ne _)
  | none =>
    simp only [hfailure] at hsuccess ⊢
    split_ifs at hsuccess ⊢
    · cases hsuccess
    · cases hbuffer : s.buffers.get? id with
      | none =>
        rw [hbuffer] at hsuccess
        cases hsuccess
      | some contents =>
        simp only [hbuffer] at hsuccess ⊢
        split_ifs at hsuccess ⊢ with hlength
        · cases hsuccess
        · exact ⟨contents, rfl, Nat.le_of_not_lt hlength, rfl⟩

end Simulator

/-! ### The arguments of a kernel -/

/-- No argument is bound past the first `n`. -/
structure KernelObject.Within (k : KernelObject) (n : Nat) : Prop where
  nodup : k.args.keys.Nodup
  lt : ∀ index ∈ k.args.keys, index.toNat < n

theorem KernelObject.Within.insert {k : KernelObject} {n : Nat} {index : UInt32} (h : k.Within n)
    (hindex : index.toNat < n) (value : Bound) :
    KernelObject.Within { k with args := k.args.insert index value } n where
  nodup := Table.nodup_keys_insert h.nodup index value
  lt := by
    intro j hj
    rw [Table.keys_insert, List.mem_append, List.mem_singleton] at hj
    obtain hold | rfl := hj
    · exact h.lt j (List.mem_filter.1 hold).1
    · exact hindex

/-- The buffer that an argument is bound to. -/
def Bound.buffer? : Bound → Option MemId
  | .bytes _ => none
  | .buffer id => some id

theorem mapM_of_forall₂ {α β : Type} {f : α → Option β} {as : List α} {bs : List β}
    (h : List.Forall₂ (fun a b => f a = some b) as bs) : as.mapM f = some bs := by
  induction h with
  | nil => rfl
  | cons hfirst _ ih => simp [List.mapM_cons, hfirst, ih]

namespace Simulator

variable {n : Nat} {s s' : Simulator} {keep : Object → Prop}

/-- If nothing is bound past the arguments that are given, a launch takes exactly these. -/
theorem arguments?_eq {k : KernelObject} {bound : List Bound} (h : k.Within bound.length)
    (hsize : bound.length ≤ UInt32.size)
    (hbound : ∀ i value, bound[i]? = some value → k.args.get? (UInt32.ofNat i) = some value) :
    arguments? k = some bound := by
  have htoNat {i : Nat} (hi : i < bound.length) : (UInt32.ofNat i).toNat = i :=
    UInt32.toNat_ofNat_of_lt' (Nat.lt_of_lt_of_le hi hsize)
  have hperm : (k.args.keys.map UInt32.toNat).Perm (List.range bound.length) := by
    have hinj : Function.Injective UInt32.toNat := fun _ _ => UInt32.toNat_inj.1
    refine (List.perm_ext_iff_of_nodup (h.nodup.map hinj) List.nodup_range).2 fun i => ?_
    rw [List.mem_range]
    constructor
    · intro hi
      obtain ⟨index, hindex, rfl⟩ := List.mem_map.1 hi
      exact h.lt index hindex
    · intro hi
      refine List.mem_map.2 ⟨UInt32.ofNat i, ?_, htoNat hi⟩
      exact Table.contains_iff.1
        (Table.contains_of_get? (hbound i _ (List.getElem?_eq_getElem hi)))
  have hcount : k.args.size = bound.length := by
    rw [← Table.length_keys, ← List.length_map UInt32.toNat, hperm.length_eq, List.length_range]
  rw [arguments?, hcount]
  refine mapM_of_forall₂ (List.forall₂_iff_get.2 ⟨List.length_range, fun i _ hi => ?_⟩)
  rw [List.get_eq_getElem, List.getElem_range]
  exact hbound i _ (List.getElem?_eq_getElem hi)

/-- There is a kernel of a name, and no argument past the first `n` is bound. -/
def HasKernel (s : Simulator) (id : KernelId) (name : String) (n : Nat) : Prop :=
  ∃ k, s.kernels.get? id = some k ∧ k.name = name ∧ k.Within n

theorem HasKernel.of_frame {id : KernelId} {name : String} (h : s.HasKernel id name n)
    (hframe : Frame keep s s') (hkeep : keep (.kernel id)) : s'.HasKernel id name n := by
  obtain ⟨k, hk, hrest⟩ := h
  exact ⟨k, (hframe.kernels id hkeep).trans hk, hrest⟩

theorem hasKernel_createKernel {program : ProgramId} {name : String} {id : KernelId}
    (h : s.createKernel program name = (.ok id, s')) (n : Nat) : s'.HasKernel id name n := by
  have houtcome := attempt_eq_ok h
  split at houtcome
  · cases houtcome
  split_ifs at houtcome
  cases houtcome
  refine ⟨{ name }, (Table.get?_insert ..).trans (if_pos rfl), rfl, List.nodup_nil, ?_⟩
  simp [Table.keys]

theorem HasKernel.setKernelArg {id : KernelId} {name : String} {index : UInt32}
    (h : s.HasKernel id name n) (hindex : index.toNat < n) (value : Bound) :
    (s.setKernelArg id index value).2.HasKernel id name n := by
  obtain ⟨k, hk, hname, hwithin⟩ := h
  refine attempt_snd (P := (HasKernel · id name n)) ⟨k, hk, hname, hwithin⟩ fun _ _ houtcome => ?_
  split_ifs at houtcome
  cases houtcome
  refine ⟨{ k with args := k.args.insert index value }, (Table.get?_modify ..).trans ?_, hname,
    hwithin.insert hindex value⟩
  rw [if_pos rfl, hk]
  rfl

/-! ### What a launch leaves -/

/-- What the device has left in the buffer of an argument, which held given bytes before. -/
def contentsAfter (after : List LaunchArg) (i : Nat) (before : List UInt8) : List UInt8 :=
  match after[i]? with
  | some (.buffer contents) => contents
  | _ => before

theorem get?_writeBack_of_ne {buffers : Table MemId (List UInt8)} {b : Bound} {id : MemId}
    (h : b.buffer? ≠ some id) (arg : LaunchArg) :
    (writeBack buffers (b, arg)).get? id = buffers.get? id := by
  unfold writeBack
  split
  · rename_i other contents heq
    cases heq
    rw [Table.get?_modify, if_neg fun hid => h (congrArg some hid.symm)]
  · rfl

theorem get?_writeBacks_of_not_mem {bound : List Bound} {id : MemId}
    (h : id ∉ bound.filterMap Bound.buffer?) (after : List LaunchArg)
    (buffers : Table MemId (List UInt8)) :
    ((bound.zip after).foldl writeBack buffers).get? id = buffers.get? id := by
  induction bound generalizing after buffers with
  | nil => rfl
  | cons b rest ih =>
    cases after with
    | nil => rfl
    | cons arg after =>
      rw [List.mem_filterMap, not_exists] at h
      have hrest : id ∉ rest.filterMap Bound.buffer? := by
        rw [List.mem_filterMap, not_exists]
        exact fun b' hb' => h b' ⟨List.mem_cons_of_mem b hb'.1, hb'.2⟩
      rw [List.zip_cons_cons, List.foldl_cons, ih hrest,
        get?_writeBack_of_ne fun hb => h b ⟨List.mem_cons_self, hb⟩]

/-- If no buffer is bound twice, each holds afterwards what the device left in it. -/
theorem get?_writeBacks {bound : List Bound} {i : Nat} {id : MemId} {contents : List UInt8}
    {buffers : Table MemId (List UInt8)} (hnodup : (bound.filterMap Bound.buffer?).Nodup)
    (hi : bound[i]? = some (.buffer id)) (hid : buffers.get? id = some contents)
    (after : List LaunchArg) :
    ((bound.zip after).foldl writeBack buffers).get? id =
      some (contentsAfter after i contents) := by
  induction bound generalizing i after buffers with
  | nil => cases hi
  | cons b rest ih =>
    cases after with
    | nil => exact hid
    | cons arg after =>
      rw [List.zip_cons_cons, List.foldl_cons]
      cases i with
      | zero =>
        obtain rfl : b = .buffer id := Option.some.inj hi
        have hself : Bound.buffer? (.buffer id) = some id := rfl
        rw [List.filterMap_cons_some hself, List.nodup_cons] at hnodup
        rw [get?_writeBacks_of_not_mem hnodup.1]
        cases arg with
        | bytes value => exact hid
        | buffer contents' => simp [writeBack, hid, contentsAfter]
      | succ i =>
        have hmem : id ∈ rest.filterMap Bound.buffer? :=
          List.mem_filterMap.2 ⟨_, List.mem_of_getElem? hi, rfl⟩
        have hrest : (rest.filterMap Bound.buffer?).Nodup := by
          rw [List.filterMap_cons] at hnodup
          split at hnodup
          · exact hnodup
          · exact (List.nodup_cons.1 hnodup).2
        have hother : b.buffer? ≠ some id := by
          intro hb
          rw [List.filterMap_cons_some hb, List.nodup_cons] at hnodup
          exact hnodup.1 hmem
        exact ih hrest hi ((get?_writeBack_of_ne hother arg).trans hid) after

end Simulator

end KernelForge.Device
