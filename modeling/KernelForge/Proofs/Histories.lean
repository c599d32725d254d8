import Mathlib
import KernelForge.Proofs.Ownership

/-!
# Histories of device contexts

A desk is a driver, the memory of the host and the device contexts that have been opened on it. A
history is a list of actions: contexts are opened, used and closed, entry points are made to fail,
and the device is given something to run. After any history the objects of the driver are those that
the open contexts hold, each once (`Balanced.run`), and an open context holds a program and a kernel
for each key that it has built (`holds_run`). Nothing leaks (`no_leak`).
-/

namespace KernelForge.Launch

open Device

/-- A driver, the memory of the host, and the contexts opened so far. -/
structure Desk where
  machine : Machine := {}
  contexts : List DeviceContext := []

/-- Something that is done at a desk. Contexts are numbered in the order in which they were opened,
and an action on a number that no context has does nothing. -/
inductive Action
  | create (platform : PlatformId) (device : DeviceProfile)
  | compute (context size : Nat) (kernel : Kernel)
  | source (context : Nat) (kernel : Kernel)
  | close (context : Nat)
  /-- Make an entry point fail. -/
  | fail (call : String) (status : Status)
  | failBuild (log : String)
  /-- Give the device something to run. -/
  | onLaunch (hook : Hook)
  /-- Change the memory of the host. -/
  | write (memory : Memory)

/-- The context that an action asks for a kernel. -/
def Action.asks? : Action → Option (Nat × Kernel)
  | .compute context _ kernel => some (context, kernel)
  | .source context kernel => some (context, kernel)
  | _ => none

namespace Desk

/-- A desk with a driver that nobody has used. -/
def ofPlatforms (platforms : List PlatformModel) : Desk where
  machine := { simulator := Simulator.ofPlatforms platforms }

/-- Change the driver. -/
def onDriver (d : Desk) (f : Simulator → Simulator) : Desk :=
  { d with machine := { d.machine with simulator := f d.machine.simulator } }

/-- Use the context of a number. -/
def onContext (d : Desk) (context : Nat)
    (use : DeviceContext → Machine → DeviceContext × Machine) : Desk :=
  match d.contexts[context]? with
  | none => d
  | some cx =>
    let (cx, machine) := use cx d.machine
    { machine, contexts := d.contexts.set context cx }

/-- Do something. -/
def act (d : Desk) : Action → Desk
  | .create platform device =>
    match DeviceContext.create platform device d.machine.simulator with
    | (.ok cx, s) => { d.onDriver fun _ => s with contexts := d.contexts ++ [cx] }
    | (.error _, s) => d.onDriver fun _ => s
  | .compute context size kernel => d.onContext context fun cx m => (cx.compute size kernel m).2
  | .source context kernel => d.onContext context fun cx m =>
    let (_, cx, simulator) := cx.source kernel m.simulator
    (cx, { m with simulator })
  | .close context => d.onContext context fun cx m =>
    let (_, cx, simulator) := cx.close m.simulator
    (cx, { m with simulator })
  | .fail call status => d.onDriver (·.fail call status)
  | .failBuild log => d.onDriver (·.failBuild log)
  | .onLaunch hook => d.onDriver fun s => { s with hook := some hook }
  | .write memory => { d with machine := { d.machine with memory } }

/-- Do one thing after the other. -/
def run (d : Desk) (actions : List Action) : Desk :=
  actions.foldl act d

/-! ### The account of a desk -/

/-- The driver has exactly the objects that the contexts hold. -/
structure Balanced (n : Nat) (d : Desk) : Prop where
  owns : d.machine.simulator.Owns n (d.contexts.flatMap DeviceContext.objects)
  tidy : ∀ cx ∈ d.contexts, cx.cache.Tidy

variable {n : Nat} {d : Desk} {action : Action}

namespace Balanced

theorem start (platforms : List PlatformModel) :
    Balanced (Simulator.ofPlatforms platforms).handles (ofPlatforms platforms) where
  owns := Simulator.Owns.ofPlatforms platforms
  tidy := by simp [ofPlatforms]

theorem onDriver (h : Balanced n d) (f : Simulator → Simulator)
    (hobjects : (f d.machine.simulator).objects = d.machine.simulator.objects)
    (hhandles : (f d.machine.simulator).handles = d.machine.simulator.handles)
    (hreleased : (f d.machine.simulator).released = d.machine.simulator.released) :
    Balanced n (d.onDriver f) where
  owns := h.owns.of_eq hobjects hhandles hreleased
  tidy := h.tidy

/-- Each context keeps its account, with the objects of the other contexts left to others. -/
theorem context (h : Balanced n d) {i : Nat} {cx : DeviceContext}
    (hcx : d.contexts[i]? = some cx) :
    cx.Balanced n ((d.contexts.eraseIdx i).flatMap DeviceContext.objects) d.machine.simulator := by
  obtain ⟨hlt, hget⟩ := List.getElem?_eq_some_iff.1 hcx
  have hself := (List.set_perm_cons_eraseIdx hlt cx).flatMap_right DeviceContext.objects
  rw [← hget, List.set_getElem_self, hget] at hself
  exact ⟨h.owns.of_perm hself, h.tidy cx (hget ▸ List.getElem_mem hlt)⟩

/-- A context that keeps its own account keeps that of the desk. -/
theorem onContext (h : Balanced n d) (i : Nat)
    (use : DeviceContext → Machine → DeviceContext × Machine)
    (huse : ∀ xs cx, cx.Balanced n xs d.machine.simulator →
      (use cx d.machine).1.Balanced n xs (use cx d.machine).2.simulator) :
    Balanced n (d.onContext i use) := by
  rw [Desk.onContext]
  cases hcx : d.contexts[i]? with
  | none => exact h
  | some cx =>
    have hnew := huse _ cx (h.context hcx)
    have hlt := (List.getElem?_eq_some_iff.1 hcx).1
    have hset := (List.set_perm_cons_eraseIdx hlt (use cx d.machine).1).flatMap_right
      DeviceContext.objects
    refine ⟨hnew.owns.of_perm hset.symm, ?_⟩
    intro cx' hcx'
    obtain hold | rfl := List.mem_or_eq_of_mem_set hcx'
    · exact h.tidy cx' hold
    · exact hnew.tidy

theorem act (h : Balanced n d) (action : Action) : Balanced n (d.act action) := by
  cases action with
  | create platform device =>
    rw [Desk.act]
    cases hcreate : DeviceContext.create platform device d.machine.simulator with
    | mk result s =>
      cases result with
      | error e => exact ⟨DeviceContext.create_error h.owns hcreate, h.tidy⟩
      | ok cx =>
        obtain ⟨howns, hcache⟩ := DeviceContext.create_ok h.owns hcreate
        refine ⟨howns.of_perm ?_, ?_⟩
        · rw [List.flatMap_append, List.flatMap_singleton]
          exact List.perm_append_comm
        · intro cx' hcx'
          rw [List.mem_append, List.mem_singleton] at hcx'
          obtain hold | rfl := hcx'
          · exact h.tidy cx' hold
          · rw [hcache]
            exact Cache.Tidy.empty
  | compute context size kernel =>
    exact h.onContext context (fun cx m => (cx.compute size kernel m).2)
      fun xs cx hcx => hcx.compute size kernel
  | source context kernel =>
    exact h.onContext context
      (fun cx m => ((cx.source kernel m.simulator).2.1,
        { m with simulator := (cx.source kernel m.simulator).2.2 }))
      fun xs cx hcx => hcx.source kernel
  | close context =>
    exact h.onContext context
      (fun cx m => ((cx.close m.simulator).2.1,
        { m with simulator := (cx.close m.simulator).2.2 }))
      fun xs cx hcx => hcx.closed
  | fail call status => exact h.onDriver (·.fail call status) rfl rfl rfl
  | failBuild log => exact h.onDriver (·.failBuild log) rfl rfl rfl
  | onLaunch hook => exact h.onDriver (fun s => { s with hook := some hook }) rfl rfl rfl
  | write memory => exact ⟨h.owns, h.tidy⟩

/-- After any history the driver has exactly the objects that the contexts hold. -/
theorem run (h : Balanced n d) (actions : List Action) : Balanced n (d.run actions) := by
  induction actions generalizing d with
  | nil => exact h
  | cons action rest ih => exact ih (h.act action)

end Balanced

/-! ### The contexts of a desk -/

variable {i key : Nat} {cx : DeviceContext}

theorem getElem?_onContext (hcx : d.contexts[i]? = some cx) (j : Nat)
    (use : DeviceContext → Machine → DeviceContext × Machine) :
    (d.onContext j use).contexts[i]? = some (if j = i then (use cx d.machine).1 else cx) := by
  rw [onContext]
  by_cases hj : j = i
  · subst hj
    obtain ⟨hlt, -⟩ := List.getElem?_eq_some_iff.1 hcx
    rw [if_pos rfl, hcx]
    exact List.getElem?_set_self hlt
  · cases d.contexts[j]? with
    | none => simp [hcx, hj]
    | some other => simp [hcx, hj]

theorem length_onContext (d : Desk) (j : Nat)
    (use : DeviceContext → Machine → DeviceContext × Machine) :
    (d.onContext j use).contexts.length = d.contexts.length := by
  rw [onContext]
  split
  · rfl
  · exact List.length_set ..

/-- What an action makes of the context of a number. -/
def effect (d : Desk) (i : Nat) (cx : DeviceContext) : Action → DeviceContext
  | .compute j _ kernel => if j = i then (cx.source kernel d.machine.simulator).2.1 else cx
  | .source j kernel => if j = i then (cx.source kernel d.machine.simulator).2.1 else cx
  | .close j => if j = i then (cx.close d.machine.simulator).2.1 else cx
  | _ => cx

theorem getElem?_act (hcx : d.contexts[i]? = some cx) (action : Action) :
    (d.act action).contexts[i]? = some (d.effect i cx action) := by
  cases action with
  | create platform device =>
    obtain ⟨hlt, -⟩ := List.getElem?_eq_some_iff.1 hcx
    rw [act]
    split
    · exact (List.getElem?_append_left hlt).trans hcx
    · exact hcx
  | compute j size kernel =>
    rw [act, getElem?_onContext hcx, effect, DeviceContext.compute_context]
  | source j kernel => exact getElem?_onContext hcx j _
  | close j => exact getElem?_onContext hcx j _
  | fail call status => exact hcx
  | failBuild log => exact hcx
  | onLaunch hook => exact hcx
  | write memory => exact hcx

/-- A context that was not there before has built nothing. -/
theorem cache_of_new (h : Balanced n d) (hnone : d.contexts[i]? = none)
    (hcx : (d.act action).contexts[i]? = some cx) : cx.cache = {} := by
  have hlength : d.contexts.length ≤ i := List.getElem?_eq_none_iff.1 hnone
  have hsame (h : (d.act action).contexts.length = d.contexts.length) : cx.cache = {} := by
    have hlt := (List.getElem?_eq_some_iff.1 hcx).1
    omega
  cases action with
  | create platform device =>
    cases hcreate : DeviceContext.create platform device d.machine.simulator with
    | mk result s =>
      rw [act, hcreate] at hcx
      cases result with
      | error e => exact absurd (hnone.symm.trans hcx) (by simp)
      | ok new =>
        simp only [List.getElem?_append_right hlength, List.getElem?_singleton] at hcx
        split_ifs at hcx
        cases hcx
        exact (DeviceContext.create_ok h.owns hcreate).2
  | compute j size kernel => exact hsame (length_onContext d j _)
  | source j kernel => exact hsame (length_onContext d j _)
  | close j => exact hsame (length_onContext d j _)
  | fail call status => exact hsame rfl
  | failBuild log => exact hsame rfl
  | onLaunch hook => exact hsame rfl
  | write memory => exact hsame rfl

/-- Nothing happens to a closed context. -/
theorem effect_of_none (hclosed : cx.live = none) (action : Action) :
    d.effect i cx action = cx := by
  cases action <;>
    simp [effect, DeviceContext.source_of_none hclosed, DeviceContext.close_of_none hclosed]

/-- A closed context stays as it is. -/
theorem closed_run (hcx : d.contexts[i]? = some cx) (hclosed : cx.live = none)
    (actions : List Action) : (d.run actions).contexts[i]? = some cx := by
  induction actions generalizing d with
  | nil => exact hcx
  | cons action rest ih =>
    refine ih ?_
    rw [getElem?_act hcx, effect_of_none hclosed]

/-! ### What has been built -/

/-- A context asks for the artifact of a key. -/
def Builds (d : Desk) (i key : Nat) (action : Action) : Prop :=
  ∃ cx kernel, action.asks? = some (i, kernel) ∧ kernel.key = key ∧ d.contexts[i]? = some cx ∧
    cx.Builds kernel d.machine.simulator

/-- At some point of a history the artifact of a key is asked for and can be built. -/
def Built (i key : Nat) : Desk → List Action → Prop
  | _, [] => False
  | d, action :: rest => d.Builds i key action ∨ Built i key (d.act action) rest

/-- The context of a number holds a program and a kernel for a key. -/
def Holds (d : Desk) (i key : Nat) : Prop :=
  ∃ cx, d.contexts[i]? = some cx ∧ key ∈ cx.keys

theorem holds_iff (hcx : d.contexts[i]? = some cx) : d.Holds i key ↔ key ∈ cx.keys := by
  simp [Holds, hcx]

theorem builds_iff (hcx : d.contexts[i]? = some cx) :
    d.Builds i key action ↔ ∃ kernel, action.asks? = some (i, kernel) ∧ kernel.key = key ∧
      cx.Builds kernel d.machine.simulator := by
  simp [Builds, hcx]

/-- An action that does not close a context adds the key that it builds. -/
theorem mem_keys_effect (htidy : cx.cache.Tidy) (hopen : (d.effect i cx action).live.isSome) :
    key ∈ (d.effect i cx action).keys ↔ key ∈ cx.keys ∨
      ∃ kernel, action.asks? = some (i, kernel) ∧ kernel.key = key ∧
        cx.Builds kernel d.machine.simulator := by
  cases action with
  | compute j size kernel =>
    rw [effect, Action.asks?]
    split_ifs with hj
    · rw [DeviceContext.mem_keys_source htidy]
      simp [hj]
    · simp [hj]
  | source j kernel =>
    rw [effect, Action.asks?]
    split_ifs with hj
    · rw [DeviceContext.mem_keys_source htidy]
      simp [hj]
    · simp [hj]
  | close j =>
    rw [effect] at hopen ⊢
    split_ifs at hopen ⊢ with hj
    · rw [DeviceContext.live_close] at hopen
      cases hopen
    · simp [Action.asks?]
  | create platform device => simp [effect, Action.asks?]
  | fail call status => simp [effect, Action.asks?]
  | failBuild log => simp [effect, Action.asks?]
  | onLaunch hook => simp [effect, Action.asks?]
  | write memory => simp [effect, Action.asks?]

/-- What a context that is open holds after an action. -/
theorem holds_act (h : Balanced n d)
    (hopen : ∀ cx, (d.act action).contexts[i]? = some cx → cx.live.isSome) :
    (d.act action).Holds i key ↔ d.Holds i key ∨ d.Builds i key action := by
  cases hcx : d.contexts[i]? with
  | some cx =>
    have hnext := getElem?_act hcx action
    rw [holds_iff hnext, holds_iff hcx, builds_iff hcx]
    exact mem_keys_effect (h.context hcx).tidy (hopen _ hnext)
  | none =>
    have hnothing : ¬ (d.act action).Holds i key := by
      rintro ⟨cx, hnew, hkey⟩
      rw [DeviceContext.keys, cache_of_new h hcx hnew] at hkey
      cases hkey
    rw [iff_false_left hnothing]
    simp [Holds, Builds, hcx]

/-- An open context holds a program and a kernel for a key if it held them, or has built them. -/
theorem holds_run (h : Balanced n d) {actions : List Action}
    (hopen : ∀ cx, (d.run actions).contexts[i]? = some cx → cx.live.isSome) :
    (d.run actions).Holds i key ↔ d.Holds i key ∨ Built i key d actions := by
  induction actions generalizing d with
  | nil => exact (or_iff_left id).symm
  | cons action rest ih =>
    have hstill : ∀ cx, (d.act action).contexts[i]? = some cx → cx.live.isSome := by
      intro cx hcx
      by_contra hclosed
      rw [Option.not_isSome_iff_eq_none] at hclosed
      exact absurd (hopen cx (closed_run hcx hclosed rest)) (by simp [hclosed])
    exact (ih (h.act action) hopen).trans (by rw [holds_act h hstill, Built, or_assoc])

/-! ### Leaks -/

/-- What the contexts hold has no buffers in it. -/
theorem buffer_not_mem (cx : DeviceContext) (id : MemId) : Object.buffer id ∉ cx.objects := by
  rw [DeviceContext.objects]
  cases cx.live with
  | none => exact List.not_mem_nil
  | some live => simp [DeviceProgram.objects]

/-- What an open context holds, by the keys that it has built. -/
theorem objects_of_open (h : Balanced n d) (hcx : d.contexts[i]? = some cx) {live : Live}
    (hlive : cx.live = some live) :
    ∃ programs : List (Nat × DeviceProgram),
      (programs.map Prod.fst).Nodup ∧ (∀ key, key ∈ programs.map Prod.fst ↔ d.Holds i key) ∧
      cx.objects = programs.flatMap (fun p => [.kernel p.2.kernel, .program p.2.program]) ++
        [.queue live.queue, .context live.context] := by
  have htidy := (h.context hcx).tidy
  refine ⟨cx.cache.contents, ?_, fun key => (holds_iff hcx).symm, ?_⟩
  · rw [htidy.keys_contents]
    exact htidy.keys
  · rw [DeviceContext.objects, hlive, Cache.artifacts_eq]
    simp only [List.flatMap_map]
    rfl

/-- What an open context holds after a history, by the keys that it has built in it. -/
theorem objects_of_run (platforms : List PlatformModel) (actions : List Action)
    (hcx : ((ofPlatforms platforms).run actions).contexts[i]? = some cx) {live : Live}
    (hlive : cx.live = some live) :
    ∃ programs : List (Nat × DeviceProgram),
      (programs.map Prod.fst).Nodup ∧
      (∀ key, key ∈ programs.map Prod.fst ↔ Built i key (ofPlatforms platforms) actions) ∧
      cx.objects = programs.flatMap (fun p => [.kernel p.2.kernel, .program p.2.program]) ++
        [.queue live.queue, .context live.context] := by
  have hstart := Balanced.start platforms
  obtain ⟨programs, hnodup, hkeys, hobjects⟩ := objects_of_open (hstart.run actions) hcx hlive
  refine ⟨programs, hnodup, fun key => ?_, hobjects⟩
  have hopen : ∀ cx', ((ofPlatforms platforms).run actions).contexts[i]? = some cx' →
      cx'.live.isSome := by
    intro cx' hcx'
    cases hcx.symm.trans hcx'
    rw [hlive]
    rfl
  have hnone : ¬ (ofPlatforms platforms).Holds i key := by
    rintro ⟨_, hnew, -⟩
    cases hnew
  rw [hkeys, holds_run hstart hopen, or_iff_right hnone]

/-- Closing an open context releases what it holds, and leaves what the other contexts hold. -/
theorem close_of_open (h : Balanced n d) (hcx : d.contexts[i]? = some cx) {live : Live}
    (hlive : cx.live = some live) :
    ∃ cx' s', cx.close d.machine.simulator = (.ok (), cx', s') ∧ cx'.live = none ∧
      d.machine.simulator.Releases cx.objects s' ∧
      s'.released = d.machine.simulator.released ++ cx.objects.map Object.resource ∧
      s'.objects.Perm ((d.contexts.eraseIdx i).flatMap DeviceContext.objects) := by
  obtain ⟨cx', s', hclose, hdone, hothers, hreleases, hreleased⟩ :=
    (h.context hcx).close (by rw [hlive]; rfl)
  refine ⟨cx', s', hclose, hdone, hreleases, hreleased, ?_⟩
  have hrest := hothers.owns.perm
  rwa [DeviceContext.objects, hdone, List.nil_append] at hrest

/-- No object leaks and none is released twice, whatever is done and whatever fails. The driver has
what the open contexts hold, each object once, and no buffer; of the handles that it gave out since
the start each belongs to one release or to one object that is still there. Opening a context in
vain leaves nothing. An open context has its context, its queue, and a program and a kernel for each
key that it has built. Closing it succeeds, and releases exactly these: each kernel before its
program, then the queue, then the context. After that it does nothing any more, for ever. -/
theorem no_leak (platforms : List PlatformModel) (actions : List Action) :
    let start := ofPlatforms platforms
    let d := start.run actions
    let s := d.machine.simulator
    s.objects.Nodup ∧ s.objects.Perm (d.contexts.flatMap DeviceContext.objects) ∧
      (∀ id, .buffer id ∉ s.objects) ∧
      s.handles = start.machine.simulator.handles + s.released.length + s.liveObjects ∧
      (∀ platform device e s', DeviceContext.create platform device s = (.error e, s') →
        s'.objects.Perm s.objects) ∧
      ∀ i cx, d.contexts[i]? = some cx →
        (∀ live, cx.live = some live →
          (∃ programs : List (Nat × DeviceProgram), (programs.map Prod.fst).Nodup ∧
            (∀ key, key ∈ programs.map Prod.fst ↔ Built i key start actions) ∧
            cx.objects = programs.flatMap (fun p => [.kernel p.2.kernel, .program p.2.program]) ++
              [.queue live.queue, .context live.context]) ∧
          ∃ cx' s', cx.close s = (.ok (), cx', s') ∧ cx'.live = none ∧
            s.Releases cx.objects s' ∧ s'.released = s.released ++ cx.objects.map Object.resource ∧
            s'.objects.Perm ((d.contexts.eraseIdx i).flatMap DeviceContext.objects)) ∧
        (cx.live = none →
          cx.close s = (.ok (), cx, s) ∧
          (∀ size kernel, cx.compute size kernel d.machine = (.error .closed, cx, d.machine)) ∧
          (∀ kernel, cx.source kernel s = (.error .closed, cx, s)) ∧
          ∀ later, (d.run later).contexts[i]? = some cx) := by
  intro start d s
  have h : Balanced start.machine.simulator.handles d := (Balanced.start platforms).run actions
  have hperm := h.owns.perm
  refine ⟨hperm.nodup_iff.2 h.owns.nodup, hperm, fun id hid => ?_, ?_, ?_, ?_⟩
  · obtain ⟨cx, -, hmem⟩ := List.mem_flatMap.1 (hperm.mem_iff.1 hid)
    exact buffer_not_mem cx id hmem
  · rw [← Simulator.length_objects, hperm.length_eq]
    exact h.owns.ledger
  · intro platform device e s' hcreate
    exact (DeviceContext.create_error h.owns hcreate).perm.trans hperm.symm
  · intro i cx hcx
    refine ⟨fun live hlive => ⟨?_, ?_⟩, fun hclosed => ⟨?_, ?_, ?_, ?_⟩⟩
    · exact objects_of_run platforms actions hcx hlive
    · exact close_of_open h hcx hlive
    · exact DeviceContext.close_of_none hclosed s
    · exact fun size kernel => DeviceContext.compute_of_none hclosed size kernel d.machine
    · exact fun kernel => DeviceContext.source_of_none hclosed kernel s
    · exact closed_run hcx hclosed

/-- A context that has been asked for the source of a kernel, and then closed. -/
example :
    let start := ofPlatforms [{ name := "platform", devices := [{ name := "device" }] }]
    let idle : KernelClass := { name := ⟨"Idle"⟩, methods := [{ name := entryName }] }
    let used := start.run [.create ⟨0x1001⟩ ⟨⟨0x1002⟩, "device", 1, 3, [], 1, 1, 1⟩,
      .source 0 ⟨7, some idle, []⟩]
    used.machine.simulator.objects =
        [.context ⟨0x1003⟩, .queue ⟨0x1004⟩, .program ⟨0x1005⟩, .kernel ⟨0x1006⟩] ∧
      (used.act (.close 0)).machine.simulator.released = [.kernel, .program, .queue, .context] := by
  decide +kernel

end Desk

end KernelForge.Launch
