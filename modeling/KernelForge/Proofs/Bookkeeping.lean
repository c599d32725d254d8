import Mathlib
import KernelForge.Proofs.Commands
import KernelForge.Proofs.Discovery

/-!
# The books of a simulated driver

`Logged` is a simulated driver with a log of everything that was done to it. From the log alone it
can be told what has been created and released, and what is bound to the arguments of kernels. The
driver always agrees with its log (`Logged.Sound`), whatever commands are given in whatever order,
and so its books are in order (`Logged.Books`).
-/

namespace KernelForge.Device

/-! ### Handles of platforms and devices -/

namespace Simulator

variable {s : Simulator}

/-- The numbers of the handles of all platforms and devices, in the order of the list. -/
def listed (s : Simulator) : List Nat :=
  s.platforms.flatMap fun p => p.id.raw :: p.devices.map Handle.raw

/-- The number of the first handle. -/
def firstHandle : Nat :=
  0x1001

theorem nextHandle_eq (s : Simulator) : s.nextHandle = firstHandle + s.handles := by
  rw [nextHandle, firstHandle]
  omega

/-- New devices get the next handles. -/
theorem addDevices_handles (ds : List DeviceModel) (s : Simulator) :
    (addDevices ds s).1.map Handle.raw = List.range' s.nextHandle ds.length ∧
      (addDevices ds s).2.handles = s.handles + ds.length := by
  induction ds generalizing s with
  | nil => exact ⟨rfl, rfl⟩
  | cons d ds ih =>
    obtain ⟨hids, hhandles⟩ := ih { s.advance with devices := s.devices.insert ⟨s.nextHandle⟩ d }
    exact ⟨congrArg (s.nextHandle :: ·) hids,
      hhandles.trans (Nat.add_right_comm s.handles 1 ds.length)⟩

theorem listed_addPlatform (h : s.listed = List.range' firstHandle s.handles) (p : PlatformModel) :
    (s.addPlatform p).listed = List.range' firstHandle (s.addPlatform p).handles := by
  obtain ⟨hids, hhandles⟩ := addDevices_handles p.devices s.advance
  have hplatforms := addDevices_platforms p.devices s.advance
  have hlisted : (s.addPlatform p).listed =
      s.listed ++ s.nextHandle :: List.range' (s.nextHandle + 1) p.devices.length := by
    simp only [addPlatform, listed, hplatforms, List.flatMap_append, List.flatMap_singleton, hids]
    rfl
  have hcount : (s.addPlatform p).handles = s.handles + (p.devices.length + 1) :=
    hhandles.trans (Nat.add_right_comm s.handles 1 p.devices.length)
  rw [hlisted, hcount, h, nextHandle_eq, ← List.range'_succ, List.range'_append_1]

/-- Platforms and devices get the first handles, one after another. -/
theorem listed_ofPlatforms (platforms : List PlatformModel) :
    (ofPlatforms platforms).listed = List.range' firstHandle (ofPlatforms platforms).handles := by
  rw [ofPlatforms]
  generalize hs : ({} : Simulator) = s
  have h : s.listed = List.range' firstHandle s.handles := by
    rw [← hs]
    rfl
  clear hs
  induction platforms generalizing s with
  | nil => exact h
  | cons p rest ih => exact ih _ (listed_addPlatform h p)

end Simulator

/-! ### The log -/

/-- A command that was given, its status, and the object that it has created. -/
structure Entry where
  command : Command
  status : Status
  created : Option Object

/-- The object that was released. -/
def Entry.released? (e : Entry) : Option Object :=
  if e.status = .success then e.command.releases? else none

/-- What was bound to an argument of a kernel. -/
def Entry.binds? (kernel : KernelId) (index : UInt32) (e : Entry) : Option Bound :=
  if e.status = .success then e.command.binds? kernel index else none

/-- A driver and what was done to it so far. -/
structure Logged where
  driver : Simulator
  log : List Entry := []

namespace Logged

variable {t : Logged} {c : Command} {out : Outcome} {o : Object}

/-- Enter a command and its outcome. -/
def enter (t : Logged) (c : Command) (out : Outcome) : Logged :=
  ⟨out.driver, t.log ++ [⟨c, out.status, out.created⟩]⟩

/-- Give the driver a command. -/
def step (t : Logged) (c : Command) : Logged :=
  t.enter c (c.run t.driver)

/-- Give the driver commands, one after another. -/
def run (t : Logged) (cs : List Command) : Logged :=
  cs.foldl step t

/-- Every object that was ever created, in order. -/
def created (t : Logged) : List Object :=
  t.log.filterMap Entry.created

/-- Every object that was released, in order. -/
def released (t : Logged) : List Object :=
  t.log.filterMap Entry.released?

/-- What was last bound to an argument of a kernel. -/
def binding? (t : Logged) (kernel : KernelId) (index : UInt32) : Option Bound :=
  (t.log.filterMap (Entry.binds? kernel index)).getLast?

/-- The numbers of all handles that were handed out, in order. -/
def handedOut (t : Logged) : List Nat :=
  t.driver.listed ++ t.created.map Object.raw

/-! ### Entering one command -/

theorem filterMap_concat {α β : Type} (f : α → Option β) (xs : List α) (x : α) :
    (xs ++ [x]).filterMap f = xs.filterMap f ++ (f x).toList := by
  rw [List.filterMap_append]
  cases h : f x <;> simp [h]

theorem created_enter (t : Logged) (c : Command) (out : Outcome) :
    (t.enter c out).created = t.created ++ out.created.toList :=
  filterMap_concat _ _ _

theorem released_enter (t : Logged) (c : Command) (out : Outcome) :
    (t.enter c out).released =
      t.released ++ (if out.status = .success then c.releases? else none).toList :=
  filterMap_concat _ _ _

theorem binding?_enter (t : Logged) (c : Command) (out : Outcome) (kernel : KernelId)
    (index : UInt32) : (t.enter c out).binding? kernel index =
      (if out.status = .success then c.binds? kernel index else none).or
        (t.binding? kernel index) := by
  have hlast (value : Option Bound) : value.toList.getLast? = value := by cases value <;> rfl
  rw [binding?, enter, filterMap_concat, List.getLast?_append, hlast]
  rfl

theorem created_enter_none (t : Logged) (c : Command) (status : Status) (s : Simulator) :
    (t.enter c ⟨status, none, s⟩).created = t.created := by
  rw [created_enter, Option.toList_none, List.append_nil]

theorem released_enter_none (hc : c.releases? = none) (t : Logged) (out : Outcome) :
    (t.enter c out).released = t.released := by
  rw [released_enter, hc, ite_self, Option.toList_none, List.append_nil]

theorem binding?_enter_none {kernel : KernelId} {index : UInt32}
    (hc : c.binds? kernel index = none) (t : Logged) (out : Outcome) :
    (t.enter c out).binding? kernel index = t.binding? kernel index := by
  rw [binding?_enter, hc, ite_self, Option.none_or]

/-! ### A driver that agrees with its log -/

/-- The handles are numbers in order. There is what was created and not released, and nothing is
released twice. -/
structure Ledger (t : Logged) : Prop where
  strict : t.driver.Strict
  owns : Simulator.Owns t.driver.listed.length t.driver t.driver.objects
  handles : t.handedOut = List.range' Simulator.firstHandle t.driver.handles
  record : t.driver.released = t.released.map Object.resource
  live : ∀ o, o ∈ t.driver.objects ↔ o ∈ t.created ∧ o ∉ t.released
  once : t.released.Nodup
  released_subset : t.released ⊆ t.created

/-- A driver agrees with its log also in what is bound to the arguments of kernels. -/
structure Sound (t : Logged) : Prop extends Ledger t where
  keys : ∀ kernel k, t.driver.kernels.get? kernel = some k → k.args.keys.Nodup
  args : ∀ kernel k, t.driver.kernels.get? kernel = some k →
    ∀ index, k.args.get? index = t.binding? kernel index
  bound : ∀ kernel index, t.binding? kernel index ≠ none → .kernel kernel ∈ t.created

theorem listed_of_keeps {s s' : Simulator} (h : Command.Keeps s s') : s'.listed = s.listed := by
  rw [Simulator.listed, h.platforms, Simulator.listed]

namespace Ledger

/-- The next handle is none of those that were handed out. -/
theorem nextHandle_not_mem (h : t.Ledger) : t.driver.nextHandle ∉ t.handedOut := by
  rw [h.handles, List.mem_range'_1, Simulator.nextHandle_eq]
  omega

theorem not_mem_created (h : t.Ledger) (hraw : o.raw = t.driver.nextHandle) : o ∉ t.created :=
  fun ho => h.nextHandle_not_mem
    (hraw ▸ List.mem_append_right _ (List.mem_map_of_mem (f := Object.raw) ho))

/-- What neither creates nor releases anything leaves the ledger in order. -/
theorem of_same {t' : Logged} (h : t.Ledger) (hcreated : t'.created = t.created)
    (hreleased : t'.released = t.released) (hhandles : t'.driver.handles = t.driver.handles)
    (hobjects : t'.driver.objects = t.driver.objects)
    (hkeeps : Command.Keeps t.driver t'.driver) : t'.Ledger where
  strict := hkeeps.strict
  owns := by
    rw [hobjects, listed_of_keeps hkeeps]
    exact h.owns.of_eq hobjects hhandles hkeeps.released
  handles := by
    rw [handedOut, listed_of_keeps hkeeps, hcreated, hhandles]
    exact h.handles
  record := by
    rw [hkeeps.released, hreleased]
    exact h.record
  live o := by
    rw [hobjects, hcreated, hreleased]
    exact h.live o
  once := hreleased ▸ h.once
  released_subset := by
    rw [hcreated, hreleased]
    exact h.released_subset

/-- An object is created. -/
theorem enter_created {s' : Simulator} (h : t.Ledger) (hreleases : c.releases? = none)
    (hraw : o.raw = t.driver.nextHandle) (hhandles : s'.handles = t.driver.handles + 1)
    (hobjects : ∀ x, s'.objects.count x = if x = o then 1 else t.driver.objects.count x)
    (hkeeps : Command.Keeps t.driver s') : (t.enter c ⟨.success, some o, s'⟩).Ledger := by
  have hnew : o ∉ t.created := h.not_mem_created hraw
  have hcreated : (t.enter c ⟨.success, some o, s'⟩).created = t.created ++ [o] :=
    created_enter ..
  have hreleased := released_enter_none hreleases t ⟨.success, some o, s'⟩
  have hlisted : s'.listed = t.driver.listed := listed_of_keeps hkeeps
  have howns := h.owns.create hraw hobjects hhandles hkeeps.released
  exact {
    strict := hkeeps.strict
    owns := by
      change Simulator.Owns s'.listed.length s' s'.objects
      rw [hlisted]
      exact howns.of_perm howns.perm.symm
    handles := by
      change s'.listed ++ (t.enter c ⟨.success, some o, s'⟩).created.map Object.raw =
        List.range' Simulator.firstHandle s'.handles
      rw [hlisted, hcreated, List.map_append, ← List.append_assoc, ← handedOut, h.handles,
        hhandles, List.range'_1_concat, ← Simulator.nextHandle_eq, ← hraw, List.map_singleton]
    record := by
      rw [hreleased]
      exact hkeeps.released.trans h.record
    live := fun x => by
      change x ∈ s'.objects ↔ _
      rw [howns.perm.mem_iff, List.mem_cons, h.live, hcreated, hreleased, List.mem_append,
        List.mem_singleton]
      constructor
      · rintro (rfl | ⟨hx, hkept⟩)
        · exact ⟨.inr rfl, fun hx => hnew (h.released_subset hx)⟩
        · exact ⟨.inl hx, hkept⟩
      · rintro ⟨hx | rfl, hkept⟩
        · exact .inr ⟨hx, hkept⟩
        · exact .inl rfl
    once := hreleased ▸ h.once
    released_subset := by
      rw [hreleased, hcreated]
      exact fun x hx => List.mem_append_left _ (h.released_subset hx) }

/-- An object is released. -/
theorem enter_released (h : t.Ledger) (ho : o ∈ t.driver.objects) :
    (t.enter (.release o) ⟨.success, none, (t.driver.releaseObject o).2⟩).Ledger := by
  obtain ⟨-, hobjects, hrecord, hhandles⟩ := Simulator.releaseObject_of_mem ho
  obtain ⟨hold, hkept⟩ := (h.live o).1 ho
  have hcreated := created_enter_none t (.release o) .success (t.driver.releaseObject o).2
  have hreleased : (t.enter (.release o) ⟨.success, none, (t.driver.releaseObject o).2⟩).released =
      t.released ++ [o] := released_enter ..
  have hlisted : (t.driver.releaseObject o).2.listed = t.driver.listed := by
    rw [Simulator.listed, Simulator.releaseObject_platforms, Simulator.listed]
  have hquiet : Simulator.Quiet (fun _ => False) t.driver (t.driver.releaseObject o).2 :=
    .releaseObject not_false
  have howns := (h.owns.of_perm (List.perm_cons_erase ho)).release.2.1
  exact {
    strict := h.strict.of_frame hquiet.toFrame
    owns := by
      change Simulator.Owns (t.driver.releaseObject o).2.listed.length (t.driver.releaseObject o).2
        (t.driver.releaseObject o).2.objects
      rw [hlisted]
      exact howns.of_perm howns.perm.symm
    handles := by
      rw [handedOut, hcreated]
      change (t.driver.releaseObject o).2.listed ++ t.created.map Object.raw =
        List.range' Simulator.firstHandle (t.driver.releaseObject o).2.handles
      rw [hlisted, hhandles]
      exact h.handles
    record := by
      rw [hreleased, List.map_append, ← h.record]
      exact hrecord
    live := fun x => by
      change x ∈ (t.driver.releaseObject o).2.objects ↔ _
      rw [hobjects, hcreated, hreleased, List.mem_filter, h.live, List.mem_append,
        List.mem_singleton, decide_eq_true_iff, not_or, and_assoc]
    once := by
      rw [hreleased]
      exact h.once.append (List.nodup_singleton o) (List.disjoint_singleton.2 hkept)
    released_subset := by
      rw [hreleased, hcreated]
      exact List.append_subset.2 ⟨h.released_subset, by simpa using hold⟩ }

end Ledger

namespace Sound

/-- What changes nothing that the log is about can be entered. -/
theorem of_same {t' : Logged} (h : t.Sound) (hledger : t'.Ledger)
    (hcreated : t'.created = t.created)
    (hbinding : ∀ kernel index, t'.binding? kernel index = t.binding? kernel index)
    (hkernels : ∀ kernel k, t'.driver.kernels.get? kernel = some k →
      t.driver.kernels.get? kernel = some k) : t'.Sound where
  toLedger := hledger
  keys kernel k hk := h.keys kernel k (hkernels kernel k hk)
  args kernel k hk index := by
    rw [hbinding]
    exact h.args kernel k (hkernels kernel k hk) index
  bound kernel index hvalue := by
    rw [hbinding] at hvalue
    rw [hcreated]
    exact h.bound kernel index hvalue

/-- A command that fails. -/
theorem enter_refused (h : t.Sound) {status : Status} (hstatus : status ≠ .success) (n : Nat) :
    (t.enter c ⟨status, none, { t.driver with builds := n }⟩).Sound := by
  have hcreated := created_enter_none t c status { t.driver with builds := n }
  refine h.of_same (h.toLedger.of_same hcreated ?_ rfl rfl ⟨rfl, rfl, h.strict⟩) hcreated
    (fun kernel index => ?_) fun _ _ hk => hk
  · rw [released_enter, if_neg hstatus, Option.toList_none, List.append_nil]
  · rw [binding?_enter, if_neg hstatus, Option.none_or]

/-- A command that succeeds without creating, releasing or binding anything. -/
theorem enter_other {s' : Simulator} (h : t.Sound) (hreleases : c.releases? = none)
    (hbinds : ∀ kernel index, c.binds? kernel index = none)
    (hhandles : s'.handles = t.driver.handles) (hobjects : s'.objects = t.driver.objects)
    (hkernels : s'.kernels = t.driver.kernels) (hkeeps : Command.Keeps t.driver s') :
    (t.enter c ⟨.success, none, s'⟩).Sound := by
  have hcreated := created_enter_none t c .success s'
  have hreleased := released_enter_none hreleases t ⟨.success, none, s'⟩
  refine h.of_same (h.toLedger.of_same hcreated hreleased hhandles hobjects hkeeps) hcreated
    (fun kernel index => binding?_enter_none (hbinds kernel index) t _) fun kernel k hk => ?_
  rwa [← hkernels]

/-- A command that creates an object. -/
theorem enter_created {s' : Simulator} (h : t.Sound) (hreleases : c.releases? = none)
    (hbinds : ∀ kernel index, c.binds? kernel index = none)
    (hraw : o.raw = t.driver.nextHandle) (hhandles : s'.handles = t.driver.handles + 1)
    (hobjects : ∀ x, s'.objects.count x = if x = o then 1 else t.driver.objects.count x)
    (hkernels : ∀ kernel k, s'.kernels.get? kernel = some k →
      t.driver.kernels.get? kernel = some k ∨ o = .kernel kernel ∧ k.args = {})
    (hkeeps : Command.Keeps t.driver s') :
    (t.enter c ⟨.success, some o, s'⟩).Sound where
  toLedger := h.toLedger.enter_created hreleases hraw hhandles hobjects hkeeps
  keys kernel k hk := by
    obtain hold | ⟨-, hargs⟩ := hkernels kernel k hk
    · exact h.keys kernel k hold
    · rw [hargs]
      exact List.nodup_nil
  args kernel k hk index := by
    rw [binding?_enter_none (hbinds kernel index)]
    obtain hold | ⟨rfl, hargs⟩ := hkernels kernel k hk
    · exact h.args kernel k hold index
    · -- Nothing was ever bound to the arguments of a new kernel.
      rw [hargs]
      by_contra hvalue
      exact h.not_mem_created hraw (h.bound kernel index (Ne.symm hvalue))
  bound kernel index hvalue := by
    rw [binding?_enter_none (hbinds kernel index)] at hvalue
    rw [created_enter]
    exact List.mem_append_left _ (h.bound kernel index hvalue)

/-- A command that releases an object. -/
theorem enter_released (h : t.Sound) (ho : o ∈ t.driver.objects) :
    (t.enter (.release o) ⟨.success, none, (t.driver.releaseObject o).2⟩).Sound :=
  h.of_same (h.toLedger.enter_released ho) (created_enter_none ..)
    (fun _ _ => binding?_enter_none rfl t _)
    fun _ _ hk => Simulator.get?_kernels_of_releaseObject hk

/-- A command that binds an argument of a kernel. -/
theorem enter_bound {kernel : KernelId} {index : UInt32} {value : Bound} (h : t.Sound)
    (hkernel : .kernel kernel ∈ t.driver.objects) :
    (t.enter (.setKernelArg kernel index value) ⟨.success, none,
      { t.driver with kernels := t.driver.kernels.modify kernel fun k =>
        { k with args := k.args.insert index value } }⟩).Sound := by
  generalize hs : { t.driver with kernels := t.driver.kernels.modify kernel fun k =>
    { k with args := k.args.insert index value } } = s
  have hcreated := created_enter_none t (.setKernelArg kernel index value) .success s
  have hreleased : (t.enter (.setKernelArg kernel index value) ⟨.success, none, s⟩).released =
      t.released := released_enter_none rfl t _
  have hbinding (kernel' : KernelId) (index' : UInt32) :
      (t.enter (.setKernelArg kernel index value) ⟨.success, none, s⟩).binding? kernel' index' =
        if kernel = kernel' ∧ index = index' then some value else t.binding? kernel' index' := by
    rw [binding?_enter, if_pos rfl, Command.binds?]
    split_ifs <;> rfl
  -- What is there of a kernel, it had before, or it is the new argument.
  have hargs {kernel' : KernelId} {k : KernelObject} (hk : s.kernels.get? kernel' = some k) :
      ∃ before, t.driver.kernels.get? kernel' = some before ∧
        k.args = if kernel = kernel' then before.args.insert index value else before.args := by
    rw [← hs, Table.get?_modify] at hk
    split_ifs at hk with hsame
    · obtain ⟨before, hbefore, rfl⟩ := Option.map_eq_some_iff.1 hk
      exact ⟨before, hbefore, by rw [if_pos hsame.symm]⟩
    · exact ⟨k, hk, by rw [if_neg (Ne.symm hsame)]⟩
  have hobjects : s.objects = t.driver.objects := by
    rw [← hs]
    simp [Simulator.objects]
  refine ⟨h.toLedger.of_same hcreated hreleased (hs ▸ rfl) hobjects
    (hs ▸ ⟨rfl, rfl, h.strict⟩), fun kernel' k hk => ?_, fun kernel' k hk index' => ?_,
    fun kernel' index' hvalue => ?_⟩
  · obtain ⟨before, hbefore, hk⟩ := hargs hk
    rw [hk]
    split_ifs
    · exact Table.nodup_keys_insert (h.keys kernel' before hbefore) index value
    · exact h.keys kernel' before hbefore
  · obtain ⟨before, hbefore, hk⟩ := hargs hk
    rw [hk, hbinding, ← h.args kernel' before hbefore]
    by_cases hkernel' : kernel = kernel'
    · rw [if_pos hkernel', Table.get?_insert]
      exact if_congr (by simp [hkernel', eq_comm]) rfl rfl
    · rw [if_neg hkernel', if_neg fun hboth => hkernel' hboth.1]
  · rw [hbinding] at hvalue
    rw [hcreated]
    by_cases hboth : kernel = kernel' ∧ index = index'
    · exact hboth.1 ▸ ((h.live _).1 hkernel).1
    · rw [if_neg hboth] at hvalue
      exact h.bound kernel' index' hvalue

/-- A driver that agrees with its log still does after a command. -/
theorem enter (h : t.Sound) (heffect : Command.Effect t.driver c out) : (t.enter c out).Sound := by
  cases heffect with
  | refused hstatus => exact h.enter_refused hstatus _
  | created _ hreleases hbinds hraw hhandles hobjects hkernels hkeeps =>
    exact h.enter_created hreleases hbinds hraw hhandles hobjects hkernels hkeeps
  | released ho => exact h.enter_released ho
  | @bound kernel index value huses =>
    refine h.enter_bound (huses _ ?_)
    cases value <;> simp [Command.uses]
  | other _ hreleases hbinds hhandles hobjects hkernels hkeeps =>
    exact h.enter_other hreleases hbinds hhandles hobjects hkernels hkeeps

theorem step (h : t.Sound) (hc : c.Injects) : (t.step c).Sound :=
  h.enter (Command.effect_run h.strict hc)

/-- It does after any commands. -/
theorem run (h : t.Sound) {cs : List Command} (hcs : ∀ c ∈ cs, c.Injects) : (t.run cs).Sound := by
  induction cs generalizing t with
  | nil => exact h
  | cons c cs ih =>
    exact ih (h.step (hcs c List.mem_cons_self)) fun c' hc' => hcs c' (List.mem_cons_of_mem c hc')

end Sound

/-- A new driver and its empty log. -/
def start (platforms : List PlatformModel) : Logged :=
  ⟨.ofPlatforms platforms, []⟩

theorem get?_kernels_start (platforms : List PlatformModel) (kernel : KernelId) :
    (start platforms).driver.kernels.get? kernel = none := by
  refine Option.eq_none_iff_forall_ne_some.2 fun k hk => ?_
  have hmem : .kernel kernel ∈ (start platforms).driver.objects :=
    Simulator.mem_objects.2 (Table.contains_of_get? hk)
  rw [start, (Simulator.objects_ofPlatforms platforms).1] at hmem
  cases hmem

theorem sound_start (platforms : List PlatformModel) : (start platforms).Sound := by
  obtain ⟨hobjects, hreleased, hfailures⟩ := Simulator.objects_ofPlatforms platforms
  have hlisted := Simulator.listed_ofPlatforms platforms
  have howns := Simulator.Owns.ofPlatforms platforms
  have hkernels (kernel : KernelId) (k : KernelObject) :
      (start platforms).driver.kernels.get? kernel ≠ some k := by
    rw [get?_kernels_start]
    exact nofun
  exact {
    strict := by
      intro call status hstatus
      rw [start, hfailures] at hstatus
      cases hstatus
    owns := by
      rw [start, hobjects, hlisted, List.length_range']
      exact howns
    handles := (List.append_nil _).trans hlisted
    record := hreleased
    live := fun o => by
      rw [start, hobjects]
      simp [created]
    once := List.nodup_nil
    released_subset := List.nil_subset _
    keys := fun kernel k hk => absurd hk (hkernels kernel k)
    args := fun kernel k hk => absurd hk (hkernels kernel k)
    bound := fun kernel index hvalue => absurd rfl hvalue }

/-! ### The books -/

/-- The books of a driver are in order. -/
structure Books (t : Logged) : Prop where
  /-- All handles that were handed out are different; they are consecutive numbers. -/
  handles : t.handedOut.Nodup ∧ t.handedOut = List.range' Simulator.firstHandle t.handedOut.length
  /-- And so is the next one. -/
  fresh : ∀ c : Command, c.Injects → ∀ o, (c.run t.driver).created = some o → o.raw ∉ t.handedOut
  /-- What was created has either been released or is still there. -/
  balance : t.created.length = t.driver.liveObjects + t.driver.released.length
  /-- The record of releases tells what was released. -/
  record : t.driver.released = t.released.map Object.resource
  /-- Nothing was released twice. -/
  once : t.released.Nodup
  /-- Everything that was created can be released, unless it already was. -/
  release_iff : ∀ o, (Command.run t.driver (.release o)).status = .success ↔
    o ∈ t.created ∧ o ∉ t.released
  /-- With an object that is not there every command fails. -/
  gone : ∀ c : Command, c.Injects → ∀ o ∈ c.uses, o ∉ t.created ∨ o ∈ t.released →
    (c.run t.driver).status ≠ .success
  /-- Nor does a launch start while a buffer is bound that is not there any more. -/
  unbound : ∀ queue kernel size index id, t.binding? kernel index = some (.buffer id) →
    .buffer id ∈ t.released →
    (Command.run t.driver (.enqueueKernel queue kernel size)).status ≠ .success ∧
      (Command.run t.driver (.startLaunch queue kernel size)).status ≠ .success
  /-- A command that fails has no effect, except that a build is counted. -/
  unchanged : ∀ c : Command, c.Injects → (c.run t.driver).status ≠ .success →
    (c.run t.driver).created = none ∧
      (c.run t.driver).driver = { t.driver with builds := t.driver.builds + c.attempts }

namespace Sound

theorem mem_objects_of_success (h : t.Sound) (hc : c.Injects)
    (hstatus : (c.run t.driver).status = .success) (ho : o ∈ c.uses) :
    o ∈ t.created ∧ o ∉ t.released :=
  (h.live o).1 ((Command.effect_run h.strict hc).mem_objects_of_success hstatus o ho)

theorem fresh (h : t.Sound) (hc : c.Injects) (ho : (c.run t.driver).created = some o) :
    o.raw ∉ t.handedOut := by
  have hnew : ∀ {out}, Command.Effect t.driver c out → out.created = some o →
      o.raw = t.driver.nextHandle := by
    rintro _ (_ | ⟨_, _, _, hraw, _⟩ | _ | _ | _) hout <;> cases hout
    exact hraw
  rw [hnew (Command.effect_run h.strict hc) ho]
  exact h.nextHandle_not_mem

theorem release_iff (h : t.Sound) (o : Object) :
    (Command.run t.driver (.release o)).status = .success ↔ o ∈ t.created ∧ o ∉ t.released := by
  rw [← h.live]
  constructor
  · intro hstatus
    by_contra ho
    obtain ⟨status, hne, hsame⟩ := Simulator.releaseObject_of_not_mem ho
    rw [Command.run, hsame] at hstatus
    exact hne hstatus
  · exact fun ho => (Simulator.releaseObject_of_mem ho).1

/-- A launch only starts if all buffers that are bound are there. -/
theorem not_mem_released_of_startLaunch (h : t.Sound) {queue : QueueId} {kernel : KernelId}
    {size : Nat} {l : StartedLaunch} {index : UInt32} {id : MemId}
    (hl : t.driver.startLaunch queue kernel size = .ok l)
    (hbinding : t.binding? kernel index = some (.buffer id)) : .buffer id ∉ t.released := by
  obtain ⟨-, -, k, hk, -⟩ := Simulator.startLaunch_eq_ok hl
  have hbuffer := (h.args kernel k hk index).trans hbinding
  exact ((h.live _).1 (Simulator.mem_objects_of_startLaunch hl hk (h.keys kernel k hk) hbuffer)).2

theorem unbound (h : t.Sound) {queue : QueueId} {kernel : KernelId} {size : Nat} {index : UInt32}
    {id : MemId} (hbinding : t.binding? kernel index = some (.buffer id))
    (hid : .buffer id ∈ t.released) :
    (Command.run t.driver (.enqueueKernel queue kernel size)).status ≠ .success ∧
      (Command.run t.driver (.startLaunch queue kernel size)).status ≠ .success := by
  rw [Command.run, Command.run, Simulator.enqueueKernel_eq]
  cases hl : t.driver.startLaunch queue kernel size with
  | ok l => exact absurd hid (h.not_mem_released_of_startLaunch hl hbinding)
  | error status =>
    have hstatus := Simulator.startLaunch_eq_error h.strict hl
    exact ⟨hstatus, hstatus⟩

theorem books (h : t.Sound) : t.Books where
  handles := by
    rw [h.handles, List.length_range']
    exact ⟨List.nodup_range', rfl⟩
  fresh _ hc _ ho := h.fresh hc ho
  balance := by
    have hlength := congrArg List.length h.handles
    rw [handedOut, List.length_append, List.length_map, List.length_range', h.owns.ledger,
      Simulator.length_objects] at hlength
    omega
  record := h.record
  once := h.once
  release_iff := h.release_iff
  gone _ hc o ho hgone hstatus := by
    obtain ⟨hcreated, hkept⟩ := h.mem_objects_of_success hc hstatus ho
    exact hgone.elim (· hcreated) hkept
  unbound _ _ _ _ _ hbinding hid := h.unbound hbinding hid
  unchanged _ hc hstatus := (Command.effect_run h.strict hc).driver_of_ne hstatus

end Sound

end Logged

end KernelForge.Device
