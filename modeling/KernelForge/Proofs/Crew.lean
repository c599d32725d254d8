import Mathlib
import KernelForge.Launch.Host

/-!
# Computations on a pool at the same time

A pool has threads, a queue of jobs and a gate that can be shut. A computation sends one job for
each of its work-items; the threads take jobs from the queue in any order and run them at the same
time; a job that is taken when the gate is shut is abandoned. A computation returns when its count
of outstanding jobs is down to zero. `Crew.Step` says what the computations, the threads and the one
who closes the pool can do next, and nothing is assumed about the order in which they do it.

Every job is somewhere between the queue and the count, exactly once (`Accounted`). Everything that
holds at any time (`Orderly`) is kept by every step (`Orderly.step`).
-/

namespace KernelForge.Launch

/-- A computation: how many work-items it has and how each of them ends. -/
structure Computation where
  size : Nat
  process : WorkItem → Outcome

/-- A job in the queue of a pool: a work-item of a computation. -/
structure Job (ι : Type) where
  call : ι
  id : Nat
deriving DecidableEq

/-- What a thread is doing. -/
inductive Worker (ι : Type)
  /-- It has found that there will be no more jobs. -/
  | gone
  | idle
  /-- It has taken a job, and was told whether the pool was shut then. -/
  | taken (job : Job ι) (shut : Bool)
  /-- The job is over, and its fault is not reported yet. -/
  | ran (job : Job ι) (fault : Option String)
  /-- The fault is reported, and the job is still outstanding. -/
  | reported (job : Job ι)
deriving DecidableEq

/-- Where a computation is. -/
inductive Phase
  | idle
  | running
  | returned (result : Except Error Unit)

/-- A computation on a pool: the jobs sent so far, how many are outstanding, and the faults in the
order in which they came in. -/
structure CallState where
  phase : Phase := .idle
  sent : Nat := 0
  remaining : Nat := 0
  faults : List ItemFault := []

/-- How far a pool is closed. Closing first tells the threads and then refuses computations. -/
inductive Gate
  | opened
  | shut
  | closed
deriving DecidableEq

/-- A pool with its threads, its queue and its computations. -/
structure Crew (ι : Type) where
  gate : Gate := .opened
  queue : List (Job ι) := []
  workers : List (Worker ι)
  calls : ι → CallState := fun _ => {}

/-- What happens on a pool. -/
inductive PoolEvent (ι : Type)
  | began (call : ι)
  | queued (job : Job ι)
  | taken (job : Job ι) (shut : Bool)
  | ran (call : ι) (item : WorkItem)
  | abandoned (job : Job ι)
  | reported (job : Job ι) (fault : Option String)
  | counted (job : Job ι)
  | returned (call : ι)
  /-- A job was to be sent, and there was no thread to take it. -/
  | lost (call : ι)
  | left
  | shut
  | closed
deriving DecidableEq

variable {ι : Type}

/-- The work-item of a job. -/
def Job.item (work : ι → Computation) (job : Job ι) : WorkItem :=
  ⟨job.id, (work job.call).size⟩

/-- The fault of a job that was taken while the pool was shut or not. -/
def Job.fault? (work : ι → Computation) (job : Job ι) (shut : Bool) : Option String :=
  Id.run (Host.runJob (pure shut) (fun item => pure ((work job.call).process item)) (job.item work))

theorem Job.ran_eq_iff {work : ι → Computation} {job job' : Job ι} :
    PoolEvent.ran job.call (job.item work) = .ran job'.call (job'.item work) ↔ job = job' := by
  constructor
  · intro h
    obtain ⟨call, id⟩ := job
    obtain ⟨call', id'⟩ := job'
    simp only [PoolEvent.ran.injEq, Job.item, WorkItem.mk.injEq] at h
    rw [h.1, h.2.1]
  · intro h
    rw [h]

variable [DecidableEq ι]

/-- The job that a thread is busy with. -/
def Worker.job? : Worker ι → Option (Job ι)
  | gone | idle => none
  | taken job _ | ran job _ | reported job => some job

/-- Whether a thread has run a job and not reported its fault yet. -/
def Worker.hasRun (job : Job ι) : Worker ι → Bool
  | ran j _ => j = job
  | _ => false

/-- Whether it is the report on a job. -/
def PoolEvent.isReport (job : Job ι) : PoolEvent ι → Bool
  | reported j _ => j = job
  | _ => false

namespace Crew

/-- The pool with one computation at another state. -/
def setCall (s : Crew ι) (call : ι) (state : CallState) : Crew ι :=
  { s with calls := Function.update s.calls call state }

/-- One step of a computation, of a thread, or of the one who closes the pool. -/
inductive Step (work : ι → Computation) (s : Crew ι) : PoolEvent ι → Crew ι → Prop
  | refuse {c : ι} (h : (s.calls c).phase = .idle) (hgate : s.gate = .closed) :
      Step work s (.began c) (s.setCall c { phase := .returned (.error .closed) })
  | skip {c : ι} (h : (s.calls c).phase = .idle) (hgate : s.gate ≠ .closed)
      (hsize : (work c).size = 0) :
      Step work s (.began c) (s.setCall c { phase := .returned (.ok ()) })
  | begin {c : ι} (h : (s.calls c).phase = .idle) (hgate : s.gate ≠ .closed)
      (hsize : (work c).size ≠ 0) :
      Step work s (.began c) (s.setCall c { phase := .running, remaining := (work c).size })
  | send {c : ι} (h : (s.calls c).phase = .running) (hsent : (s.calls c).sent < (work c).size)
      (hthere : ∃ w ∈ s.workers, w ≠ .gone) :
      Step work s (.queued ⟨c, (s.calls c).sent⟩)
        { s.setCall c { s.calls c with sent := (s.calls c).sent + 1 } with
          queue := s.queue ++ [⟨c, (s.calls c).sent⟩] }
  | lose {c : ι} (h : (s.calls c).phase = .running) (hsent : (s.calls c).sent < (work c).size)
      (hgone : ∀ w ∈ s.workers, w = .gone) :
      Step work s (.lost c) (s.setCall c { s.calls c with
        sent := (work c).size
        remaining := (s.calls c).remaining - ((work c).size - (s.calls c).sent)
        faults := (s.calls c).faults ++
          (List.range' (s.calls c).sent ((work c).size - (s.calls c).sent)).map
            (ItemFault.mk · Host.abandoned) })
  | leave {before after : List (Worker ι)} (hworkers : s.workers = before ++ .idle :: after)
      (hgate : s.gate = .closed) (hqueue : s.queue = [])
      (hsent : ∀ c, (s.calls c).phase = .running → (s.calls c).sent = (work c).size) :
      Step work s .left { s with workers := before ++ .gone :: after }
  | take {before after : List (Worker ι)} {job : Job ι} {front back : List (Job ι)}
      (hworkers : s.workers = before ++ .idle :: after) (hqueue : s.queue = front ++ job :: back) :
      Step work s (.taken job (s.gate != .opened))
        { s with
          workers := before ++ .taken job (s.gate != .opened) :: after
          queue := front ++ back }
  | run {before after : List (Worker ι)} {job : Job ι}
      (hworkers : s.workers = before ++ .taken job false :: after) :
      Step work s (.ran job.call (job.item work))
        { s with workers := before ++ .ran job (job.fault? work false) :: after }
  | abandon {before after : List (Worker ι)} {job : Job ι}
      (hworkers : s.workers = before ++ .taken job true :: after) :
      Step work s (.abandoned job)
        { s with workers := before ++ .ran job (job.fault? work true) :: after }
  | report {before after : List (Worker ι)} {job : Job ι} {fault : Option String}
      (hworkers : s.workers = before ++ .ran job fault :: after) :
      Step work s (.reported job fault)
        { s.setCall job.call { s.calls job.call with
            faults := (s.calls job.call).faults ++ (fault.map (ItemFault.mk job.id)).toList } with
          workers := before ++ .reported job :: after }
  | count {before after : List (Worker ι)} {job : Job ι}
      (hworkers : s.workers = before ++ .reported job :: after) :
      Step work s (.counted job)
        { s.setCall job.call { s.calls job.call with
            remaining := (s.calls job.call).remaining - 1 } with
          workers := before ++ .idle :: after }
  | finish {c : ι} (h : (s.calls c).phase = .running) (hsent : (s.calls c).sent = (work c).size)
      (hremaining : (s.calls c).remaining = 0) :
      Step work s (.returned c)
        (s.setCall c { s.calls c with
          phase := .returned (Host.collectFaults (work c).size (s.calls c).faults) })
  | shut (h : s.gate = .opened) : Step work s .shut { s with gate := .shut }
  | close (h : s.gate = .shut) : Step work s .closed { s with gate := .closed }

/-- A pool of which nobody has made use yet. -/
def ofPool (pool : Pool) : Crew ι where
  gate := if pool.closed then .closed else .opened
  workers := List.replicate pool.threads .idle

/-- The states that a pool can reach, with everything that has happened on it. -/
inductive Runs (work : ι → Computation) (pool : Pool) : List (PoolEvent ι) → Crew ι → Prop
  | nil : Runs work pool [] (ofPool pool)
  | snoc {events : List (PoolEvent ι)} {s s' : Crew ι} {event : PoolEvent ι}
      (h : Runs work pool events s) (hstep : Step work s event s') :
      Runs work pool (events ++ [event]) s'

variable {work : ι → Computation} {pool : Pool} {events : List (PoolEvent ι)} {s s' : Crew ι}
  {event : PoolEvent ι}

theorem append_singleton_eq_iff {α : Type} {l before after : List α} {a b : α} :
    l ++ [a] = before ++ b :: after ↔
      (before = l ∧ b = a ∧ after = []) ∨
        ∃ rest, after = rest ++ [a] ∧ l = before ++ b :: rest := by
  constructor
  · intro h
    obtain rfl | ⟨rest, c, rfl⟩ := List.eq_nil_or_concat after
    · obtain ⟨hl, ha⟩ := List.append_inj' h rfl
      exact .inl ⟨hl.symm, (List.cons.inj ha).1.symm, rfl⟩
    · rw [List.concat_eq_append, ← List.cons_append, ← List.append_assoc] at h
      obtain ⟨hl, ha⟩ := List.append_inj' h rfl
      refine .inr ⟨rest, ?_, hl⟩
      rw [List.concat_eq_append, ha]
  · rintro (⟨rfl, rfl, rfl⟩ | ⟨rest, rfl, rfl⟩)
    · rfl
    · simp

/-! ### Where jobs are -/

/-- Every job is accounted for at every stage between the queue and the count: what came in is
still there or has gone on. -/
structure Accounted (work : ι → Computation) (events : List (PoolEvent ι)) (s : Crew ι) : Prop where
  queued : ∀ job : Job ι,
    events.count (.queued job) = if job.id < (s.calls job.call).sent then 1 else 0
  taken : ∀ job, events.count (.queued job) =
    s.queue.count job + (events.count (.taken job true) + events.count (.taken job false))
  abandoned : ∀ job, events.count (.taken job true) =
    s.workers.count (.taken job true) + events.count (.abandoned job)
  ran : ∀ job, events.count (.taken job false) =
    s.workers.count (.taken job false) + events.count (.ran job.call (job.item work))
  reported : ∀ job, events.count (.abandoned job) + events.count (.ran job.call (job.item work)) =
    s.workers.countP (Worker.hasRun job) + events.countP (PoolEvent.isReport job)
  counted : ∀ job, events.countP (PoolEvent.isReport job) =
    s.workers.count (.reported job) + events.count (.counted job)

/-- The threads and the gate follow what has happened. -/
structure Gated (work : ι → Computation) (events : List (PoolEvent ι)) (s : Crew ι) : Prop where
  shut : .shut ∈ events ↔ s.gate ≠ .opened
  closed : .closed ∈ events ↔ s.gate = .closed
  /-- A job is told of the shutdown that happened before it was taken. -/
  told : ∀ before after job shut, events = before ++ .taken job shut :: after →
    (shut = true ↔ .shut ∈ before)
  workers : s.workers ≠ []
  /-- No thread leaves while there is, or may yet be, something to do. -/
  gone : .gone ∈ s.workers → s.gate = .closed ∧ s.queue = [] ∧
    ∀ c, (s.calls c).phase = .running → (s.calls c).sent = (work c).size

/-- A computation began after closing the pool had come to its end. -/
def Refused (events : List (PoolEvent ι)) (c : ι) : Prop :=
  ∃ before after, events = before ++ .began c :: after ∧ .closed ∈ before

/-- The work-items of a computation whose jobs have been counted. -/
def countedOf (events : List (PoolEvent ι)) (c : ι) : List Nat :=
  events.filterMap fun
    | .counted job => if job.call = c then some job.id else none
    | _ => none

/-- The faults of a computation that have been reported. -/
def faultsOf (events : List (PoolEvent ι)) (c : ι) : List ItemFault :=
  events.filterMap fun
    | .reported job fault => if job.call = c then fault.map (ItemFault.mk job.id) else none
    | _ => none

/-- What is known of a computation. -/
def CallKept (work : ι → Computation) (events : List (PoolEvent ι)) (c : ι) (state : CallState) :
    Prop :=
  match state.phase with
  | .idle => .began c ∉ events ∧ state.sent = 0
  | .running => .began c ∈ events ∧ ¬ Refused events c ∧
    state.remaining = (work c).size - (countedOf events c).length
  | .returned result =>
    Refused events c ∧ state.sent = 0 ∧ result = .error .closed ∨
    ¬ Refused events c ∧ state.sent = (work c).size ∧
      (∀ id < (work c).size, .counted ⟨c, id⟩ ∈ events) ∧
      result = Host.collectFaults (work c).size (faultsOf events c)

/-- What holds on a pool at any time. -/
structure Orderly (work : ι → Computation) (events : List (PoolEvent ι)) (s : Crew ι) : Prop where
  accounted : Accounted work events s
  gated : Gated work events s
  sent_le : ∀ c, (s.calls c).sent ≤ (work c).size
  faults : ∀ c, (s.calls c).faults = faultsOf events c
  calls : ∀ c, CallKept work events c (s.calls c)
  /-- The fault of a job depends on its work-item and on what the job was told. -/
  waiting : ∀ job fault, .ran job fault ∈ s.workers →
    ∃ shut, .taken job shut ∈ events ∧ fault = job.fault? work shut
  verdict : ∀ job fault, .reported job fault ∈ events →
    ∃ shut, .taken job shut ∈ events ∧ fault = job.fault? work shut

namespace Accounted

/-- Everything happens to a job at most once, and only after it is sent. -/
theorem le_one (h : Accounted work events s) (job : Job ι) :
    s.queue.count job + (events.count (.taken job true) + events.count (.taken job false)) ≤ 1 ∧
    s.workers.countP (Worker.hasRun job) + events.countP (PoolEvent.isReport job) ≤ 1 ∧
    s.workers.countP (Worker.hasRun job) + events.count (.counted job) ≤ 1 ∧
    (¬ job.id < (s.calls job.call).sent →
      events.count (.taken job true) + events.count (.taken job false) = 0 ∧
      s.workers.countP (Worker.hasRun job) + events.countP (PoolEvent.isReport job) = 0 ∧
      events.count (.counted job) = 0) := by
  have hqueued := h.queued job
  have htaken := h.taken job
  have habandoned := h.abandoned job
  have hran := h.ran job
  have hreported := h.reported job
  have hcounted := h.counted job
  split at hqueued <;> omega

theorem lt_of_reported (h : Accounted work events s) {job : Job ι} {fault : Option String}
    (hmem : .reported job fault ∈ events) : job.id < (s.calls job.call).sent := by
  by_contra hid
  obtain ⟨-, hreported, -⟩ := (h.le_one job).2.2.2 hid
  have hpos : 0 < events.countP (PoolEvent.isReport job) :=
    List.countP_pos_iff.2 ⟨_, hmem, by simp [PoolEvent.isReport]⟩
  omega

theorem lt_of_counted (h : Accounted work events s) {job : Job ι}
    (hmem : .counted job ∈ events) : job.id < (s.calls job.call).sent := by
  by_contra hid
  obtain ⟨-, -, hcounted⟩ := (h.le_one job).2.2.2 hid
  have hpos := List.count_pos_iff.2 hmem
  omega

/-- A job that has not been reported has not been counted either. -/
theorem not_counted_of_ran (h : Accounted work events s) {job : Job ι} {fault : Option String}
    (hmem : .ran job fault ∈ s.workers) : .counted job ∉ events := by
  intro hcounted
  have hone := (h.le_one job).2.2.1
  have hran : 0 < s.workers.countP (Worker.hasRun job) :=
    List.countP_pos_iff.2 ⟨_, hmem, by simp [Worker.hasRun]⟩
  have hpos := List.count_pos_iff.2 hcounted
  omega

theorem mem_of_taken (h : Accounted work events s) {job : Job ι} {shut : Bool}
    (hmem : .taken job shut ∈ s.workers) : .taken job shut ∈ events := by
  have hpos := List.count_pos_iff.2 hmem
  apply List.count_pos_iff.1
  cases shut with
  | true =>
    have htrue := h.abandoned job
    omega
  | false =>
    have hfalse := h.ran job
    omega

end Accounted

omit [DecidableEq ι] in
theorem refused_append_iff {c : ι} :
    Refused (events ++ [event]) c ↔
      Refused events c ∨ event = .began c ∧ .closed ∈ events := by
  constructor
  · rintro ⟨before, after, hevents, hclosed⟩
    obtain ⟨rfl, rfl, -⟩ | ⟨rest, -, hrest⟩ := append_singleton_eq_iff.1 hevents
    · exact .inr ⟨rfl, hclosed⟩
    · exact .inl ⟨before, rest, hrest, hclosed⟩
  · rintro (⟨before, after, rfl, hclosed⟩ | ⟨rfl, hclosed⟩)
    · exact ⟨before, after ++ [event], by simp, hclosed⟩
    · exact ⟨events, [], rfl, hclosed⟩

omit [DecidableEq ι] in
theorem Refused.began_mem {c : ι} (h : Refused events c) : .began c ∈ events := by
  obtain ⟨before, after, rfl, -⟩ := h
  simp

theorem mem_countedOf {c : ι} {id : Nat} : id ∈ countedOf events c ↔ .counted ⟨c, id⟩ ∈ events := by
  simp only [countedOf, List.mem_filterMap]
  constructor
  · rintro ⟨e, he, heq⟩
    grind [cases Job]
  · intro hmem
    exact ⟨_, hmem, by simp⟩

theorem mem_faultsOf {c : ι} {f : ItemFault} :
    f ∈ faultsOf events c ↔ .reported ⟨c, f.item⟩ (some f.message) ∈ events := by
  simp only [faultsOf, List.mem_filterMap]
  constructor
  · rintro ⟨e, he, heq⟩
    obtain ⟨item, message⟩ := f
    cases e with
    | reported job fault => cases fault <;> grind [cases Job]
    | _ => cases heq
  · intro hmem
    exact ⟨_, hmem, by simp⟩

/-- A step of another computation, or one that neither reports nor counts, tells nothing new. -/
theorem CallKept.append {c : ι} {state : CallState} (h : CallKept work events c state)
    (event : PoolEvent ι) (hbegan : event ≠ .began c)
    (hcounted : countedOf (events ++ [event]) c = countedOf events c)
    (hfaults : faultsOf (events ++ [event]) c = faultsOf events c) :
    CallKept work (events ++ [event]) c state := by
  have hrefused : Refused (events ++ [event]) c ↔ Refused events c := by
    simp [refused_append_iff, hbegan]
  rw [CallKept] at h ⊢
  rw [hrefused, hcounted, hfaults]
  cases hphase : state.phase with
  | idle | running => simpa [hphase, hbegan.symm] using h
  | returned result =>
    simp only [hphase] at h ⊢
    refine h.imp_right ?_
    rintro ⟨haccepted, hsent, hall, hresult⟩
    exact ⟨haccepted, hsent, fun id hid => List.mem_append_left _ (hall id hid), hresult⟩

/-! ### The account is kept -/

namespace Orderly

/-- A computation that has jobs to send finds a thread that can take them. -/
theorem exists_thread (h : Orderly work events s) {c : ι} (hphase : (s.calls c).phase = .running)
    (hsent : (s.calls c).sent < (work c).size) : ∃ w ∈ s.workers, w ≠ .gone := by
  obtain ⟨w, hw⟩ := List.exists_mem_of_ne_nil _ h.gated.workers
  refine ⟨w, hw, ?_⟩
  rintro rfl
  obtain ⟨-, -, hall⟩ := h.gated.gone hw
  exact absurd (hall c hphase) (Nat.ne_of_lt hsent)

theorem not_lost (h : Orderly work events s) {c : ι} (hphase : (s.calls c).phase = .running)
    (hsent : (s.calls c).sent < (work c).size) : ¬ ∀ w ∈ s.workers, w = .gone := by
  intro hgone
  obtain ⟨w, hw, hne⟩ := h.exists_thread hphase hsent
  exact hne (hgone w hw)

theorem queued_step (h : Orderly work events s) (hstep : Step work s event s') (job : Job ι) :
    (events ++ [event]).count (.queued job) =
      if job.id < (s'.calls job.call).sent then 1 else 0 := by
  have hjob := h.accounted.queued job
  cases hstep with
  | lose hphase hsent hgone => exact absurd hgone (h.not_lost hphase hsent)
  | @send c hphase hsent _ =>
    obtain ⟨call, id⟩ := job
    simp only [setCall, Function.update_apply, List.count_append, List.count_singleton]
    grind
  | @refuse c hphase _ | @skip c hphase _ _ | @begin c hphase _ _ =>
    have hsent := h.calls c
    rw [CallKept, hphase] at hsent
    simp only [setCall, Function.update_apply, List.count_append, List.count_singleton]
    grind
  | report _ | count _ | finish _ _ _ =>
    simp only [setCall, Function.update_apply, List.count_append, List.count_singleton]
    grind
  | take _ _ | run _ | abandon _ | leave _ _ _ _ | shut _ | close _ => simpa using hjob

theorem taken_step (h : Orderly work events s) (hstep : Step work s event s') (job : Job ι) :
    (events ++ [event]).count (.queued job) = s'.queue.count job +
      ((events ++ [event]).count (.taken job true) +
        (events ++ [event]).count (.taken job false)) := by
  have hjob := h.accounted.taken job
  simp only [List.count_append, List.count_singleton]
  cases hstep with
  | send _ _ _ =>
    simp only [List.count_append, List.count_singleton]
    grind
  | @take _ _ j front back _ hqueue =>
    rw [hqueue] at hjob
    simp only [List.count_append, List.count_cons] at hjob ⊢
    cases s.gate <;> grind
  | _ => simpa [setCall] using hjob

theorem abandoned_step (h : Orderly work events s) (hstep : Step work s event s') (job : Job ι) :
    (events ++ [event]).count (.taken job true) =
      s'.workers.count (.taken job true) + (events ++ [event]).count (.abandoned job) := by
  have hjob := h.accounted.abandoned job
  simp only [List.count_append, List.count_singleton]
  cases hstep with
  | take hworkers _ | run hworkers | abandon hworkers | report hworkers | count hworkers
  | leave hworkers _ _ _ =>
    rw [hworkers] at hjob
    simp only [List.count_append, List.count_cons] at hjob ⊢
    grind
  | _ => simpa [setCall] using hjob

theorem ran_step (h : Orderly work events s) (hstep : Step work s event s') (job : Job ι) :
    (events ++ [event]).count (.taken job false) = s'.workers.count (.taken job false) +
      (events ++ [event]).count (.ran job.call (job.item work)) := by
  have hjob := h.accounted.ran job
  simp only [List.count_append, List.count_singleton]
  cases hstep with
  | run hworkers =>
    rw [hworkers] at hjob
    simp only [List.count_append, List.count_cons] at hjob ⊢
    grind [Job.ran_eq_iff]
  | take hworkers _ | abandon hworkers | report hworkers | count hworkers
  | leave hworkers _ _ _ =>
    rw [hworkers] at hjob
    simp only [List.count_append, List.count_cons] at hjob ⊢
    grind
  | _ => simpa [setCall] using hjob

theorem reported_step (h : Orderly work events s) (hstep : Step work s event s') (job : Job ι) :
    (events ++ [event]).count (.abandoned job) +
        (events ++ [event]).count (.ran job.call (job.item work)) =
      s'.workers.countP (Worker.hasRun job) +
        (events ++ [event]).countP (PoolEvent.isReport job) := by
  have hjob := h.accounted.reported job
  simp only [List.count_append, List.count_singleton, List.countP_append, List.countP_singleton]
  cases hstep with
  | run hworkers =>
    rw [hworkers] at hjob
    simp only [List.countP_append, List.countP_cons] at hjob ⊢
    grind [Job.ran_eq_iff, Worker.hasRun, PoolEvent.isReport]
  | take hworkers _ | abandon hworkers | report hworkers | count hworkers
  | leave hworkers _ _ _ =>
    rw [hworkers] at hjob
    simp only [List.countP_append, List.countP_cons] at hjob ⊢
    grind [Worker.hasRun, PoolEvent.isReport]
  | _ => simpa [setCall, PoolEvent.isReport] using hjob

theorem counted_step (h : Orderly work events s) (hstep : Step work s event s') (job : Job ι) :
    (events ++ [event]).countP (PoolEvent.isReport job) =
      s'.workers.count (.reported job) + (events ++ [event]).count (.counted job) := by
  have hjob := h.accounted.counted job
  simp only [List.count_append, List.count_singleton, List.countP_append, List.countP_singleton]
  cases hstep with
  | take hworkers _ | run hworkers | abandon hworkers | report hworkers | count hworkers
  | leave hworkers _ _ _ =>
    rw [hworkers] at hjob
    simp only [List.count_append, List.count_cons] at hjob ⊢
    grind [PoolEvent.isReport]
  | _ => simpa [setCall, PoolEvent.isReport] using hjob

theorem accounted_step (h : Orderly work events s) (hstep : Step work s event s') :
    Accounted work (events ++ [event]) s' where
  queued := h.queued_step hstep
  taken := h.taken_step hstep
  abandoned := h.abandoned_step hstep
  ran := h.ran_step hstep
  reported := h.reported_step hstep
  counted := h.counted_step hstep

/-! ### The gate is kept -/

theorem shut_step (h : Orderly work events s) (hstep : Step work s event s') :
    .shut ∈ events ++ [event] ↔ s'.gate ≠ .opened := by
  cases hstep with
  | shut hgate => simp
  | close hgate => simp [h.gated.shut, hgate]
  | _ => simpa [setCall] using h.gated.shut

theorem closed_step (h : Orderly work events s) (hstep : Step work s event s') :
    .closed ∈ events ++ [event] ↔ s'.gate = .closed := by
  cases hstep with
  | shut hgate => simp [h.gated.closed, hgate]
  | close hgate => simp
  | _ => simpa [setCall] using h.gated.closed

theorem told_step (h : Orderly work events s) (hstep : Step work s event s')
    (before after : List (PoolEvent ι)) (job : Job ι) (shut : Bool)
    (hevents : events ++ [event] = before ++ .taken job shut :: after) :
    shut = true ↔ .shut ∈ before := by
  obtain ⟨rfl, rfl, -⟩ | ⟨rest, -, hrest⟩ := append_singleton_eq_iff.1 hevents
  · cases hstep with
    | take _ _ => simp [h.gated.shut]
  · exact h.gated.told before rest job shut hrest

theorem workers_step (h : Orderly work events s) (hstep : Step work s event s') :
    s'.workers ≠ [] := by
  cases hstep with
  | take _ _ | run _ | abandon _ | report _ | count _ | leave _ _ _ _ => simp
  | _ => exact h.gated.workers

theorem gone_step (h : Orderly work events s) (hstep : Step work s event s')
    (hgone : .gone ∈ s'.workers) : s'.gate = .closed ∧ s'.queue = [] ∧
      ∀ c, (s'.calls c).phase = .running → (s'.calls c).sent = (work c).size := by
  have hold := h.gated.gone
  cases hstep with
  | leave hworkers hgate hqueue hsent => exact ⟨hgate, hqueue, hsent⟩
  | shut hgate | close hgate =>
    obtain ⟨hclosed, -⟩ := hold hgone
    cases hgate.symm.trans hclosed
  | begin _ hgate _ => exact absurd (hold hgone).1 hgate
  | send hphase hsent _ => exact absurd ((hold hgone).2.2 _ hphase) (Nat.ne_of_lt hsent)
  | lose hphase hsent _ => exact absurd ((hold hgone).2.2 _ hphase) (Nat.ne_of_lt hsent)
  | take hworkers hqueue =>
    have hmem : .gone ∈ s.workers := by
      rw [hworkers]
      simpa using hgone
    have hempty := (hold hmem).2.1
    simp [hqueue] at hempty
  | run hworkers | abandon hworkers =>
    refine hold ?_
    rw [hworkers]
    simpa using hgone
  | refuse _ _ | skip _ _ _ | finish _ _ _ =>
    obtain ⟨hgate, hqueue, hsent⟩ := hold hgone
    refine ⟨hgate, hqueue, ?_⟩
    simp only [setCall, Function.update_apply]
    grind
  | report hworkers | count hworkers =>
    obtain ⟨hgate, hqueue, hsent⟩ := hold (by
      rw [hworkers]
      simpa using hgone)
    refine ⟨hgate, hqueue, ?_⟩
    simp only [setCall, Function.update_apply]
    grind

theorem gated_step (h : Orderly work events s) (hstep : Step work s event s') :
    Gated work (events ++ [event]) s' where
  shut := h.shut_step hstep
  closed := h.closed_step hstep
  told := h.told_step hstep
  workers := h.workers_step hstep
  gone := h.gone_step hstep

/-! ### What is known of computations is kept -/

theorem sent_le_step (h : Orderly work events s) (hstep : Step work s event s') (c : ι) :
    (s'.calls c).sent ≤ (work c).size := by
  have hsent := h.sent_le
  cases hstep with
  | take _ _ | run _ | abandon _ | leave _ _ _ _ | shut _ | close _ => exact hsent c
  | _ =>
    simp only [setCall, Function.update_apply]
    grind

/-- What has not begun has sent nothing, so nothing has happened to its jobs. -/
theorem countedOf_eq_nil (h : Accounted work events s) {c : ι} (hsent : (s.calls c).sent = 0) :
    countedOf events c = [] := by
  rw [List.eq_nil_iff_forall_not_mem]
  intro id hid
  have hlt := h.lt_of_counted (mem_countedOf.1 hid)
  simp [hsent] at hlt

theorem faultsOf_eq_nil (h : Accounted work events s) {c : ι} (hsent : (s.calls c).sent = 0) :
    faultsOf events c = [] := by
  rw [List.eq_nil_iff_forall_not_mem]
  intro f hf
  have hlt := h.lt_of_reported (mem_faultsOf.1 hf)
  simp [hsent] at hlt

theorem faults_step (h : Orderly work events s) (hstep : Step work s event s') (c : ι) :
    (s'.calls c).faults = faultsOf (events ++ [event]) c := by
  have hfaults := h.faults c
  have hempty := faultsOf_eq_nil (c := c) h.accounted
  have hkept := h.calls c
  cases hstep with
  | lose hphase hsent hgone => exact absurd hgone (h.not_lost hphase hsent)
  | take _ _ | run _ | abandon _ | leave _ _ _ _ | shut _ | close _ =>
    simpa [faultsOf] using hfaults
  | @refuse d hphase _ | @skip d hphase _ _ | @begin d hphase _ _ =>
    simp only [setCall, Function.update_apply, faultsOf, List.filterMap_append] at *
    split_ifs with hcd
    · subst hcd
      rw [CallKept, hphase] at hkept
      simp [hempty hkept.2]
    · simpa using hfaults
  | @report _ _ job fault hworkers =>
    simp only [setCall, Function.update_apply, faultsOf, List.filterMap_append] at *
    split_ifs with hcd
    · subst hcd
      cases fault <;> simp [hfaults]
    · simp [hfaults, Ne.symm hcd]
  | send _ _ _ | count _ | finish _ _ _ =>
    simp only [setCall, Function.update_apply, faultsOf, List.filterMap_append] at *
    split_ifs with hcd
    · subst hcd
      simpa using hfaults
    · simpa using hfaults

/-- Once as many jobs are counted as a computation has work-items, each of them is. -/
theorem counted_of_length_le (h : Orderly work events s) {c : ι}
    (hlength : (work c).size ≤ (countedOf events c).length) {id : Nat} (hid : id < (work c).size) :
    .counted ⟨c, id⟩ ∈ events := by
  have hnodup : (countedOf events c).Nodup := by
    rw [List.nodup_iff_count_le_one]
    intro id
    have hone := (h.accounted.le_one ⟨c, id⟩).2.2.1
    calc (countedOf events c).count id
        ≤ events.count (.counted ⟨c, id⟩) := by
          rw [countedOf, List.count_filterMap]
          apply List.countP_mono_left
          intro e _ he
          cases e with
          | counted job => grind [cases Job]
          | _ => simp at he
      _ ≤ 1 := by omega
  have hsubset : countedOf events c ⊆ List.range (work c).size := by
    intro id hid
    rw [List.mem_range]
    exact (h.accounted.lt_of_counted (mem_countedOf.1 hid)).trans_le (h.sent_le c)
  have hperm := (hnodup.subperm hsubset).perm_of_length_le (by simpa using hlength)
  exact mem_countedOf.1 (hperm.mem_iff.2 (List.mem_range.2 hid))

theorem not_refused (h : Orderly work events s) {c : ι} (hphase : (s.calls c).phase = .idle)
    (hgate : s.gate ≠ .closed) : ¬ Refused (events ++ [.began c]) c := by
  have hkept := h.calls c
  rw [CallKept, hphase] at hkept
  rw [refused_append_iff, h.gated.closed]
  rintro (hrefused | ⟨-, hclosed⟩)
  · exact hkept.1 hrefused.began_mem
  · exact hgate hclosed

/-- A computation with a job that has not been reported has not returned, or it was refused. -/
theorem not_returned_of_ran (h : Orderly work events s) {job : Job ι} {fault : Option String}
    (hran : .ran job fault ∈ s.workers) :
    ¬ ∀ id < (work job.call).size, .counted ⟨job.call, id⟩ ∈ events := by
  intro hall
  have hlt : job.id < (s.calls job.call).sent := by
    by_contra hid
    obtain ⟨-, hreported, -⟩ := (h.accounted.le_one job).2.2.2 hid
    have hpos : 0 < s.workers.countP (Worker.hasRun job) :=
      List.countP_pos_iff.2 ⟨_, hran, by simp [Worker.hasRun]⟩
    omega
  exact h.accounted.not_counted_of_ran hran (hall _ (hlt.trans_le (h.sent_le _)))

/-- A report tells a running computation a fault. One that has returned was refused, for it would have
counted the job. -/
theorem callKept_reported (h : Orderly work events s) {job : Job ι} {fault : Option String}
    (hran : .ran job fault ∈ s.workers) (faults : List ItemFault) :
    CallKept work (events ++ [.reported job fault]) job.call
      { s.calls job.call with faults := faults } := by
  have hkept := h.calls job.call
  rw [CallKept] at hkept ⊢
  cases hphase : (s.calls job.call).phase with
  | idle => simpa [hphase] using hkept
  | running => simpa [hphase, refused_append_iff, countedOf] using hkept
  | returned result =>
    simp only [hphase] at hkept ⊢
    obtain ⟨hrefused, hrest⟩ | ⟨-, -, hall, -⟩ := hkept
    · exact .inl ⟨refused_append_iff.2 (.inl hrefused), hrest⟩
    · exact absurd hall (h.not_returned_of_ran hran)

/-- A running computation waits for one job less when a job is counted. -/
theorem callKept_counted (h : Orderly work events s) (job : Job ι) :
    CallKept work (events ++ [.counted job]) job.call
      { s.calls job.call with remaining := (s.calls job.call).remaining - 1 } := by
  have hkept := h.calls job.call
  rw [CallKept] at hkept ⊢
  cases hphase : (s.calls job.call).phase with
  | idle => simpa [hphase] using hkept
  | running =>
    simp only [hphase] at hkept ⊢
    obtain ⟨hbegan, haccepted, hremaining⟩ := hkept
    refine ⟨by simp [hbegan], by simp [refused_append_iff, haccepted], ?_⟩
    simp only [countedOf, List.filterMap_append, List.length_append] at hremaining ⊢
    simp [hremaining, Nat.sub_sub]
  | returned result =>
    simp only [hphase] at hkept ⊢
    obtain ⟨hrefused, hrest⟩ | ⟨haccepted, hsent, hall, hresult⟩ := hkept
    · exact .inl ⟨refused_append_iff.2 (.inl hrefused), hrest⟩
    · refine .inr ⟨by simp [refused_append_iff, haccepted], hsent, ?_, ?_⟩
      · exact fun id hid => List.mem_append_left _ (hall id hid)
      · simpa [faultsOf] using hresult

/-- A computation that waits for no job any more has counted all of them. -/
theorem callKept_returned (h : Orderly work events s) {c : ι} (hphase : (s.calls c).phase = .running)
    (hsent : (s.calls c).sent = (work c).size) (hremaining : (s.calls c).remaining = 0) :
    CallKept work (events ++ [.returned c]) c { s.calls c with
      phase := .returned (Host.collectFaults (work c).size (s.calls c).faults) } := by
  have hkept := h.calls c
  rw [CallKept, hphase] at hkept
  obtain ⟨hbegan, haccepted, hcounted⟩ := hkept
  have hlength : (work c).size ≤ (countedOf events c).length := by omega
  refine .inr ⟨by simp [refused_append_iff, haccepted], hsent, ?_, ?_⟩
  · intro id hid
    exact List.mem_append_left _ (h.counted_of_length_le hlength hid)
  · simp [h.faults c, faultsOf]

theorem callKept_step (h : Orderly work events s) (hstep : Step work s event s') (c : ι) :
    CallKept work (events ++ [event]) c (s'.calls c) := by
  have hkept := h.calls c
  cases hstep with
  | lose hphase hsent hgone => exact absurd hgone (h.not_lost hphase hsent)
  | take _ _ | run _ | abandon _ | leave _ _ _ _ | shut _ | close _ =>
    exact hkept.append _ (by simp) (by simp [countedOf]) (by simp [faultsOf])
  | @refuse d hphase hgate =>
    simp only [setCall, Function.update_apply]
    split_ifs with hcd
    · subst hcd
      exact .inl ⟨refused_append_iff.2 (.inr ⟨rfl, h.gated.closed.2 hgate⟩), rfl, rfl⟩
    · exact hkept.append _ (by simpa using Ne.symm hcd) (by simp [countedOf]) (by simp [faultsOf])
  | @skip d hphase hgate hsize =>
    simp only [setCall, Function.update_apply]
    split_ifs with hcd
    · subst hcd
      rw [CallKept, hphase] at hkept
      have haccepted := h.not_refused hphase hgate
      have hfaults : faultsOf (events ++ [.began c]) c = [] := by
        simpa [faultsOf] using faultsOf_eq_nil h.accounted hkept.2
      refine .inr ⟨haccepted, hsize.symm, ?_, ?_⟩
      · simp [hsize]
      · simp [hfaults, Host.collectFaults]
    · exact hkept.append _ (by simpa using Ne.symm hcd) (by simp [countedOf]) (by simp [faultsOf])
  | @begin d hphase hgate hsize =>
    simp only [setCall, Function.update_apply]
    split_ifs with hcd
    · subst hcd
      rw [CallKept, hphase] at hkept
      have haccepted := h.not_refused hphase hgate
      have hcounted : countedOf (events ++ [.began c]) c = [] := by
        simpa [countedOf] using countedOf_eq_nil h.accounted hkept.2
      refine ⟨by simp, haccepted, ?_⟩
      simp [hcounted]
    · exact hkept.append _ (by simpa using Ne.symm hcd) (by simp [countedOf]) (by simp [faultsOf])
  | @send d hphase _ _ =>
    have hkept' := hkept.append (.queued ⟨d, (s.calls d).sent⟩) (by simp)
      (by simp [countedOf]) (by simp [faultsOf])
    simp only [setCall, Function.update_apply]
    split_ifs with hcd
    · subst hcd
      rw [CallKept, hphase] at hkept'
      simpa [CallKept, hphase] using hkept'
    · exact hkept'
  | @report _ _ job fault hworkers =>
    have hran : .ran job fault ∈ s.workers := by
      rw [hworkers]
      simp
    simp only [setCall, Function.update_apply]
    split_ifs with hcd
    · subst hcd
      exact h.callKept_reported hran _
    · exact hkept.append _ (by simp) (by simp [countedOf]) (by simp [faultsOf, Ne.symm hcd])
  | @count _ _ job hworkers =>
    simp only [setCall, Function.update_apply]
    split_ifs with hcd
    · subst hcd
      exact h.callKept_counted job
    · exact hkept.append _ (by simp) (by simp [countedOf, Ne.symm hcd]) (by simp [faultsOf])
  | @finish d hphase hsent hremaining =>
    simp only [setCall, Function.update_apply]
    split_ifs with hcd
    · subst hcd
      exact h.callKept_returned hphase hsent hremaining
    · exact hkept.append (.returned d) (by simp) (by simp [countedOf]) (by simp [faultsOf])

/-! ### Faults of jobs are kept -/

theorem waiting_step (h : Orderly work events s) (hstep : Step work s event s') (job : Job ι)
    (fault : Option String) (hran : .ran job fault ∈ s'.workers) :
    ∃ shut, .taken job shut ∈ events ++ [event] ∧ fault = job.fault? work shut := by
  have hkept (hold : .ran job fault ∈ s.workers) :
      ∃ shut, .taken job shut ∈ events ++ [event] ∧ fault = job.fault? work shut := by
    obtain ⟨shut, htaken, hfault⟩ := h.waiting job fault hold
    exact ⟨shut, List.mem_append_left _ htaken, hfault⟩
  cases hstep with
  | @run before after j hworkers =>
    rw [hworkers] at hkept
    have htaken : .taken j false ∈ events := h.accounted.mem_of_taken (by simp [hworkers])
    grind
  | @abandon before after j hworkers =>
    rw [hworkers] at hkept
    have htaken : .taken j true ∈ events := h.accounted.mem_of_taken (by simp [hworkers])
    grind
  | take hworkers _ | report hworkers | count hworkers | leave hworkers _ _ _ =>
    rw [hworkers] at hkept
    grind
  | _ => exact hkept hran

theorem verdict_step (h : Orderly work events s) (hstep : Step work s event s') (job : Job ι)
    (fault : Option String) (hreported : .reported job fault ∈ events ++ [event]) :
    ∃ shut, .taken job shut ∈ events ++ [event] ∧ fault = job.fault? work shut := by
  rw [List.mem_append] at hreported
  obtain hold | hnew := hreported
  · obtain ⟨shut, htaken, hfault⟩ := h.verdict job fault hold
    exact ⟨shut, List.mem_append_left _ htaken, hfault⟩
  · rw [List.mem_singleton] at hnew
    subst hnew
    cases hstep with
    | report hworkers =>
      obtain ⟨shut, htaken, hfault⟩ := h.waiting job fault (by simp [hworkers])
      exact ⟨shut, List.mem_append_left _ htaken, hfault⟩

theorem step (h : Orderly work events s) (hstep : Step work s event s') :
    Orderly work (events ++ [event]) s' where
  accounted := h.accounted_step hstep
  gated := h.gated_step hstep
  sent_le := h.sent_le_step hstep
  faults := h.faults_step hstep
  calls := h.callKept_step hstep
  waiting := h.waiting_step hstep
  verdict := h.verdict_step hstep

theorem start (work : ι → Computation) (threads : Nat) :
    Orderly work [] (ofPool (Pool.ofThreads threads)) where
  accounted := by
    refine ⟨?_, ?_, ?_, ?_, ?_, ?_⟩ <;> intro job <;>
      simp [ofPool, List.count_replicate, List.countP_replicate, Worker.hasRun]
  gated := by
    refine ⟨?_, ?_, ?_, ?_, ?_⟩ <;> simp [ofPool, Pool.ofThreads]
  sent_le := by simp [ofPool]
  faults := by simp [ofPool, faultsOf]
  calls := by simp [ofPool, CallKept]
  waiting := by simp [ofPool]
  verdict := by simp

end Orderly

theorem Runs.orderly {threads : Nat} (h : Runs work (Pool.ofThreads threads) events s) :
    Orderly work events s := by
  induction h with
  | nil => exact Orderly.start work threads
  | snoc _ hstep ih => exact ih.step hstep

end Crew

end KernelForge.Launch
