import Mathlib
import KernelForge.Proofs.Crew
import KernelForge.Proofs.Faults

/-!
# Computations on a pool under every schedule

A computation that returns has had every work-item run or abandoned once, and returns what the same
jobs return one after the other in the order in which they were taken (`returned_eq_pool`); if the
pool is not shut down, what they return on threads that are never shut down, in whatever order
(`returned_eq_parallel`). A computation that has begun does return: while one is running there is
something to do (`goes_on`), and only so much can be done (`Runs.length_le`).
-/

namespace KernelForge.Launch

variable {ι : Type}

/-- How many steps a thread may still do with what it has. -/
def Worker.load : Worker ι → Nat
  | gone => 0
  | idle => 1
  | reported _ => 2
  | ran _ _ => 3
  | taken _ _ => 4

/-- How many steps a computation may still cause. -/
def CallState.load (size : Nat) (state : CallState) : Nat :=
  match state.phase with
  | .idle => 5 * size + 2
  | .running => 5 * (size - state.sent) + 1
  | .returned _ => 0

def Gate.load : Gate → Nat
  | opened => 2
  | shut => 1
  | closed => 0

namespace Crew

variable [DecidableEq ι] {work : ι → Computation} {events : List (PoolEvent ι)} {s s' : Crew ι}
  {event : PoolEvent ι}

/-! ### What a computation returns -/

/-- The work-items of a computation whose jobs have been taken, and whether each of them was told
of a shutdown. -/
def takenOf (events : List (PoolEvent ι)) (c : ι) : List (Nat × Bool) :=
  events.filterMap fun
    | .taken job shut => if job.call = c then some (job.id, shut) else none
    | _ => none

theorem mem_takenOf {c : ι} {id : Nat} {shut : Bool} :
    (id, shut) ∈ takenOf events c ↔ .taken ⟨c, id⟩ shut ∈ events := by
  simp only [takenOf, List.mem_filterMap]
  constructor
  · rintro ⟨e, he, heq⟩
    grind [cases Job]
  · intro hmem
    exact ⟨_, hmem, by simp⟩

theorem count_takenOf (events : List (PoolEvent ι)) (c : ι) (id : Nat) :
    ((takenOf events c).map Prod.fst).count id =
      events.count (.taken ⟨c, id⟩ true) + events.count (.taken ⟨c, id⟩ false) := by
  induction events with
  | nil => rfl
  | cons e rest ih =>
    rw [takenOf] at ih ⊢
    cases e with
    | taken job shut =>
      obtain ⟨d, i⟩ := job
      by_cases hd : d = c <;> by_cases hi : i = id <;> cases shut <;>
        simp [hd, hi, ih] <;> omega
    | _ => simpa using ih

namespace Orderly

theorem eq_of_taken (h : Orderly work events s) {job : Job ι} {shut shut' : Bool}
    (htaken : .taken job shut ∈ events) (htaken' : .taken job shut' ∈ events) : shut = shut' := by
  have hone := (h.accounted.le_one job).1
  have hpos := List.count_pos_iff.2 htaken
  have hpos' := List.count_pos_iff.2 htaken'
  cases shut <;> cases shut' <;> first | rfl | omega

/-- A job that has been counted was run or abandoned once, and is nowhere any more. -/
theorem counts_of_counted (h : Orderly work events s) {job : Job ι}
    (hcounted : .counted job ∈ events) :
    events.count (.ran job.call (job.item work)) + events.count (.abandoned job) = 1 ∧
      job ∉ s.queue ∧ ∀ w ∈ s.workers, w.job? ≠ some job := by
  have hone := h.accounted.le_one job
  have htaken := h.accounted.taken job
  have habandoned := h.accounted.abandoned job
  have hran := h.accounted.ran job
  have hreported := h.accounted.reported job
  have hcount := h.accounted.counted job
  have hpos := List.count_pos_iff.2 hcounted
  refine ⟨by omega, ?_, ?_⟩
  · rw [← List.count_eq_zero]
    omega
  · intro w hw hjob
    cases w with
    | gone | idle => cases hjob
    | taken j shut =>
      obtain rfl : j = job := Option.some.inj hjob
      have hbusy := List.count_pos_iff.2 hw
      cases shut <;> omega
    | ran j fault =>
      obtain rfl : j = job := Option.some.inj hjob
      exact h.accounted.not_counted_of_ran hw hcounted
    | reported j =>
      obtain rfl : j = job := Option.some.inj hjob
      have hbusy := List.count_pos_iff.2 hw
      omega

/-- No work-item has two faults. -/
theorem distinct_faultsOf (h : Orderly work events s) (c : ι) :
    (faultsOf events c).Pairwise (·.item ≠ ·.item) := by
  rw [← List.pairwise_map, ← List.Nodup, List.nodup_iff_count_le_one]
  intro id
  have hone := (h.accounted.le_one ⟨c, id⟩).2.1
  calc ((faultsOf events c).map ItemFault.item).count id
      ≤ events.countP (PoolEvent.isReport ⟨c, id⟩) := by
        rw [faultsOf, List.count_eq_countP, List.countP_map, List.countP_filterMap]
        apply List.countP_mono_left
        intro e _ he
        cases e with
        | reported job fault => cases fault <;> grind [PoolEvent.isReport, cases Job]
        | _ => simp at he
    _ ≤ 1 := by omega

theorem distinct_takenOf (h : Orderly work events s) (c : ι) :
    (takenOf events c).Pairwise (·.1 ≠ ·.1) := by
  rw [← List.pairwise_map, ← List.Nodup, List.nodup_iff_count_le_one]
  intro id
  have hone := (h.accounted.le_one ⟨c, id⟩).1
  rw [count_takenOf]
  omega

theorem lt_of_taken (h : Orderly work events s) {c : ι} {id : Nat} {shut : Bool}
    (htaken : .taken ⟨c, id⟩ shut ∈ events) : id < (work c).size := by
  by_contra hid
  have hsent := h.sent_le c
  obtain ⟨hnone, -⟩ := (h.accounted.le_one ⟨c, id⟩).2.2.2 (by
    simp only
    omega)
  have hpos := List.count_pos_iff.2 htaken
  cases shut <;> omega

theorem exists_report (h : Orderly work events s) {job : Job ι} (hcounted : .counted job ∈ events) :
    ∃ fault, .reported job fault ∈ events := by
  have hcount := h.accounted.counted job
  have hpos := List.count_pos_iff.2 hcounted
  have hreport : 0 < events.countP (PoolEvent.isReport job) := by omega
  obtain ⟨e, he, hjob⟩ := List.countP_pos_iff.1 hreport
  cases e with
  | reported j fault =>
    obtain rfl : j = job := by simpa [PoolEvent.isReport] using hjob
    exact ⟨fault, he⟩
  | _ => cases hjob

/-- The jobs of a computation that have been taken when all are counted: one for each work-item. -/
theorem takenOf_perm (h : Orderly work events s) {c : ι}
    (hall : ∀ id < (work c).size, .counted ⟨c, id⟩ ∈ events) :
    ((takenOf events c).map Prod.fst).Perm (List.range (work c).size) := by
  rw [List.perm_ext_iff_of_nodup (List.pairwise_map.2 (h.distinct_takenOf c)) List.nodup_range]
  intro id
  rw [List.mem_range]
  constructor
  · intro hid
    obtain ⟨⟨id, shut⟩, htaken, rfl⟩ := List.mem_map.1 hid
    exact h.lt_of_taken (mem_takenOf.1 htaken)
  · intro hid
    obtain ⟨hrun, -⟩ := h.counts_of_counted (hall id hid)
    have habandoned := h.accounted.abandoned ⟨c, id⟩
    have hran := h.accounted.ran ⟨c, id⟩
    rw [← List.count_pos_iff, count_takenOf]
    omega

/-- When all jobs of a computation are counted, what it knows is the faults of the jobs that have
been taken. -/
theorem faultsOf_perm (h : Orderly work events s) {c : ι}
    (hall : ∀ id < (work c).size, .counted ⟨c, id⟩ ∈ events) :
    (faultsOf events c).Perm
      ((takenOf events c).filterMap (Host.faultOf (work c).process (work c).size)) := by
  have hdistinct : ((takenOf events c).filterMap
      (Host.faultOf (work c).process (work c).size)).Pairwise (·.item ≠ ·.item) := by
    rw [List.pairwise_filterMap]
    refine (h.distinct_takenOf c).imp ?_
    intro told told' hne f hf f' hf'
    rw [Host.item_of_faultOf hf, Host.item_of_faultOf hf']
    exact hne
  have hnodup {l : List ItemFault} (hl : l.Pairwise (·.item ≠ ·.item)) : l.Nodup :=
    hl.imp fun hne heq => hne (congrArg ItemFault.item heq)
  rw [List.perm_ext_iff_of_nodup (hnodup (h.distinct_faultsOf c)) (hnodup hdistinct)]
  intro f
  rw [mem_faultsOf, List.mem_filterMap]
  constructor
  · intro hreported
    obtain ⟨shut, htaken, hfault⟩ := h.verdict _ _ hreported
    refine ⟨(f.item, shut), mem_takenOf.2 htaken, ?_⟩
    have hmap := congrArg (Option.map (ItemFault.mk f.item)) hfault
    exact hmap.symm
  · rintro ⟨⟨id, shut⟩, htaken, hfault⟩
    rw [mem_takenOf] at htaken
    obtain ⟨fault, hreported⟩ := h.exists_report (hall id (h.lt_of_taken htaken))
    obtain ⟨shut', htaken', rfl⟩ := h.verdict _ _ hreported
    obtain rfl := h.eq_of_taken htaken htaken'
    obtain ⟨message, hmessage, rfl⟩ := Option.map_eq_some_iff.1 hfault
    have hjob : Job.fault? work ⟨c, id⟩ shut = some message := hmessage
    rwa [hjob] at hreported

/-- What is known of a computation that was not refused when it returns. -/
theorem returned (h : Orderly work events s) {c : ι} {result : Except Error Unit}
    (hphase : (s.calls c).phase = .returned result) (haccepted : ¬ Refused events c) :
    (∀ id < (work c).size, .counted ⟨c, id⟩ ∈ events) ∧
      result = Host.collectFaults (work c).size (faultsOf events c) := by
  have hkept := h.calls c
  rw [CallKept, hphase] at hkept
  obtain ⟨hrefused, -⟩ | ⟨-, -, hall, hresult⟩ := hkept
  · exact absurd hrefused haccepted
  · exact ⟨hall, hresult⟩

/-- A computation that was refused has returned, and nothing has happened to its jobs. -/
theorem refused (h : Orderly work events s) {c : ι} (hrefused : Refused events c) :
    (s.calls c).phase = .returned (.error .closed) ∧ takenOf events c = [] := by
  have hkept := h.calls c
  rw [CallKept] at hkept
  cases hphase : (s.calls c).phase with
  | idle =>
    rw [hphase] at hkept
    exact absurd hrefused.began_mem hkept.1
  | running =>
    rw [hphase] at hkept
    exact absurd hrefused hkept.2.1
  | returned result =>
    simp only [hphase] at hkept
    obtain ⟨-, hsent, rfl⟩ | ⟨haccepted, -⟩ := hkept
    · refine ⟨rfl, ?_⟩
      rw [List.eq_nil_iff_forall_not_mem]
      rintro ⟨id, shut⟩ htaken
      have hpos := List.count_pos_iff.2 (mem_takenOf.1 htaken)
      obtain ⟨hnone, -⟩ := (h.accounted.le_one ⟨c, id⟩).2.2.2 (by simp [hsent])
      cases shut <;> omega
    · exact absurd hrefused haccepted

/-- A computation on the pool returns what the same computation returns that runs its jobs one
after the other, in the order in which they were taken. -/
theorem returned_eq_pool (h : Orderly work events s) {c : ι} {result : Except Error Unit}
    (hphase : (s.calls c).phase = .returned result) (shut : Bool)
    (hshut : shut = true ↔ Refused events c) :
    result = Id.run ((Host.pool Host.answer (fun item => pure ((work c).process item))
      (work c).size ((takenOf events c).map Prod.fst)).run'
        (shut :: (takenOf events c).map Prod.snd)) := by
  cases shut with
  | true =>
    obtain ⟨hclosed, -⟩ := h.refused (hshut.1 rfl)
    rw [Host.run_pool_refused]
    rw [hphase] at hclosed
    exact Phase.returned.inj hclosed
  | false =>
    obtain ⟨hall, hresult⟩ := h.returned hphase (by simp [← hshut])
    have hperm := h.faultsOf_perm hall
    rw [hresult, Host.collectFaults_congr hperm (h.distinct_faultsOf c)]
    rw [Host.run_pool_answer]
    intro hsize
    have htaken := h.takenOf_perm hall
    simpa [hsize] using htaken

/-- Without a shutdown no job is told of one. -/
theorem takenOf_eq_map (h : Orderly work events s) (c : ι) (hshut : .shut ∉ events) :
    ((takenOf events c).map Prod.fst).map (·, false) = takenOf events c := by
  have hfalse : ∀ told ∈ takenOf events c, (told.1, false) = told := by
    rintro ⟨id, shut⟩ htaken
    rw [mem_takenOf] at htaken
    cases shut with
    | false => rfl
    | true =>
      obtain ⟨before, after, rfl⟩ := List.append_of_mem htaken
      have hbefore := (h.gated.told before after _ true rfl).1 rfl
      exact absurd (List.mem_append_left _ hbefore) hshut
  calc ((takenOf events c).map Prod.fst).map (·, false)
      = (takenOf events c).map id := by
        rw [List.map_map]
        exact List.map_congr_left hfalse
    _ = takenOf events c := List.map_id _

/-- Without a shutdown a computation returns what it returns on threads that are never shut down,
whatever the order of the jobs there. -/
theorem returned_eq_parallel (h : Orderly work events s) {c : ι} {result : Except Error Unit}
    (hphase : (s.calls c).phase = .returned result) (haccepted : ¬ Refused events c)
    (hshut : .shut ∉ events) {order : List Nat}
    (horder : order.Perm (List.range (work c).size)) :
    result = Id.run (Host.parallel (fun item => pure ((work c).process item))
      (work c).size order) := by
  obtain ⟨hall, hresult⟩ := h.returned hphase haccepted
  have htaken : (takenOf events c).Perm (order.map (·, false)) := by
    rw [← h.takenOf_eq_map c hshut]
    exact ((h.takenOf_perm hall).trans horder.symm).map _
  rw [hresult, Host.run_parallel]
  exact Host.collectFaults_congr ((h.faultsOf_perm hall).trans (htaken.filterMap _))
    (h.distinct_faultsOf c)

/-- A job that is abandoned was told of a shutdown, and a job that is run was not. -/
theorem taken_of_ended (h : Orderly work events s) (job : Job ι) :
    (.abandoned job ∈ events → .taken job true ∈ events) ∧
      (.ran job.call (job.item work) ∈ events → .taken job false ∈ events) := by
  have habandoned := h.accounted.abandoned job
  have hran := h.accounted.ran job
  simp only [← List.count_pos_iff]
  omega

theorem ended_of_counted (h : Orderly work events s) {job : Job ι}
    (hcounted : .counted job ∈ events) :
    (.taken job true ∈ events → .abandoned job ∈ events) ∧
      (.taken job false ∈ events → .ran job.call (job.item work) ∈ events) := by
  obtain ⟨hone, -⟩ := h.counts_of_counted hcounted
  have habandoned := h.accounted.abandoned job
  have hran := h.accounted.ran job
  have hle := (h.accounted.le_one job).1
  simp only [← List.count_pos_iff]
  omega

/-- A job that is counted was taken once, and was run or abandoned according to whether the pool was
shut then. -/
theorem once_of_counted (h : Orderly work events s) {job : Job ι}
    (hcounted : .counted job ∈ events) :
    ∃ before shut after, events = before ++ .taken job shut :: after ∧
      (shut = true ↔ .shut ∈ before) ∧
      events.count (.ran job.call (job.item work)) = (if shut then 0 else 1) ∧
      events.count (.abandoned job) = (if shut then 1 else 0) := by
  obtain ⟨hone, -⟩ := h.counts_of_counted hcounted
  have habandoned := h.accounted.abandoned job
  have hran := h.accounted.ran job
  have hle := (h.accounted.le_one job).1
  have htaken : ∃ shut, .taken job shut ∈ events := by
    by_contra! hnone
    rw [List.count_eq_zero.2 (hnone true)] at habandoned
    rw [List.count_eq_zero.2 (hnone false)] at hran
    omega
  obtain ⟨shut, hmem⟩ := htaken
  have hpos := List.count_pos_iff.2 hmem
  obtain ⟨before, after, hevents⟩ := List.append_of_mem hmem
  refine ⟨before, shut, after, hevents, h.gated.told before after job shut hevents, ?_, ?_⟩
  · cases shut <;> simp only [if_true, Bool.false_eq_true, if_false] <;> omega
  · cases shut <;> simp only [if_true, Bool.false_eq_true, if_false] <;> omega

/-- The faults of a computation: those of the work-items that failed, and those that were
abandoned. -/
theorem mem_faultsOf_iff (h : Orderly work events s) {c : ι}
    (hall : ∀ id < (work c).size, .counted ⟨c, id⟩ ∈ events) {f : ItemFault} :
    f ∈ faultsOf events c ↔
      (.abandoned ⟨c, f.item⟩ ∈ events ∧ f.message = Host.abandoned) ∨
      (.ran c ⟨f.item, (work c).size⟩ ∈ events ∧
        ((work c).process ⟨f.item, (work c).size⟩).fault? = some f.message) := by
  rw [(h.faultsOf_perm hall).mem_iff, List.mem_filterMap]
  constructor
  · rintro ⟨⟨id, shut⟩, htaken, hfault⟩
    rw [mem_takenOf] at htaken
    have hended := h.ended_of_counted (hall id (h.lt_of_taken htaken))
    obtain ⟨message, hmessage, rfl⟩ := Option.map_eq_some_iff.1 hfault
    cases shut with
    | true => exact .inl ⟨hended.1 htaken, (Option.some.inj hmessage).symm⟩
    | false => exact .inr ⟨hended.2 htaken, hmessage⟩
  · obtain ⟨item, message⟩ := f
    rintro (⟨habandoned, rfl⟩ | ⟨hran, hmessage⟩)
    · have htaken := (h.taken_of_ended ⟨c, item⟩).1 habandoned
      exact ⟨(item, true), mem_takenOf.2 htaken, rfl⟩
    · have htaken := (h.taken_of_ended ⟨c, item⟩).2 hran
      exact ⟨(item, false), mem_takenOf.2 htaken, congrArg (Option.map _) hmessage⟩

/-- A computation succeeds if all its work-items are run and succeed. -/
theorem faultsOf_eq_nil_iff (h : Orderly work events s) {c : ι}
    (hall : ∀ id < (work c).size, .counted ⟨c, id⟩ ∈ events) :
    faultsOf events c = [] ↔ ∀ id < (work c).size, .ran c ⟨id, (work c).size⟩ ∈ events ∧
      (work c).process ⟨id, (work c).size⟩ = .done := by
  rw [List.eq_nil_iff_forall_not_mem]
  simp only [h.mem_faultsOf_iff hall]
  constructor
  · intro hnone id hid
    obtain ⟨hone, -⟩ := h.counts_of_counted (hall id hid)
    have habandoned : .abandoned ⟨c, id⟩ ∉ events := fun hmem =>
      hnone ⟨id, Host.abandoned⟩ (.inl ⟨hmem, rfl⟩)
    have hran : .ran c ⟨id, (work c).size⟩ ∈ events := by
      simp only [Job.item, List.count_eq_zero_of_not_mem habandoned] at hone
      apply List.count_pos_iff.1
      omega
    refine ⟨hran, ?_⟩
    cases hprocess : (work c).process ⟨id, (work c).size⟩ with
    | done => rfl
    | fault message => exact absurd (.inr ⟨hran, by rw [hprocess]; rfl⟩) (hnone ⟨id, message⟩)
    | panic text => exact absurd (.inr ⟨hran, by rw [hprocess]; rfl⟩) (hnone ⟨id, _⟩)
  · rintro hrun ⟨id, message⟩ (⟨habandoned, -⟩ | ⟨hran, hmessage⟩)
    · have hid : id < (work c).size := h.lt_of_taken ((h.taken_of_ended ⟨c, id⟩).1 habandoned)
      obtain ⟨hone, -⟩ := h.counts_of_counted (hall id hid)
      have hpos := List.count_pos_iff.2 habandoned
      have hpos' := List.count_pos_iff.2 (hrun id hid).1
      simp only [Job.item] at hone hpos
      omega
    · have hid := h.lt_of_taken ((h.taken_of_ended ⟨c, id⟩).2 hran)
      rw [(hrun id hid).2] at hmessage
      cases hmessage

/-! ### Computations come to an end -/

theorem busy_goes_on (hw : ∃ w ∈ s.workers, w.job? ≠ none) :
    ∃ event s', Step work s event s' ∧ ∀ d, event ≠ .began d := by
  obtain ⟨w, hw, hjob⟩ := hw
  obtain ⟨before, after, hworkers⟩ := List.append_of_mem hw
  cases w with
  | gone | idle => exact absurd rfl hjob
  | taken job shut =>
    cases shut with
    | true => exact ⟨_, _, .abandon hworkers, by simp⟩
    | false => exact ⟨_, _, .run hworkers, by simp⟩
  | ran job fault => exact ⟨_, _, .report hworkers, by simp⟩
  | reported job => exact ⟨_, _, .count hworkers, by simp⟩

theorem exists_uncounted (h : Orderly work events s) {c : ι}
    (hphase : (s.calls c).phase = .running) (hremaining : (s.calls c).remaining ≠ 0) :
    ∃ id < (work c).size, .counted ⟨c, id⟩ ∉ events := by
  by_contra! hall
  have hkept := h.calls c
  rw [CallKept, hphase] at hkept
  have hsubset : List.range (work c).size ⊆ countedOf events c := by
    intro id hid
    exact mem_countedOf.2 (hall id (List.mem_range.1 hid))
  have hlength := (List.nodup_range.subperm hsubset).length_le
  rw [List.length_range] at hlength
  omega

/-- When no thread has a job, the jobs that are not counted are in the queue. -/
theorem mem_queue (h : Orderly work events s) (hidle : ∀ w ∈ s.workers, w.job? = none) {job : Job ι}
    (hid : job.id < (s.calls job.call).sent) (hcounted : .counted job ∉ events) :
    job ∈ s.queue := by
  have hnot {w : Worker ι} (hjob : w.job? = some job) : s.workers.count w = 0 :=
    List.count_eq_zero.2 fun hw => by simp [hidle w hw] at hjob
  have hrun : s.workers.countP (Worker.hasRun job) = 0 := by
    refine List.countP_eq_zero.2 fun w hw => ?_
    have hnone := hidle w hw
    cases w with
    | ran _ _ => cases hnone
    | _ => exact Bool.false_ne_true
  have hqueued := h.accounted.queued job
  rw [if_pos hid, h.accounted.taken, h.accounted.abandoned, h.accounted.ran, hnot rfl, hnot rfl]
    at hqueued
  have hreported := h.accounted.reported job
  rw [h.accounted.counted, hrun, hnot rfl, List.count_eq_zero.2 hcounted] at hreported
  apply List.count_pos_iff.1
  omega

/-- A computation that has not returned does not wait in vain: there is a step to do, and not only
the beginning of another computation. -/
theorem goes_on (h : Orderly work events s) {c : ι} (hphase : (s.calls c).phase = .running) :
    ∃ event s', Step work s event s' ∧ ∀ d, event ≠ .began d := by
  by_cases hsent : (s.calls c).sent < (work c).size
  · exact ⟨_, _, .send hphase hsent (h.exists_thread hphase hsent), by simp⟩
  have hall : (s.calls c).sent = (work c).size :=
    Nat.le_antisymm (h.sent_le c) (Nat.not_lt.1 hsent)
  by_cases hremaining : (s.calls c).remaining = 0
  · exact ⟨_, _, .finish hphase hall hremaining, by simp⟩
  by_cases hbusy : ∃ w ∈ s.workers, w.job? ≠ none
  · exact busy_goes_on hbusy
  push Not at hbusy
  obtain ⟨id, hid, hcounted⟩ := h.exists_uncounted hphase hremaining
  have hqueue := h.mem_queue hbusy (hid.trans_eq hall.symm) hcounted
  obtain ⟨w, hw⟩ := List.exists_mem_of_ne_nil _ h.gated.workers
  obtain ⟨before, after, hworkers⟩ := List.append_of_mem hw
  obtain ⟨front, back, hqueue'⟩ := List.append_of_mem hqueue
  have hjob := hbusy w hw
  cases w with
  | gone =>
    rw [(h.gated.gone hw).2.1] at hqueue
    cases hqueue
  | idle => exact ⟨_, _, .take hworkers hqueue', by simp⟩
  | taken _ _ | ran _ _ | reported _ => cases hjob

end Orderly

/-- How many steps may still be done on a pool for some computations. -/
def load (work : ι → Computation) (calls : Finset ι) (s : Crew ι) : Nat :=
  s.gate.load + 4 * s.queue.length + (s.workers.map Worker.load).sum +
    ∑ c ∈ calls, (s.calls c).load (work c).size

theorem sum_update {calls : Finset ι} {c : ι} (hc : c ∈ calls) (state : CallState) :
    ∑ d ∈ calls, (Function.update s.calls c state d).load (work d).size =
      state.load (work c).size + ∑ d ∈ calls.erase c, (s.calls d).load (work d).size := by
  rw [← Finset.add_sum_erase calls _ hc, Function.update_self]
  congr 1
  refine Finset.sum_congr rfl fun d hd => ?_
  rw [Function.update_of_ne (Finset.ne_of_mem_erase hd)]

theorem sum_update_of_eq {calls : Finset ι} {c : ι} {state : CallState}
    (hload : state.load (work c).size = (s.calls c).load (work c).size) :
    ∑ d ∈ calls, (Function.update s.calls c state d).load (work d).size =
      ∑ d ∈ calls, (s.calls d).load (work d).size := by
  refine Finset.sum_congr rfl fun d _ => ?_
  by_cases hd : d = c
  · rw [hd, Function.update_self, hload]
  · rw [Function.update_of_ne hd]

theorem Orderly.mem_of_running (h : Orderly work events s) {c : ι}
    (hphase : (s.calls c).phase = .running) : .began c ∈ events := by
  have hkept := h.calls c
  rw [CallKept, hphase] at hkept
  exact hkept.1

/-- Every step leaves less to do. -/
theorem load_step (h : Orderly work events s) (hstep : Step work s event s') {calls : Finset ι}
    (hcalls : ∀ c, .began c ∈ events ++ [event] → c ∈ calls) :
    load work calls s' + 1 ≤ load work calls s := by
  have hrunning {c : ι} (hphase : (s.calls c).phase = .running) : c ∈ calls :=
    hcalls c (List.mem_append_left _ (h.mem_of_running hphase))
  simp only [load]
  cases hstep with
  | @refuse c hphase _ | @skip c hphase _ _ | @begin c hphase _ _ =>
    have hc : c ∈ calls := hcalls c (by simp)
    simp only [setCall]
    rw [sum_update hc, ← Finset.add_sum_erase calls _ hc]
    simp only [CallState.load, hphase]
    omega
  | @send c hphase hsent _ | @lose c hphase hsent _ =>
    have hc : c ∈ calls := hrunning hphase
    simp only [setCall]
    rw [sum_update hc, ← Finset.add_sum_erase calls _ hc]
    simp only [CallState.load, hphase, List.length_append, List.length_singleton]
    omega
  | @finish c hphase _ _ =>
    have hc : c ∈ calls := hrunning hphase
    simp only [setCall]
    rw [sum_update hc, ← Finset.add_sum_erase calls _ hc]
    simp only [CallState.load, hphase]
    omega
  | take hworkers hqueue =>
    simp only [hworkers, hqueue, List.length_append, List.length_cons, List.map_append,
      List.map_cons, List.sum_append, List.sum_cons, Worker.load]
    omega
  | run hworkers | abandon hworkers | leave hworkers _ _ _ =>
    simp only [hworkers, List.map_append, List.map_cons, List.sum_append, List.sum_cons,
      Worker.load]
    omega
  | report hworkers | count hworkers =>
    simp only [setCall]
    rw [sum_update_of_eq (by rfl)]
    simp only [hworkers, List.map_append, List.map_cons, List.sum_append, List.sum_cons,
      Worker.load]
    omega
  | shut hgate | close hgate =>
    simp only [hgate, Gate.load]
    omega

/-- As long as only certain computations begin, a pool comes to rest after so many steps. -/
theorem Runs.length_le {threads : Nat} (h : Runs work (Pool.ofThreads threads) events s)
    {calls : Finset ι} (hcalls : ∀ c, .began c ∈ events → c ∈ calls) :
    events.length + load work calls s ≤
      2 + max threads 1 + ∑ c ∈ calls, (5 * (work c).size + 2) := by
  induction h with
  | nil => simp [load, ofPool, Pool.ofThreads, Gate.load, Worker.load, CallState.load]
  | snoc h hstep ih =>
    have hold := ih fun c hc => hcalls c (List.mem_append_left _ hc)
    have hless := load_step h.orderly hstep hcalls
    rw [List.length_append, List.length_singleton]
    omega

theorem Runs.size_of_ran {threads : Nat} (h : Runs work (Pool.ofThreads threads) events s) {c : ι}
    {item : WorkItem} (hran : .ran c item ∈ events) : item = Job.item work ⟨c, item.id⟩ := by
  induction h with
  | nil => cases hran
  | snoc _ hstep ih =>
    rw [List.mem_append] at hran
    obtain hold | hnew := hran
    · exact ih hold
    · rw [List.mem_singleton] at hnew
      subst hnew
      cases hstep with
      | run _ => rfl

/-- Whatever the number of threads and the order of their steps: no job is run or abandoned twice,
and only the work-items of a computation are run. A computation that was not refused returns when
each of its work-items has been run once, or abandoned once if the pool was shut when its job was
taken; it succeeds if all were run and succeeded, and else lists those that failed or were
abandoned, in their order. It returns what `Host.pool` does with its jobs one after the other, and
without a shutdown what `Host.parallel` does in any order. A computation that begins when the pool
is closed is refused and runs nothing. A computation that has begun can go on until it returns, and
there is an end to what can be done. -/
theorem every_item_once {threads : Nat} (h : Runs work (Pool.ofThreads threads) events s) :
    (∀ job : Job ι,
      events.count (.ran job.call (job.item work)) + events.count (.abandoned job) ≤ 1) ∧
    (∀ c item, .ran c item ∈ events → item.id < (work c).size ∧ item.size = (work c).size) ∧
    (∀ c result, (s.calls c).phase = .returned result → ¬ Refused events c →
      (∀ id < (work c).size,
        (∃ before shut after, events = before ++ .taken ⟨c, id⟩ shut :: after ∧
          (shut = true ↔ .shut ∈ before) ∧
          events.count (.ran c ⟨id, (work c).size⟩) = (if shut then 0 else 1) ∧
          events.count (.abandoned ⟨c, id⟩) = (if shut then 1 else 0)) ∧
        ⟨c, id⟩ ∉ s.queue ∧ ∀ w ∈ s.workers, w.job? ≠ some ⟨c, id⟩) ∧
      (result = .ok () ↔ ∀ id < (work c).size, .ran c ⟨id, (work c).size⟩ ∈ events ∧
        (work c).process ⟨id, (work c).size⟩ = .done) ∧
      (∃ faults,
        result = (if faults = [] then .ok () else .error (.execution ⟨(work c).size, faults⟩)) ∧
        faults.Pairwise (·.item < ·.item) ∧
        ∀ f, f ∈ faults ↔
          (.abandoned ⟨c, f.item⟩ ∈ events ∧ f.message = Host.abandoned) ∨
          (.ran c ⟨f.item, (work c).size⟩ ∈ events ∧
            ((work c).process ⟨f.item, (work c).size⟩).fault? = some f.message)) ∧
      (.shut ∉ events → ∀ order : List Nat, order.Perm (List.range (work c).size) →
        result = Id.run (Host.parallel (fun item => pure ((work c).process item))
          (work c).size order))) ∧
    (∀ c result shut, (s.calls c).phase = .returned result → (shut = true ↔ Refused events c) →
      result = Id.run ((Host.pool Host.answer (fun item => pure ((work c).process item))
        (work c).size ((takenOf events c).map Prod.fst)).run'
          (shut :: (takenOf events c).map Prod.snd))) ∧
    (∀ c, Refused events c → (s.calls c).phase = .returned (.error .closed) ∧
      (∀ item, .ran c item ∉ events) ∧ ∀ id, .abandoned ⟨c, id⟩ ∉ events) ∧
    (∀ c, (s.calls c).phase = .running →
      ∃ event s', Step work s event s' ∧ ∀ d, event ≠ .began d) ∧
    (∀ calls : Finset ι, (∀ c, .began c ∈ events → c ∈ calls) →
      events.length ≤ 2 + max threads 1 + ∑ c ∈ calls, (5 * (work c).size + 2)) := by
  have horderly := h.orderly
  refine ⟨?_, ?_, ?_, ?_, ?_, fun c => horderly.goes_on, ?_⟩
  · intro job
    have habandoned := horderly.accounted.abandoned job
    have hran := horderly.accounted.ran job
    have hle := (horderly.accounted.le_one job).1
    omega
  · intro c item hran
    have hitem := h.size_of_ran hran
    rw [hitem] at hran
    exact ⟨horderly.lt_of_taken ((horderly.taken_of_ended ⟨c, item.id⟩).2 hran),
      congrArg WorkItem.size hitem⟩
  · intro c result hphase haccepted
    obtain ⟨hall, hresult⟩ := horderly.returned hphase haccepted
    refine ⟨?_, ?_, ?_, ?_⟩
    · intro id hid
      exact ⟨horderly.once_of_counted (hall id hid), (horderly.counts_of_counted (hall id hid)).2⟩
    · rw [← horderly.faultsOf_eq_nil_iff hall, hresult, Host.collectFaults_eq_ok_iff]
    · refine ⟨_, hresult.trans Host.collectFaults_eq_ite,
        ExecutionFailure.pairwise_ofFaults (horderly.distinct_faultsOf c), ?_⟩
      intro f
      rw [(ExecutionFailure.ofFaults_perm _ _).mem_iff]
      exact horderly.mem_faultsOf_iff hall
    · intro hshut order horder
      exact horderly.returned_eq_parallel hphase haccepted hshut horder
  · intro c result shut hphase hshut
    exact horderly.returned_eq_pool hphase shut hshut
  · intro c hrefused
    obtain ⟨hphase, htaken⟩ := horderly.refused hrefused
    have hnone (id : Nat) (shut : Bool) : .taken ⟨c, id⟩ shut ∉ events := by
      rw [← mem_takenOf, htaken]
      exact List.not_mem_nil
    refine ⟨hphase, ?_, ?_⟩
    · intro item hran
      rw [h.size_of_ran hran] at hran
      exact hnone item.id false ((horderly.taken_of_ended ⟨c, item.id⟩).2 hran)
    · intro id habandoned
      exact hnone id true ((horderly.taken_of_ended ⟨c, id⟩).1 habandoned)
  · intro calls hcalls
    exact (Nat.le_add_right _ _).trans (h.length_le hcalls)

/-- Two work-items on two threads: the first panics, and the second is taken after the pool was shut
and ends before the first. Another computation comes too late. -/
theorem every_item_once_shut :
    ∃ (work : Bool → Computation) (events : List (PoolEvent Bool)) (s : Crew Bool),
      Runs work (Pool.ofThreads 2) events s ∧
      (s.calls false).phase =
        .returned (.error (.execution ⟨2, [⟨0, "boom"⟩, ⟨1, Host.abandoned⟩]⟩)) ∧
      events.count (.ran false ⟨0, 2⟩) = 1 ∧ events.count (.abandoned ⟨false, 1⟩) = 1 ∧
      (∀ id < 2, ⟨false, id⟩ ∉ s.queue ∧ ∀ w ∈ s.workers, w.job? ≠ some ⟨false, id⟩) ∧
      (s.calls true).phase = .returned (.error .closed) := by
  let work : Bool → Computation := fun _ =>
    ⟨2, fun item => if item.id = 0 then .panic (some "boom") else .done⟩
  have hthread (rest : List (Worker Bool)) : ∃ w ∈ Worker.idle :: rest, w ≠ .gone :=
    ⟨.idle, List.mem_cons_self, by decide⟩
  have start : Runs work (Pool.ofThreads 2) [] _ := .nil
  have sent := ((start.snoc
    (.begin (c := false) rfl (by decide) (by decide))).snoc
    (.send (c := false) rfl (by decide) (hthread [.idle]))).snoc
    (.send (c := false) rfl (by decide) (hthread [.idle]))
  have taken := ((sent.snoc
    (.take (show _ = ([] : List (Worker Bool)) ++ .idle :: [.idle] from rfl)
      (show _ = ([] : List (Job Bool)) ++ ⟨false, 0⟩ :: [⟨false, 1⟩] from rfl))).snoc
    (.shut rfl)).snoc
    (.take (show _ = [Worker.taken ⟨false, 0⟩ false] ++ .idle :: [] from rfl)
      (show _ = ([] : List (Job Bool)) ++ ⟨false, 1⟩ :: [] from rfl))
  have ran := (taken.snoc
    (.abandon (show _ = [Worker.taken ⟨false, 0⟩ false] ++
      .taken ⟨false, 1⟩ true :: [] from rfl))).snoc
    (.run (show _ = ([] : List (Worker Bool)) ++ .taken ⟨false, 0⟩ false ::
      [.ran ⟨false, 1⟩ (some Host.abandoned)] from rfl))
  have reported := (ran.snoc
    (.report (show _ = [Worker.ran ⟨false, 0⟩ (some "boom")] ++
      .ran ⟨false, 1⟩ (some Host.abandoned) :: [] from rfl))).snoc
    (.report (show _ = ([] : List (Worker Bool)) ++ .ran ⟨false, 0⟩ (some "boom") ::
      [.reported ⟨false, 1⟩] from rfl))
  have counted := (reported.snoc
    (.count (show _ = ([] : List (Worker Bool)) ++ .reported ⟨false, 0⟩ ::
      [.reported ⟨false, 1⟩] from rfl))).snoc
    (.count (show _ = [Worker.idle] ++ .reported ⟨false, 1⟩ :: [] from rfl))
  have closed : Runs work (Pool.ofThreads 2) [.began false, .queued ⟨false, 0⟩, .queued ⟨false, 1⟩,
      .taken ⟨false, 0⟩ false, .shut, .taken ⟨false, 1⟩ true, .abandoned ⟨false, 1⟩,
      .ran false ⟨0, 2⟩, .reported ⟨false, 1⟩ (some Host.abandoned),
      .reported ⟨false, 0⟩ (some "boom"), .counted ⟨false, 0⟩, .counted ⟨false, 1⟩,
      .returned false, .closed] _ :=
    (counted.snoc (.finish (c := false) rfl rfl rfl)).snoc (.close rfl)
  have late := closed.snoc (.refuse (c := true) rfl rfl)
  obtain ⟨-, -, hreturned, -, hrefused, -⟩ := every_item_once late
  have hphase := (hrefused true ⟨_, [], rfl, by simp⟩).1
  have hfaults : Host.collectFaults 2 [⟨1, Host.abandoned⟩, ⟨0, "boom"⟩] =
      .error (.execution ⟨2, [⟨0, "boom"⟩, ⟨1, Host.abandoned⟩]⟩) := by
    simp [Host.collectFaults, ExecutionFailure.ofFaults, List.mergeSort]
  obtain ⟨honce, -⟩ := hreturned false _ rfl fun hlate => by
    have hclosed := (hrefused false hlate).1
    cases hfaults.symm.trans (Phase.returned.inj hclosed)
  have hresult := congrArg Phase.returned hfaults
  exact ⟨work, _, _, late, hresult, by decide, by decide, fun id hid => (honce id hid).2, hphase⟩

end Crew

end KernelForge.Launch
