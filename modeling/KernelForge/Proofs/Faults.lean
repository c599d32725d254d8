import Mathlib
import KernelForge.Launch.Host

/-!
# Faults of work-items

A report lists faults in the order of the work-items, whatever the order in which they came in
(`collectFaults_congr`), as each work-item has one fault at most. Jobs that are told one after the
other whether the pool is shut down have the faults of `faultOf`.
-/

namespace KernelForge.Launch

/-! ### Faults in the order of the work-items -/

namespace ExecutionFailure

theorem ofFaults_perm (total : Nat) (faults : List ItemFault) :
    (ofFaults total faults).faults.Perm faults :=
  List.mergeSort_perm faults _

theorem ofFaults_eq_nil_iff {total : Nat} {faults : List ItemFault} :
    (ofFaults total faults).faults = [] ↔ faults = [] := by
  rw [← List.length_eq_zero_iff, (ofFaults_perm total faults).length_eq, List.length_eq_zero_iff]

/-- The faults of work-items that have at most one each stand in the order of the work-items. -/
theorem pairwise_ofFaults {total : Nat} {faults : List ItemFault}
    (h : faults.Pairwise (·.item ≠ ·.item)) :
    (ofFaults total faults).faults.Pairwise (·.item < ·.item) := by
  have hsorted : (ofFaults total faults).faults.Pairwise (·.item ≤ ·.item) := by
    have hle := @List.pairwise_mergeSort _ (fun a b : ItemFault => decide (a.item ≤ b.item))
      (by grind) (by grind) faults
    exact hle.imp of_decide_eq_true
  have hdistinct : (ofFaults total faults).faults.Pairwise (·.item ≠ ·.item) :=
    (ofFaults_perm total faults).symm.pairwise h fun hne => hne.symm
  exact (hsorted.and hdistinct).imp fun ⟨hle, hne⟩ => Nat.lt_of_le_of_ne hle hne

/-- The order in which the faults came in is forgotten. -/
theorem ofFaults_congr {total : Nat} {faults faults' : List ItemFault}
    (hperm : faults.Perm faults') (h : faults.Pairwise (·.item ≠ ·.item)) :
    ofFaults total faults = ofFaults total faults' := by
  have h' : faults'.Pairwise (·.item ≠ ·.item) := hperm.pairwise h fun hne => hne.symm
  have hperm' : (ofFaults total faults).faults.Perm (ofFaults total faults').faults :=
    ((ofFaults_perm total faults).trans hperm).trans (ofFaults_perm total faults').symm
  have heq := hperm'.eq_of_pairwise (fun a b _ _ hlt hgt => absurd hgt (Nat.lt_asymm hlt))
    (pairwise_ofFaults h) (pairwise_ofFaults h')
  exact congrArg (ExecutionFailure.mk total) heq

end ExecutionFailure

namespace Host

theorem collectFaults_eq_ite {total : Nat} {faults : List ItemFault} :
    collectFaults total faults =
      if (ExecutionFailure.ofFaults total faults).faults = [] then .ok ()
      else .error (.execution (.ofFaults total faults)) := by
  simp only [collectFaults, List.isEmpty_iff, ExecutionFailure.ofFaults_eq_nil_iff]

theorem collectFaults_eq_ok_iff {total : Nat} {faults : List ItemFault} :
    collectFaults total faults = .ok () ↔ faults = [] := by
  rw [collectFaults]
  cases faults <;> simp

theorem collectFaults_congr {total : Nat} {faults faults' : List ItemFault}
    (hperm : faults.Perm faults') (h : faults.Pairwise (·.item ≠ ·.item)) :
    collectFaults total faults = collectFaults total faults' := by
  rw [collectFaults_eq_ite, collectFaults_eq_ite, ExecutionFailure.ofFaults_congr hperm h]

/-- The fault of a job that was told of a shutdown or not. -/
def faultOf (process : WorkItem → Outcome) (size : Nat) (told : Nat × Bool) : Option ItemFault :=
  (Id.run (runJob (pure told.2) (fun item => pure (process item)) ⟨told.1, size⟩)).map
    (ItemFault.mk told.1)

/-- The next of a list of answers. -/
def answer : StateM (List Bool) Bool :=
  modifyGet fun
    | [] => (false, [])
    | shut :: rest => (shut, rest)

@[simp] theorem run_answer_cons (shut : Bool) (rest : List Bool) :
    answer.run (shut :: rest) = pure (shut, rest) :=
  rfl

variable {process : WorkItem → Outcome} {size : Nat}

theorem item_of_faultOf {told : Nat × Bool} {f : ItemFault}
    (h : faultOf process size told = some f) : f.item = told.1 := by
  obtain ⟨message, -, rfl⟩ := Option.map_eq_some_iff.1 h
  rfl

theorem filterMap_faultOf_cons (told : Nat × Bool) (rest : List (Nat × Bool)) :
    (told :: rest).filterMap (faultOf process size) =
      (faultOf process size told).toList ++ rest.filterMap (faultOf process size) := by
  cases hfault : faultOf process size told <;> simp [hfault]

/-- Jobs that are told what the list of answers says have these faults. -/
theorem run_runJobs_answer (told : List (Nat × Bool)) :
    (runJobs answer (fun item => pure (process item)) size (told.map Prod.fst)).run
      (told.map Prod.snd) = pure (told.filterMap (faultOf process size), []) := by
  induction told with
  | nil => rfl
  | cons x rest ih =>
    rw [filterMap_faultOf_cons]
    obtain ⟨id, shut⟩ := x
    cases shut <;> simp [runJobs, runJob, faultOf, ih]

theorem run_pool_answer (told : List (Nat × Bool)) (hsize : size = 0 → told = []) :
    Id.run ((pool answer (fun item => pure (process item)) size (told.map Prod.fst)).run'
      (false :: told.map Prod.snd)) =
      collectFaults size (told.filterMap (faultOf process size)) := by
  by_cases hzero : size = 0
  · simp [pool, hzero, hsize hzero, collectFaults]
  · simp [pool, hzero, run_runJobs_answer]

theorem run_pool_refused (order : List Nat) (rest : List Bool) :
    Id.run ((pool answer (fun item => pure (process item)) size order).run' (true :: rest)) =
      .error .closed := by
  simp [pool]

theorem run_runJobs_false (order : List Nat) :
    Id.run (runJobs (pure false) (fun item => pure (process item)) size order) =
      (order.map (·, false)).filterMap (faultOf process size) := by
  induction order with
  | nil => rfl
  | cons id rest ih =>
    rw [List.map_cons, filterMap_faultOf_cons, ← ih]
    rfl

/-- Threads that are never shut down do the same as a pool that is not. -/
theorem run_parallel (order : List Nat) :
    Id.run (parallel (fun item => pure (process item)) size order) =
      collectFaults size ((order.map (·, false)).filterMap (faultOf process size)) := by
  rw [← run_runJobs_false]
  rfl

end Host

end KernelForge.Launch
