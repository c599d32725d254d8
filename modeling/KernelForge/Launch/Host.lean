import KernelForge.Launch.Error

/-!
# Running work-items on the host

A launch runs a kernel once for each work-item. It has one dimension: every other dimension has one
item, with the id zero.

A computation queues one job for each work-item. The jobs are taken from the queue in some order,
which is a parameter here. A job that is taken after shutdown is abandoned; any other runs its
work-item once. When every job is accounted for, the faults are reported in the order of the
work-items, so that the report does not depend on the order of the jobs.
-/

namespace KernelForge.Launch

universe u

variable {m : Type → Type u}

/-- A work-item: its id and the size of its launch. -/
structure WorkItem where
  id : Nat
  size : Nat
deriving DecidableEq

namespace WorkItem

/-- The id in a dimension. -/
def globalId (w : WorkItem) (dimension : Nat) : Nat :=
  if dimension = 0 then w.id else 0

/-- The size of the launch in a dimension. -/
def globalSize (w : WorkItem) (dimension : Nat) : Nat :=
  if dimension = 0 then w.size else 1

end WorkItem

/-- How a work-item ended. -/
inductive Outcome
  | done
  | fault (message : String)
  /-- It was torn down by a panic, which carries a text or something else. -/
  | panic (text : Option String)
deriving DecidableEq

/-- The message of an outcome that is a fault. -/
def Outcome.fault? : Outcome → Option String
  | done => none
  | fault message => some message
  | panic text => some (text.getD "work-item panicked")

namespace Host

/-- The fault of a job that was taken from the queue after shutdown. -/
def abandoned : String :=
  "abandoned by pool shutdown"

/-- Run one job: the message of its fault, if it has one. -/
def runJob [Monad m] (isClosed : m Bool) (process : WorkItem → m Outcome) (item : WorkItem) :
    m (Option String) := do
  if ← isClosed then
    return some abandoned
  else
    return (← process item).fault?

/-- Run the jobs of a launch of a given size in the order in which they are taken from the queue. -/
def runJobs [Monad m] (isClosed : m Bool) (process : WorkItem → m Outcome) (size : Nat) :
    List Nat → m (List ItemFault)
  | [] => pure []
  | id :: rest => do
    let fault ← runJob isClosed process ⟨id, size⟩
    let later ← runJobs isClosed process size rest
    return (fault.map (ItemFault.mk id)).toList ++ later

/-- Success if there are no faults, else all of them. -/
def collectFaults (total : Nat) (faults : List ItemFault) : Except Error Unit :=
  if faults.isEmpty then .ok () else .error (.execution (.ofFaults total faults))

/-- Run work-items on threads that are never shut down. -/
def parallel [Monad m] (process : WorkItem → m Outcome) (size : Nat) (order : List Nat) :
    m (Except Error Unit) := do
  return collectFaults size (← runJobs (pure false) process size order)

/-- Run work-items on a pool of threads that can be closed. -/
def pool [Monad m] (isClosed : m Bool) (process : WorkItem → m Outcome) (size : Nat)
    (order : List Nat) : m (Except Error Unit) := do
  if ← isClosed then
    return .error .closed
  else if size = 0 then
    return .ok ()
  else
    return collectFaults size (← runJobs isClosed process size order)

end Host

/-- A pool of threads. -/
structure Pool where
  threads : Nat
  closed : Bool := false

/-- A new pool. It has at least one thread. -/
def Pool.ofThreads (threads : Nat) : Pool :=
  { threads := max threads 1 }

end KernelForge.Launch
