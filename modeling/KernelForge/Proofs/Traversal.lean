import KernelForge.Proofs.Replay

/-!
# The replay is the recursive traversal

`walkBody` walks a body by recursion on the tree: a construct is started, its parts are walked, and
it is finished. The replay loop keeps a list of what is still to come instead, and it is the same
action in every lawful monad (`replay_eq_walkBody`).

For a sink with a state the calls can be listed together with the states in which they are made.
They are those of the traversal up to the first one that fails, and the replay ends with its error
(`Handed`).
-/

namespace KernelForge

/-! ### Recursion on the tree -/

section walk

variable {m : Type → Type*} [Monad m]

mutual

/-- Walk a statement and hand its events to a sink. -/
def Stmt.walk (sink : Event → m Unit) : Stmt → m Unit
  | .effect node => sink (.effect node)
  | .ret node => sink (.ret node)
  | .leave source label => sink (.leave source label)
  | .again source label => sink (.again source label)
  | .edge source => sink (.edge source)
  | .block b body => do
    sink (.startBlock b)
    walkBody sink body
    sink (.finishBlock b)
  | .branch node thenBody elseBody => do
    sink (.startIf node)
    walkBody sink thenBody
    sink (.startElse node)
    walkBody sink elseBody
    sink (.finishIf node)
  | .switch node arms fallback => do
    sink (.startSwitch node)
    walkArms sink node arms
    sink (.startCase node none)
    walkBody sink fallback
    sink (.finishCase node)
    sink (.finishSwitch node)

/-- Walk the statements of a body. -/
def walkBody (sink : Event → m Unit) : List Stmt → m Unit
  | [] => pure ()
  | stmt :: rest => do
    stmt.walk sink
    walkBody sink rest

/-- Walk the keyed cases of the switch at `node`. -/
def walkArms (sink : Event → m Unit) (node : NodeId) : List (Int32 × List Stmt) → m Unit
  | [] => pure ()
  | (key, body) :: rest => do
    sink (.startCase node (some key))
    walkBody sink body
    sink (.finishCase node)
    walkArms sink node rest

end

variable [LawfulMonad m]

mutual

/-- Walking a statement hands over the events that are listed for it. -/
theorem Stmt.walk_eq (sink : Event → m Unit) : ∀ stmt : Stmt, stmt.walk sink = forM stmt.events sink
  | .effect _ | .ret _ | .leave _ _ | .again _ _ | .edge _ => by
    simp [Stmt.walk, Stmt.events]
  | .block b body => by simp [Stmt.walk, Stmt.events, walkBody_eq sink body]
  | .branch node thenBody elseBody => by
    simp [Stmt.walk, Stmt.events, walkBody_eq sink thenBody, walkBody_eq sink elseBody]
  | .switch node arms fallback => by
    simp [Stmt.walk, Stmt.events, walkArms_eq sink node arms, walkBody_eq sink fallback]

theorem walkBody_eq (sink : Event → m Unit) : ∀ body : List Stmt,
    walkBody sink body = forM (bodyEvents body) sink
  | [] => by simp [walkBody, bodyEvents]
  | stmt :: rest => by simp [walkBody, bodyEvents, stmt.walk_eq sink, walkBody_eq sink rest]

theorem walkArms_eq (sink : Event → m Unit) (node : NodeId) : ∀ arms : List (Int32 × List Stmt),
    walkArms sink node arms = forM (armEvents node arms) sink
  | [] => by simp [walkArms, armEvents]
  | (key, body) :: rest => by
    simp [walkArms, armEvents, walkBody_eq sink body, walkArms_eq sink node rest]

end

/-- The loop over what is still to come is the recursive traversal. -/
theorem replay_eq_walkBody (sink : Event → m Unit) (body : List Stmt) :
    replay sink body = walkBody sink body := by
  rw [replay_eq, List.forM_eq_forM, walkBody_eq]

end walk

/-! ### Sinks with a state -/

section calls

variable {σ ε : Type} (sink : Event → ExceptT ε (StateM σ) Unit)

/-- Handing events to a sink: the calls that are made, each with the state in which it is made, how
the run ends, and the state after it. A call that fails is the last one. -/
inductive Handed : List Event → σ → List (Event × σ) → Except ε Unit → σ → Prop
  | done {s : σ} : Handed [] s [] (.ok ()) s
  | passed {e : Event} {es : List Event} {s s₁ s' : σ} {calls : List (Event × σ)}
      {r : Except ε Unit} (hcall : (sink e).run.run s = (.ok (), s₁))
      (hrest : Handed es s₁ calls r s') : Handed (e :: es) s ((e, s) :: calls) r s'
  | failed {e : Event} {es : List Event} {s s' : σ} {err : ε}
      (hcall : (sink e).run.run s = (.error err, s')) :
      Handed (e :: es) s [(e, s)] (.error err) s'

/-- The sink that in addition notes every call with the state in which it is made. -/
def noted (e : Event) : ExceptT ε (StateM (σ × List (Event × σ))) Unit :=
  ExceptT.mk fun (s, calls) =>
    let (r, s') := (sink e).run.run s
    (r, s', calls ++ [(e, s)])

variable {sink} {es : List Event} {s s' : σ} {calls : List (Event × σ)}

/-- A run without an error makes all calls. -/
theorem Handed.events_of_ok {r : Except ε Unit} (h : Handed sink es s calls r s')
    (hr : r = .ok ()) : calls.map Prod.fst = es := by
  induction h with
  | done => rfl
  | passed _ _ ih => simp [ih hr]
  | failed => cases hr

/-- A run with an error ends with the call that raised it; the calls before it succeeded. -/
theorem Handed.last_of_error {r : Except ε Unit} {err : ε} (h : Handed sink es s calls r s')
    (hr : r = .error err) :
    ∃ before e s₁, calls = before ++ [(e, s₁)] ∧ before.map Prod.fst ++ [e] <+: es ∧
      (sink e).run.run s₁ = (.error err, s') := by
  induction h with
  | done => cases hr
  | @passed e es s s₁ s' calls r hcall hrest ih =>
    obtain ⟨before, last, s₂, rfl, hprefix, hlast⟩ := ih hr
    exact ⟨(e, s) :: before, last, s₂, rfl, by simpa using hprefix, hlast⟩
  | @failed e es s s' err' hcall =>
    obtain rfl := Except.error.inj hr
    exact ⟨[], e, s, rfl, by simp, hcall⟩

section bind

variable {τ : Type} {x : ExceptT ε (StateM τ) Unit} {f : Unit → ExceptT ε (StateM τ) Unit}
  {t t' : τ}

theorem run_bind_of_ok (h : x.run.run t = (.ok (), t')) :
    (x >>= f).run.run t = (f ()).run.run t' := by
  rw [ExceptT.run_bind, StateT.run_bind, h]
  rfl

theorem run_bind_of_error {err : ε} (h : x.run.run t = (.error err, t')) :
    (x >>= f).run.run t = (.error err, t') := by
  rw [ExceptT.run_bind, StateT.run_bind, h]
  rfl

end bind

variable (sink)

theorem run_noted {e : Event} {r : Except ε Unit} (h : (sink e).run.run s = (r, s'))
    (log : List (Event × σ)) : (noted sink e).run.run (s, log) = (r, s', log ++ [(e, s)]) := by
  change (let (r, s') := (sink e).run.run s; (r, s', log ++ [(e, s)])) = _
  rw [h]

/-- Noting the calls of a run changes nothing else about it. -/
theorem handed_forM : ∀ (es : List Event) (s : σ) (log : List (Event × σ)), ∃ calls r s',
    (forM es (noted sink)).run.run (s, log) = (r, s', log ++ calls) ∧
      (forM es sink).run.run s = (r, s') ∧ Handed sink es s calls r s'
  | [], s, log => ⟨[], .ok (), s, by simp; rfl, rfl, .done⟩
  | e :: es, s, log => by
    rw [List.forM_cons, List.forM_cons]
    rcases hcall : (sink e).run.run s with ⟨err | _, s₁⟩
    · refine ⟨[(e, s)], .error err, s₁, ?_, ?_, .failed hcall⟩
      · exact run_bind_of_error (run_noted sink hcall log)
      · exact run_bind_of_error hcall
    · obtain ⟨calls, r, s', hnoted, hrun, hhanded⟩ := handed_forM es s₁ (log ++ [(e, s)])
      refine ⟨(e, s) :: calls, r, s', ?_, ?_, .passed hcall hhanded⟩
      · rw [run_bind_of_ok (run_noted sink hcall log), hnoted, List.append_assoc]
        rfl
      · rw [run_bind_of_ok hcall, hrun]

/-- The replay makes the calls of the recursive traversal, in the same order and in the same states,
and ends as it does. If no call fails, every event of the body is handed over; if one fails, it is
the last one, and the replay ends with its error in the state that it left behind. -/
theorem replay_makes_calls_of_walkBody (body : List Stmt) (s : σ) : ∃ calls r s',
    (replay (noted sink) body).run.run (s, []) = (r, s', calls) ∧
      (walkBody (noted sink) body).run.run (s, []) = (r, s', calls) ∧
      (replay sink body).run.run s = (r, s') ∧ (walkBody sink body).run.run s = (r, s') ∧
      Handed sink (bodyEvents body) s calls r s' ∧
      (r = .ok () → calls.map Prod.fst = bodyEvents body) ∧
      ∀ err, r = .error err → ∃ before e s₁, calls = before ++ [(e, s₁)] ∧
        before.map Prod.fst ++ [e] <+: bodyEvents body ∧
        (sink e).run.run s₁ = (.error err, s') := by
  obtain ⟨calls, r, s', hnoted, hrun, hhanded⟩ := handed_forM sink (bodyEvents body) s []
  rw [List.nil_append, ← walkBody_eq] at hnoted
  rw [← walkBody_eq] at hrun
  refine ⟨calls, r, s', ?_, hnoted, ?_, hrun, hhanded, hhanded.events_of_ok, ?_⟩
  · rw [replay_eq_walkBody, hnoted]
  · rw [replay_eq_walkBody, hrun]
  · intro err hr
    exact hhanded.last_of_error hr

end calls

end KernelForge
