import KernelForge.Proofs.Emission

/-!
# The frames of the evaluator

The loop of the evaluator has two stacks and no recursion. It enters an operand one deeper than the
node that demands it, and for every depth it is recursion down to that depth (`runFrames_atDepth`),
whether the demands of a node end or not. So evaluation is recursion to a depth (`evaluate_eq`), and
what it does is proved by induction on that depth: `evaluateBy` is one level of it.
-/

namespace KernelForge.Source

variable {cx : Context} {s s' : Emitter} {id : NodeId}

/-- The value of a node, given how its operands are evaluated. -/
def evaluateBy (cx : Context) (operand : NodeId → Emit Value) (id : NodeId) : Emit Value := do
  match (← get).value? id with
  | some v => return v
  | none =>
    match cx.graph.get? id with
    | none => throw (.outside id cx.method.name)
    | some node => do
      let args ← (cx.evaluated node).mapM operand
      produce cx id node args

/-- Recursion that goes down some levels and then gives up at a node that has operands. -/
def atDepth (cx : Context) : Nat → NodeId → Emit Value
  | 0, id => evaluateBy cx (fun _ => throw (.endless id)) id
  | depth + 1, id => evaluateBy cx (atDepth cx depth) id

theorem evaluateBy_eq (f : NodeId → Emit Value) (id : NodeId) (s : Emitter) :
    evaluateBy cx f id s =
      match s.value? id with
      | some v => .ok v s
      | none =>
        match cx.graph.get? id with
        | none => .error (.outside id cx.method.name) s
        | some node =>
          ((cx.evaluated node).mapM f >>= fun args => produce cx id node args) s := by
  rw [evaluateBy, Emit.bind_of_ok (Emit.get_eq s)]
  cases s.value? id with
  | some v => rfl
  | none => cases cx.graph.get? id <;> rfl

section induct

variable {P : NodeId → Emit Value → Prop} (giveUp : ∀ id b, P b (throw (.endless id)))
  (level : ∀ {f : NodeId → Emit Value}, (∀ b, P b (f b)) → ∀ id, P id (evaluateBy cx f id))

include giveUp level

/-- What holds of giving up and is preserved by one level holds of recursion to any depth. -/
theorem atDepth_induct (depth : Nat) (id : NodeId) : P id (atDepth cx depth id) := by
  induction depth generalizing id with
  | zero => exact level (giveUp id) id
  | succ depth ih => exact level ih id

/-- Recursion to any depth is one level over some evaluation of the operands, and what holds of
recursion holds of that one. -/
theorem exists_evaluateBy (depth : Nat) (id : NodeId) :
    ∃ f, (∀ b, P b (f b)) ∧ atDepth cx depth id = evaluateBy cx f id := by
  cases depth with
  | zero => exact ⟨_, giveUp id, rfl⟩
  | succ depth => exact ⟨_, atDepth_induct giveUp level depth, rfl⟩

end induct

/-! ### The loop is recursion -/

/-- Leaving a node whose operands are on the stack renders it with their values. -/
theorem runFrames_leave_cons {node : Node} {args : List Value}
    (hlen : args.length = (cx.evaluated node).length) (rest : List Frame) (results : List Value) :
    runFrames cx (.leave id node :: rest) (args.reverse ++ results) = (do
      let v ← produce cx id node args
      runFrames cx rest (v :: results)) := by
  rw [runFrames]
  have hshort : ¬ (args.reverse ++ results).length < (cx.evaluated node).length := by
    simp [← hlen]
  have htake : (args.reverse ++ results).take (cx.evaluated node).length = args.reverse :=
    List.take_left' (by simp [hlen])
  have hdrop : (args.reverse ++ results).drop (cx.evaluated node).length = results :=
    List.drop_left' (by simp [hlen])
  simp only [hshort, if_false, htake, hdrop, List.reverse_reverse]

/-- Entering a node: its name if it has one, else its operands first. -/
theorem runFrames_enter_cons (id : NodeId) (depth : Nat) (rest : List Frame)
    (results : List Value) :
    runFrames cx (.enter id depth :: rest) results = (do
      match (← get).value? id with
      | some v => runFrames cx rest (v :: results)
      | none =>
        match cx.graph.get? id with
        | none => throw (.outside id cx.method.name)
        | some node =>
          if (cx.evaluated node).isEmpty then
            let v ← produce cx id node []
            runFrames cx rest (v :: results)
          else
            match depth with
            | 0 => throw (.endless id)
            | depth + 1 =>
              runFrames cx ((cx.evaluated node).map (.enter · depth) ++ .leave id node :: rest)
                results) := by
  rw [runFrames]
  refine bind_congr fun s => ?_
  cases s.value? id with
  | some v => rfl
  | none =>
    dsimp only
    split
    · rename_i hnode
      rw [hnode]
    · rename_i node hnode
      cases depth <;> rw [hnode]

/-- Entering a node evaluates it by recursion and goes on, if that is true of its operands. -/
theorem runFrames_enter {depth : Nat} {operand : NodeId → Emit Value}
    (hoperands : ∀ {node}, cx.evaluated node ≠ [] → ∀ (rest : List Frame) (results : List Value),
      (match depth with
        | 0 => throw (.endless id)
        | depth + 1 => runFrames cx ((cx.evaluated node).map (.enter · depth) ++ rest) results) = (do
        let vs ← (cx.evaluated node).mapM operand
        runFrames cx rest (vs.reverse ++ results)))
    (rest : List Frame) (results : List Value) :
    runFrames cx (.enter id depth :: rest) results = (do
      let v ← evaluateBy cx operand id
      runFrames cx rest (v :: results)) := by
  rw [runFrames_enter_cons, evaluateBy, bind_assoc]
  refine bind_congr fun s => ?_
  cases s.value? id with
  | some v => rfl
  | none =>
    cases hnode : cx.graph.get? id with
    | none => rfl
    | some node =>
      dsimp only
      rw [bind_assoc]
      split_ifs with hempty
      · rw [List.isEmpty_iff.1 hempty, List.mapM_nil]
        rfl
      · rw [hoperands (by simpa using hempty)]
        funext s
        cases hargs : (cx.evaluated node).mapM operand s with
        | error e s₁ => rw [Emit.bind_of_error hargs, Emit.bind_of_error hargs]
        | ok args s₁ =>
          rw [Emit.bind_of_ok hargs, Emit.bind_of_ok hargs,
            runFrames_leave_cons (Emit.length_of_mapM_ok hargs)]

/-- Entering nodes evaluates them from left to right and goes on, if that is true of each. -/
theorem runFrames_enters {depth : Nat} {operand : NodeId → Emit Value}
    (henter : ∀ (id : NodeId) (rest : List Frame) (results : List Value),
      runFrames cx (.enter id depth :: rest) results = (do
        let v ← operand id
        runFrames cx rest (v :: results)))
    (ids : List NodeId) (rest : List Frame) (results : List Value) :
    runFrames cx (ids.map (.enter · depth) ++ rest) results = (do
      let vs ← ids.mapM operand
      runFrames cx rest (vs.reverse ++ results)) := by
  induction ids generalizing results with
  | nil =>
    rw [List.mapM_nil, pure_bind, List.map_nil, List.nil_append, List.reverse_nil, List.nil_append]
  | cons id ids ih =>
    rw [List.map_cons, List.cons_append, henter, List.mapM_cons, bind_assoc]
    refine bind_congr fun v => ?_
    rw [ih, bind_assoc]
    refine bind_congr fun vs => ?_
    rw [pure_bind, List.reverse_cons, List.append_assoc, List.singleton_append]

/-- The loop is recursion down to the depth that it enters nodes at. The induction is on the depth;
the operands of a node are entered one deeper. -/
theorem runFrames_atDepth (depth : Nat) (id : NodeId) (rest : List Frame) (results : List Value) :
    runFrames cx (.enter id depth :: rest) results = (do
      let v ← atDepth cx depth id
      runFrames cx rest (v :: results)) := by
  induction depth generalizing id rest results with
  | zero =>
    rw [atDepth]
    refine runFrames_enter (fun {node} hne rest results => ?_) rest results
    obtain ⟨operand, operands, hoperands⟩ := List.exists_cons_of_ne_nil hne
    rw [hoperands, List.mapM_cons]
    rfl
  | succ depth ih =>
    rw [atDepth]
    exact @runFrames_enter cx id (depth + 1) (atDepth cx depth)
      (fun {node} _ => runFrames_enters ih (cx.evaluated node)) rest results

theorem evaluate_eq (root : NodeId) : evaluate cx root = atDepth cx cx.graph.size root := by
  rw [evaluate, runFrames_atDepth, bind_assoc]
  conv_rhs => rw [← bind_pure (atDepth cx cx.graph.size root)]
  refine bind_congr fun v => ?_
  rw [runFrames]
  rfl

end KernelForge.Source
