import KernelForge.Proofs.Evaluation

/-!
# Evaluation by recursion

What the evaluator computes is the recursive definition (`Recursive`): a node with a name has that
name as its value; any other node has its operands evaluated from left to right and is rendered with
their values; the first error ends it all. That definition has one solution wherever the demands of a
node come to an end, and the loop is that solution (`evaluate_recursive`): value, error and state of
the emitter, which an error leaves as it was when it came up.

For every depth the loop is recursion down to that depth (`runFrames_atDepth`), whether the demands
end or not; only that the size of the graph is deep enough depends on it (`Ends.shallow`).
-/

namespace KernelForge.Source

open Relation

variable {cx : Context} {s s' : Emitter} {id : NodeId}

/-! ### Where demands end -/

/-- No node that is demanded below `id` demands itself. -/
def Ends (cx : Context) (s : Emitter) (id : NodeId) : Prop :=
  ∀ a, ReflTransGen (Demands cx s) id a → ¬ TransGen (Demands cx s) a a

/-- Whatever has a name keeps having one. -/
def Grows (s s' : Emitter) : Prop :=
  ∀ id, s'.value? id = none → s.value? id = none

theorem Grows.refl (s : Emitter) : Grows s s :=
  fun _ h => h

theorem Grows.trans {s₁ s₂ s₃ : Emitter} (h₁ : Grows s₁ s₂) (h₂ : Grows s₂ s₃) : Grows s₁ s₃ :=
  fun id h => h₁ id (h₂ id h)

theorem Grows.demands (h : Grows s s') {a b : NodeId} (hd : Demands cx s' a b) : Demands cx s a b :=
  ⟨h a hd.1, hd.2⟩

theorem Grows.ends (h : Grows s s') (hends : Ends cx s id) : Ends cx s' id := by
  intro a ha hcycle
  have hmono : Demands cx s' ≤ Demands cx s := fun _ _ => h.demands
  exact hends a (ReflTransGen.mono hmono id a ha) (TransGen.mono hmono a a hcycle)

theorem Ends.operand {b : NodeId} (h : Ends cx s id) (hd : Demands cx s id b) : Ends cx s b :=
  fun a ha => h a (.head hd ha)

/-- No chain of demands from a node is longer than `depth`. -/
def Shallow (cx : Context) (s : Emitter) : Nat → NodeId → Prop
  | 0, id => ∀ b, ¬ Demands cx s id b
  | depth + 1, id => ∀ b, Demands cx s id b → Shallow cx s depth b

theorem Grows.shallow (h : Grows s s') {depth : Nat} {id : NodeId}
    (hshallow : Shallow cx s depth id) : Shallow cx s' depth id := by
  induction depth generalizing id with
  | zero => exact fun b hd => hshallow b (h.demands hd)
  | succ depth ih => exact fun b hd => ih (hshallow b (h.demands hd))

open Classical in
/-- The nodes of the graph that are demanded for a node, and the node itself. -/
noncomputable def demanded (cx : Context) (s : Emitter) (id : NodeId) : Finset NodeId :=
  (Finset.range cx.graph.size).filter (ReflTransGen (Demands cx s) id)

/-- An operand demands fewer nodes than the node that demands it. -/
theorem Ends.card_demanded_lt {b : NodeId} (h : Ends cx s id) (hd : Demands cx s id b) :
    (demanded cx s b).card < (demanded cx s id).card := by
  have ⟨_, node, hnode, _⟩ := hd
  refine Finset.card_lt_card (Finset.ssubset_iff_of_subset ?_ |>.2 ⟨id, ?_, ?_⟩)
  · intro n hn
    simp only [demanded, Finset.mem_filter] at hn ⊢
    exact ⟨hn.1, .head hd hn.2⟩
  · simp only [demanded, Finset.mem_filter, Finset.mem_range]
    exact ⟨Graph.lt_size_of_get? hnode, .refl⟩
  · simp only [demanded, Finset.mem_filter, not_and]
    exact fun _ hback => h _ .refl (TransGen.head' hd hback)

theorem Ends.shallow_of_card_le {depth : Nat} (h : Ends cx s id)
    (hcard : (demanded cx s id).card ≤ depth) : Shallow cx s depth id := by
  induction depth generalizing id with
  | zero =>
    intro b hd
    have hlt := h.card_demanded_lt hd
    omega
  | succ depth ih =>
    intro b hd
    have hlt := h.card_demanded_lt hd
    exact ih (h.operand hd) (by omega)

/-- The size of the graph bounds every chain of demands. -/
theorem Ends.shallow (h : Ends cx s id) : Shallow cx s cx.graph.size id := by
  refine h.shallow_of_card_le ?_
  calc (demanded cx s id).card
    _ ≤ (Finset.range cx.graph.size).card := Finset.card_le_card fun n hn => by
      simp only [demanded, Finset.mem_filter] at hn
      exact hn.1
    _ = cx.graph.size := Finset.card_range _

theorem Evaluates.grows {ids : List NodeId} {vs : List Value} (h : Evaluates cx ids s vs s') :
    Grows s s' :=
  fun _ => h.value?_none

section congr

variable {f g : NodeId → Emit Value} (hg : ∀ b, Derives cx b (g b))

include hg

/-- Two evaluations that agree on some nodes in every state that comes up. -/
theorem mapM_congr {ids : List NodeId}
    (heq : ∀ id ∈ ids, ∀ s₁, Grows s s₁ → f id s₁ = g id s₁) : ids.mapM f s = ids.mapM g s := by
  induction ids generalizing s with
  | nil => rfl
  | cons id ids ih =>
    rw [List.mapM_cons, List.mapM_cons]
    have hid := heq id List.mem_cons_self s (.refl s)
    cases hgid : g id s with
    | error e s₁ => rw [Emit.bind_of_error hgid, Emit.bind_of_error (hid.trans hgid)]
    | ok v s₁ =>
      have hgrowsid : Grows s s₁ := ((hg id).ok hgid).grows
      have hids : ids.mapM f s₁ = ids.mapM g s₁ := ih fun other hother s₂ hgrows =>
        heq other (List.mem_cons_of_mem _ hother) s₂ (hgrowsid.trans hgrows)
      rw [Emit.bind_of_ok hgid, Emit.bind_of_ok (hid.trans hgid)]
      simp only [bind, EStateM.bind, hids]

theorem evaluateBy_congr
    (heq : ∀ b, Demands cx s id b → ∀ s₁, Grows s s₁ → f b s₁ = g b s₁) :
    evaluateBy cx f id s = evaluateBy cx g id s := by
  rw [evaluateBy_eq, evaluateBy_eq]
  cases hv : s.value? id with
  | some v => rfl
  | none =>
    cases hnode : cx.graph.get? id with
    | none => rfl
    | some node =>
      have hargs : (cx.evaluated node).mapM f s = (cx.evaluated node).mapM g s :=
        mapM_congr hg fun b hb => heq b ⟨hv, node, hnode, hb⟩
      simp only [bind, EStateM.bind, hargs]

end congr

/-- Where recursion gives up does not matter if no chain of demands gets there. -/
theorem atDepth_eq {n depth depth' : Nat} (hshallow : Shallow cx s n id) (hdepth : n ≤ depth)
    (hdepth' : n ≤ depth') : atDepth cx depth id s = atDepth cx depth' id s := by
  induction n generalizing id s depth depth' with
  | zero =>
    obtain ⟨f, -, hf⟩ := exists_derives depth id
    obtain ⟨g, hg, hg'⟩ := exists_derives depth' id
    rw [hf, hg']
    exact evaluateBy_congr hg fun b hd => absurd hd (hshallow b)
  | succ n ih =>
    obtain ⟨depth, rfl⟩ := Nat.exists_eq_add_of_le' (Nat.lt_of_lt_of_le n.succ_pos hdepth)
    obtain ⟨depth', rfl⟩ := Nat.exists_eq_add_of_le' (Nat.lt_of_lt_of_le n.succ_pos hdepth')
    refine evaluateBy_congr (derives_atDepth depth') fun b hd s₁ hgrows => ?_
    exact ih (hgrows.shallow (hshallow b hd)) (by omega) (by omega)

/-! ### The recursive definition -/

/-- An evaluation solves the recursive definition where demands end. -/
def Recursive (cx : Context) (f : NodeId → Emit Value) : Prop :=
  ∀ id s, Ends cx s id → f id s = evaluateBy cx f id s

theorem recursive_evaluate : Recursive cx (evaluate cx) := by
  intro id s hends
  have hloop : evaluate cx = atDepth cx cx.graph.size := funext evaluate_eq
  rw [hloop]
  exact atDepth_eq hends.shallow (Nat.le_refl _) (Nat.le_succ _)

/-- A solution is recursion to any depth that no chain of demands exceeds. -/
theorem Recursive.eq_atDepth (hf : Recursive cx f) {n : Nat} (hends : Ends cx s id)
    (hshallow : Shallow cx s n id) : f id s = atDepth cx n id s := by
  induction n generalizing id s with
  | zero =>
    obtain ⟨g, hg, hg'⟩ := exists_derives 0 id
    rw [hf id s hends, hg']
    exact evaluateBy_congr hg fun b hd => absurd hd (hshallow b)
  | succ n ih =>
    rw [hf id s hends]
    refine evaluateBy_congr (derives_atDepth n) fun b hd s₁ hgrows => ?_
    exact ih (hgrows.ends (hends.operand hd)) (hgrows.shallow (hshallow b hd))

/-! ### Errors -/

/-- Errors of the loop itself: too few operands on the stack, more or fewer results than one, or no
end of the operands. -/
def Error.isOfLoop : Error → Bool
  | .operandsMissing _ _ _ | .resultCount _ _ | .endless _ => true
  | _ => false

section rendering

variable {node : Node} {args : List Expr} {e : Error}

theorem isOfLoop_of_call {target : Invocation} (h : cx.call id node target args = .error e) :
    e.isOfLoop = false := by
  simp only [Context.call] at h
  split_ifs at h
  · cases h
    rfl
  · cases h
    rfl
  · split at h <;> cases h
    rfl
  · split at h
    · cases h
      rfl
    · cases h
      rfl
    · cases h
      rfl
    · split at h <;> cases h
      rfl
    · split at h <;> cases h
      rfl

theorem isOfLoop_of_argument {field : String} (h : cx.argument field = .error e) :
    e.isOfLoop = false := by
  simp only [Context.argument] at h
  split at h <;> cases h
  rfl

theorem isOfLoop_of_unary {f : Expr → Expr} (h : Context.unary id args f = .error e) :
    e.isOfLoop = false := by
  unfold Context.unary at h
  split at h <;> cases h
  rfl

theorem isOfLoop_of_pair {f : Expr → Expr → Expr} (h : Context.pair id args f = .error e) :
    e.isOfLoop = false := by
  unfold Context.pair at h
  split at h <;> cases h
  rfl

theorem isOfLoop_of_triple {f : Expr → Expr → Expr → Expr}
    (h : Context.triple id args f = .error e) : e.isOfLoop = false := by
  unfold Context.triple at h
  split at h <;> cases h
  rfl

theorem isOfLoop_of_express (h : cx.express id node args = .error e) : e.isOfLoop = false := by
  cases hkind : node.kind with
  | int | long | float | double | string =>
    simp only [Context.express, hkind] at h
    cases h
  | param index =>
    simp only [Context.express, hkind] at h
    split at h <;> cases h
    rfl
  | negate | convert =>
    simp only [Context.express, hkind] at h
    exact isOfLoop_of_unary h
  | binary | compare | threeWay | arrayLoad =>
    simp only [Context.express, hkind] at h
    exact isOfLoop_of_pair h
  | arrayStore =>
    simp only [Context.express, hkind] at h
    exact isOfLoop_of_triple h
  | getField field =>
    simp only [Context.express, hkind] at h
    split_ifs at h
    · split at h
      · exact isOfLoop_of_argument h
      · cases h
        rfl
    · exact isOfLoop_of_unary h
  | putField field =>
    simp only [Context.express, hkind] at h
    split_ifs at h
    · split at h
      · cases hfield : cx.argument field with
        | error e' =>
          rw [hfield] at h
          cases h
          exact isOfLoop_of_argument hfield
        | ok target =>
          rw [hfield] at h
          cases h
      · cases h
        rfl
    · exact isOfLoop_of_pair h
  | invoke target =>
    simp only [Context.express, hkind] at h
    exact isOfLoop_of_call h
  | _ =>
    simp only [Context.express, hkind] at h
    cases h
    rfl

theorem isOfLoop_of_privateArray (h : cx.privateArray node = .error e) : e.isOfLoop = false := by
  unfold Context.privateArray at h
  split at h
  · cases h
    rfl
  · split_ifs at h
    · cases h
      rfl
    · split at h
      · split_ifs at h
        cases h
        rfl
      · cases h
        rfl

/-- A node that cannot be rendered is no trouble of the loop. -/
theorem isOfLoop_of_rendering (h : cx.rendering id node args = .error e) :
    e.isOfLoop = false := by
  unfold Context.rendering at h
  split at h
  · exact isOfLoop_of_privateArray h
  · cases hexpr : cx.express id node args with
    | error e' =>
      rw [hexpr] at h
      cases h
      exact isOfLoop_of_express hexpr
    | ok expr =>
      rw [hexpr] at h
      cases h

end rendering

section loop

variable {f : NodeId → Emit Value} (hf : ∀ b, Derives cx b (f b)) {e : Error}

include hf

theorem mapM_error {ids : List NodeId} (h : ids.mapM f s = .error e s') :
    ∃ id ∈ ids, ∃ s₁, Grows s s₁ ∧ f id s₁ = .error e s' := by
  induction ids generalizing s with
  | nil => cases h
  | cons id ids ih =>
    rcases Emit.mapM_cons_error.1 h with hid | ⟨v, s₁, hid, hids⟩
    · exact ⟨id, List.mem_cons_self, s, .refl s, hid⟩
    · obtain ⟨other, hother, s₂, hgrows, herror⟩ := ih hids
      have hgrowsid : Grows s s₁ := ((hf id).ok hid).grows
      exact ⟨other, List.mem_cons_of_mem _ hother, s₂, hgrowsid.trans hgrows, herror⟩

/-- An error comes from an operand, from rendering the node, or from its absence. -/
theorem isOfLoop_of_evaluateBy
    (hoperands : ∀ b, Demands cx s id b → ∀ s₁, Grows s s₁ → f b s₁ = .error e s' →
      e.isOfLoop = false)
    (h : evaluateBy cx f id s = .error e s') : e.isOfLoop = false := by
  rw [evaluateBy_eq] at h
  cases hv : s.value? id with
  | some v =>
    rw [hv] at h
    cases h
  | none =>
    cases hnode : cx.graph.get? id with
    | none =>
      simp only [hv, hnode] at h
      cases h
      rfl
    | some node =>
      simp only [hv, hnode] at h
      rcases Emit.bind_error.1 h with hargs | ⟨args, s₁, -, hprod⟩
      · obtain ⟨b, hb, s₁, hgrows, herror⟩ := mapM_error hf hargs
        exact hoperands b ⟨hv, node, hnode, hb⟩ s₁ hgrows herror
      · exact isOfLoop_of_rendering (error_of_produce hprod).1

end loop

theorem isOfLoop_of_atDepth {e : Error} {n : Nat} (hshallow : Shallow cx s n id)
    (h : atDepth cx n id s = .error e s') : e.isOfLoop = false := by
  induction n generalizing id s with
  | zero =>
    obtain ⟨f, hf, heq⟩ := exists_derives 0 id
    rw [heq] at h
    exact isOfLoop_of_evaluateBy hf (fun b hd => absurd hd (hshallow b)) h
  | succ n ih =>
    refine isOfLoop_of_evaluateBy (derives_atDepth n) (fun b hd s₁ hgrows herror => ?_) h
    exact ih (hgrows.shallow (hshallow b hd)) herror

/-- **Evaluation with two stacks is recursive evaluation.** From a node below which no node demands
itself, evaluation does what the recursive definition says, and whatever else solves that definition
does the same: the same value or the same error, and the same emitter, also after an error. It does
not stop for want of operands on the stack, for a surplus of results, or because operands do not
end. -/
theorem evaluate_recursive (root : NodeId) (s : Emitter) (h : Ends cx s root) :
    evaluate cx root s = evaluateBy cx (evaluate cx) root s ∧
      (∀ f, Recursive cx f → f root s = evaluate cx root s) ∧
      (∀ e s', evaluate cx root s = .error e s' → e.isOfLoop = false) := by
  refine ⟨recursive_evaluate root s h, fun f hf => ?_, fun e s' herror => ?_⟩
  · rw [evaluate_eq]
    exact hf.eq_atDepth h h.shallow
  · rw [evaluate_eq] at herror
    exact isOfLoop_of_atDepth h.shallow herror

/-- Demands that only go down end. -/
theorem ends_of_lt (h : ∀ a b, Demands cx s a b → b < a) (id : NodeId) : Ends cx s id := by
  intro a _ hcycle
  have hdown : ∀ {a b}, TransGen (Demands cx s) a b → b < a := by
    intro a b hab
    induction hab with
    | single hd => exact h _ _ hd
    | tail _ hd ih => exact Nat.lt_trans (h _ _ hd) ih
  exact Nat.lt_irrefl a (hdown hcycle)

/-- A sum of a product of a shared value, which is written, and of a value that has no text. -/
def halfRendered : Context where
  cls := { name := ⟨"Kernel"⟩ }
  method :=
    { name := "run"
      params := [⟨"n", .int⟩]
      graph := ⟨#[.param 0 .int, ⟨.binary .add, .int, [0, 0]⟩, ⟨.binary .mul, .int, [1, 1]⟩,
        ⟨.null, .int, []⟩, ⟨.binary .add, .int, [2, 3]⟩]⟩
      body := [] }

theorem evaluate_recursive_halfRendered :
    ∃ s', evaluateBy halfRendered (evaluate halfRendered) 4
        (Emitter.start halfRendered) = .error .nullReference s' ∧
      s'.rendered = [0, 0, 1, 2] ∧ s'.rows.length = 1 ∧
      ∀ f, Recursive halfRendered f →
        f 4 (Emitter.start halfRendered) = .error .nullReference s' := by
  have hends : Ends halfRendered (Emitter.start halfRendered) 4 := by
    refine ends_of_lt (fun a b ⟨_, node, hnode, hb⟩ => ?_) 4
    have hall : ∀ id < 5, ∀ node ∈ halfRendered.graph.get? id,
        ∀ b ∈ halfRendered.evaluated node, b < id := by decide
    exact hall a (Graph.lt_size_of_get? hnode) node hnode b hb
  obtain ⟨hrecursive, hunique, -⟩ := evaluate_recursive 4 (Emitter.start halfRendered) hends
  have hrun : (match evaluate halfRendered 4 (Emitter.start halfRendered) with
      | .ok _ _ => none
      | .error e s' => some (e, s'.rendered, s'.rows.length)) =
      some (Error.nullReference, [0, 0, 1, 2], 1) := by cbv
  cases heval : evaluate halfRendered 4 (Emitter.start halfRendered) with
  | ok v s' =>
    rw [heval] at hrun
    cases hrun
  | error e s' =>
    rw [heval] at hrun
    obtain ⟨rfl, hrendered, hrows⟩ :
        e = .nullReference ∧ s'.rendered = [0, 0, 1, 2] ∧ s'.rows.length = 1 := by
      simpa using hrun
    exact ⟨s', hrecursive.symm.trans heval, hrendered, hrows,
      fun f hf => (hunique f hf).trans heval⟩

end KernelForge.Source
