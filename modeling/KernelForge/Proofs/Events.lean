import KernelForge.Proofs.Evaluation

/-!
# What each event does

An event that succeeds evaluates some nodes, may bind what is planned for a construct or assign phis,
and then writes its own lines. Each part is described once by a relation on emitter states, and each
event by one statement about these parts.
-/

namespace KernelForge.Source

variable {cx : Context} {s s' : Emitter}

theorem forM_cons_ok {α : Type} {f : α → Emit Unit} {a : α} {as : List α} {u : Unit} :
    (a :: as).forM f s = .ok u s' ↔
      ∃ s₁, f a s = .ok () s₁ ∧ as.forM f s₁ = .ok () s' := by
  simp only [List.forM_eq_forM, List.forM_cons, Emit.bind_ok]
  constructor
  · rintro ⟨_, s₁, h₁, h₂⟩
    exact ⟨s₁, h₁, h₂⟩
  · rintro ⟨s₁, h₁, h₂⟩
    exact ⟨(), s₁, h₁, h₂⟩

theorem forM_nil_ok {α : Type} {f : α → Emit Unit} {u : Unit} :
    ([] : List α).forM f s = .ok u s' ↔ s = s' := by
  simp [List.forM_eq_forM]

/-! ### Binding planned values -/

theorem Plan.hoist?_without (plan : Plan) (anchor other : Anchor) :
    (plan.without anchor).hoist? other =
      if other = anchor then none else plan.hoist? other := by
  rw [without, hoist?, lookup_filter_key (· != anchor)]
  by_cases h : other = anchor <;> simp [h, hoist?]

/-- Binding planned values before a construct: each is looked up, evaluated or pinned. -/
inductive Binds (cx : Context) (unstable : List NodeId) :
    List NodeId → Emitter → Emitter → Prop
  | nil (s : Emitter) : Binds cx unstable [] s s
  | known {id : NodeId} {rest : List NodeId} {s s' : Emitter} {v : Value}
      (hv : s.value? id = some v) (hrest : Binds cx unstable rest s s') :
      Binds cx unstable (id :: rest) s s'
  | now {id : NodeId} {rest : List NodeId} {s s₁ s' : Emitter} {v : Value}
      (hv : s.value? id = none) (havail : isAvailable cx s unstable id = .ok true)
      (heval : Evaluates cx [id] s [v] s₁) (hrest : Binds cx unstable rest s₁ s') :
      Binds cx unstable (id :: rest) s s'
  | pin {id : NodeId} {rest : List NodeId} {s s' : Emitter} (hv : s.value? id = none)
      (hrest : Binds cx unstable rest { s with pinned := id :: s.pinned } s') :
      Binds cx unstable (id :: rest) s s'

theorem binds_of_ok {unstable : List NodeId} : ∀ {ids : List NodeId} {s : Emitter},
    ids.forM (hoistNode cx unstable) s = .ok () s' → Binds cx unstable ids s s'
  | [], s, h => by
    rw [forM_nil_ok] at h
    exact h ▸ .nil s
  | id :: rest, s, h => by
    obtain ⟨s₁, hid, hrest⟩ := forM_cons_ok.1 h
    have ih := binds_of_ok hrest
    simp only [hoistNode, Emit.bind_ok, Emit.get_ok] at hid
    obtain ⟨_, _, ⟨rfl, rfl⟩, hid⟩ := hid
    split_ifs at hid with hbound
    · obtain ⟨-, rfl⟩ := Emit.pure_ok.1 hid
      obtain ⟨v, hv⟩ := s.isBound_iff.1 hbound
      exact .known hv ih
    · have hv : s.value? id = none := s.not_isBound_iff.1 (by simpa using hbound)
      simp only [Emit.bind_ok, Emit.lift_ok] at hid
      obtain ⟨available, _, ⟨havail, rfl⟩, hid⟩ := hid
      split_ifs at hid with hnow
      · obtain ⟨v, s₂, heval, hpure⟩ := Emit.bind_ok.1 hid
        obtain ⟨-, rfl⟩ := Emit.pure_ok.1 hpure
        exact .now hv (hnow ▸ havail) (evaluates_of_ok heval) ih
      · rw [Emit.modify_ok] at hid
        exact .pin hv (hid ▸ ih)

/-- Binding what is planned for a construct, if anything is. -/
inductive Hoists (cx : Context) (anchor : Anchor) (s s' : Emitter) : Prop
  | nothing (hplan : s.plan.hoist? anchor = none) (h : s' = s)
  | planned {hoist : Hoist} (hplan : s.plan.hoist? anchor = some hoist)
      (h : Binds cx hoist.unstable hoist.nodes { s with plan := s.plan.without anchor } s')

theorem hoists_of_ok {anchor : Anchor} (h : hoist cx anchor s = .ok () s') :
    Hoists cx anchor s s' := by
  simp only [hoist, Emit.bind_ok, Emit.get_ok] at h
  obtain ⟨_, _, ⟨rfl, rfl⟩, h⟩ := h
  cases hplan : s.plan.hoist? anchor with
  | none =>
    rw [hplan] at h
    exact .nothing hplan (Emit.pure_ok.1 h).2.symm
  | some planned =>
    rw [hplan] at h
    simp only [Emit.bind_ok, Emit.modify_ok] at h
    obtain ⟨_, _, rfl, h⟩ := h
    exact .planned hplan (binds_of_ok h)

/-! ### Assigning phis -/

/-- Evaluating the values that flow into phis; `staged` asks for temporaries of their own. -/
inductive FlowsIn (cx : Context) (staged : Bool) :
    List (NodeId × NodeId) → Emitter → List (NodeId × Expr) → Emitter → Prop
  | nil (s : Emitter) : FlowsIn cx staged [] s [] s
  | direct {phi value : NodeId} {rest : List (NodeId × NodeId)} {s s₁ s' : Emitter} {v : Value}
      {node : Node} {assignments : List (NodeId × Expr)} (heval : Evaluates cx [value] s [v] s₁)
      (hnode : cx.graph.get? value = some node) (hdirect : staged → node.kind.isConstant)
      (hrest : FlowsIn cx staged rest s₁ assignments s') :
      FlowsIn cx staged ((phi, value) :: rest) s ((phi, v.expr) :: assignments) s'
  | stage {phi value : NodeId} {rest : List (NodeId × NodeId)} {s s₁ s' : Emitter} {v : Value}
      {assignments : List (NodeId × Expr)} (hstaged : staged)
      (heval : Evaluates cx [value] s [v] s₁)
      (hrest : FlowsIn cx staged rest (s₁.countTemp.write
        (.stage (cx.metadata.declaredType v.ty) (s₁.nextTemp .var) v.expr)) assignments s') :
      FlowsIn cx staged ((phi, value) :: rest) s
        ((phi, .temp (s₁.nextTemp .var)) :: assignments) s'

/-- Writing the assignments of phis. -/
inductive Feeds : List (NodeId × Expr) → Emitter → Emitter → Prop
  | nil (s : Emitter) : Feeds [] s s
  | cons {phi : NodeId} {e : Expr} {rest : List (NodeId × Expr)} {s s' : Emitter} {ty : Ty}
      {t : Temp} (hv : s.value? phi = some ⟨ty, .temp t⟩)
      (hrest : Feeds rest (s.write (.feed phi t e)) s') : Feeds ((phi, e) :: rest) s s'

theorem node_ok {id : NodeId} {node : Node} :
    cx.node id = .ok node ↔ cx.graph.get? id = some node := by
  unfold Context.node
  split <;> simp_all

/-- What happens to one incoming value: it is used as it is, or it is kept in the next variable. -/
theorem incoming_ok {staged : Bool} {move : NodeId × NodeId} {a : NodeId × Expr}
    (h : incoming cx staged move s = .ok a s') :
    ∃ v s₁, evaluate cx move.2 s = .ok v s₁ ∧
      ((∃ node, cx.graph.get? move.2 = some node ∧ (staged → node.kind.isConstant)) ∧
          a = (move.1, v.expr) ∧ s' = s₁ ∨
        staged ∧ a = (move.1, .temp (s₁.nextTemp .var)) ∧ s' = s₁.countTemp.write
          (.stage (cx.metadata.declaredType v.ty) (s₁.nextTemp .var) v.expr)) := by
  simp only [incoming, Emit.bind_ok, Emit.lift_ok, node_ok] at h
  obtain ⟨v, s₁, heval, node, _, ⟨hnode, rfl⟩, h⟩ := h
  refine ⟨v, s₁, heval, ?_⟩
  split_ifs at h with hstage
  · simp only [Emit.bind_ok, Emit.get_ok, Emit.set_ok, Emit.pure_ok] at h
    obtain ⟨_, _, ⟨rfl, rfl⟩, _, _, rfl, rfl, rfl⟩ := h
    exact .inr ⟨(Bool.and_eq_true_iff.1 hstage).1, rfl, rfl⟩
  · obtain ⟨rfl, rfl⟩ := Emit.pure_ok.1 h
    exact .inl ⟨⟨node, hnode, fun hs => by simpa [hs] using hstage⟩, rfl, rfl⟩

theorem flowsIn_of_ok {staged : Bool} : ∀ {moves : List (NodeId × NodeId)} {s s' : Emitter}
    {assignments : List (NodeId × Expr)},
    moves.mapM (incoming cx staged) s = .ok assignments s' →
      FlowsIn cx staged moves s assignments s'
  | [], s, _, assignments, h => by
    rw [List.mapM_nil, Emit.pure_ok] at h
    obtain ⟨rfl, rfl⟩ := h
    exact .nil s
  | (phi, value) :: rest, s, _, assignments, h => by
    rw [List.mapM_cons] at h
    simp only [Emit.bind_ok, Emit.pure_ok] at h
    obtain ⟨assignment, s₁, hmove, tail, s₂, hrest, rfl, rfl⟩ := h
    have ih := flowsIn_of_ok hrest
    obtain ⟨v, s₃, heval, ⟨⟨node, hnode, hdirect⟩, rfl, rfl⟩ | ⟨hstaged, rfl, rfl⟩⟩ :=
      incoming_ok hmove
    · exact .direct (evaluates_of_ok heval) hnode hdirect ih
    · exact .stage hstaged (evaluates_of_ok heval) ih

theorem feeds_of_ok : ∀ {assignments : List (NodeId × Expr)} {s : Emitter},
    assignments.forM feed s = .ok () s' → Feeds assignments s s'
  | [], s, h => by
    rw [forM_nil_ok] at h
    exact h ▸ .nil s
  | (phi, e) :: rest, s, h => by
    obtain ⟨s₁, hfeed, hrest⟩ := forM_cons_ok.1 h
    have ih := feeds_of_ok hrest
    simp only [feed, Emit.bind_ok, Emit.get_ok] at hfeed
    obtain ⟨_, _, ⟨rfl, rfl⟩, hfeed⟩ := hfeed
    cases hv : s.value? phi with
    | none => simp [hv] at hfeed
    | some v =>
      obtain ⟨ty, target⟩ := v
      cases target with
      | temp t =>
        simp only [hv, emitLine, Emit.modify_ok] at hfeed
        exact .cons hv (hfeed ▸ ih)
      | _ => simp [hv] at hfeed

/-- Assigning the phis of an edge: all values first, then all assignments. -/
inductive Assigns (cx : Context) (source : NodeId) (s s' : Emitter) : Prop
  | intro {moves : List (NodeId × NodeId)} {assignments : List (NodeId × Expr)} {s₁ : Emitter}
      (hmoves : phiMoves cx source = .ok moves)
      (hin : FlowsIn cx (decide (1 < moves.length)) moves s assignments s₁)
      (hfeed : Feeds assignments s₁ s')

theorem assigns_of_ok {source : NodeId} (h : assignPhis cx source s = .ok () s') :
    Assigns cx source s s' := by
  simp only [assignPhis, Emit.bind_ok, Emit.lift_ok] at h
  obtain ⟨moves, _, ⟨hmoves, rfl⟩, assignments, s₁, hin, hfeed⟩ := h
  exact .intro hmoves (flowsIn_of_ok hin) (feeds_of_ok hfeed)

/-! ### The events -/

/-- The state after a construct is closed: its scope is gone and its brace is written. -/
def Emitter.closed (s : Emitter) (rest : List Open) : Emitter :=
  { s with opened := rest }.closeScope.write .close

@[simp] theorem Emitter.lines_closed (s : Emitter) (rest : List Open) :
    (s.closed rest).lines = s.lines ++ [.close] := by
  rw [closed, lines_write, lines_closeScope]
  rfl

theorem lines_writeDefault (s : Emitter) :
    (writeDefault s).lines = s.lines ++ [.openCase none, .endCase, .close] := by
  simp [writeDefault, Emitter.lines, Emitter.write]

/-- Everything that an event can do to the emitter. -/
inductive Emitted (cx : Context) : Event → Emitter → Emitter → Prop
  | effectKnown {id : NodeId} {s : Emitter} {v : Value} (hv : s.value? id = some v) :
      Emitted cx (.effect id) s s
  | effectVoid {id : NodeId} {node : Node} {s s₁ : Emitter} {v : Value}
      (hv : s.value? id = none) (hnode : cx.graph.get? id = some node)
      (hvoid : node.ty.isVoid = true) (heval : Evaluates cx [id] s [v] s₁) :
      Emitted cx (.effect id) s (s₁.write (.effect id v.expr))
  | effectKept {id : NodeId} {node : Node} {s s₁ : Emitter} {v w : Value}
      (hv : s.value? id = none) (hnode : cx.graph.get? id = some node)
      (hvoid : node.ty.isVoid = false) (heval : Evaluates cx [id] s [v] s₁)
      (hv₁ : s₁.value? id = some w) : Emitted cx (.effect id) s s₁
  | effectFresh {id : NodeId} {node : Node} {s s₁ : Emitter} {v : Value}
      (hv : s.value? id = none) (hnode : cx.graph.get? id = some node)
      (hvoid : node.ty.isVoid = false) (heval : Evaluates cx [id] s [v] s₁)
      (hv₁ : s₁.value? id = none) :
      Emitted cx (.effect id) s (s₁.materialize cx id node.ty v.expr false)
  | ret {id : NodeId} {s : Emitter} (hops : cx.graph.operands id = []) :
      Emitted cx (.ret id) s (s.write (.ret none))
  | retValue {id value : NodeId} {s s₁ : Emitter} {v : Value}
      (hops : cx.graph.operands id = [value]) (heval : Evaluates cx [value] s [v] s₁) :
      Emitted cx (.ret id) s (s₁.write (.ret (some v.expr)))
  | startBlock {b : Block} {s s₁ : Emitter} (hlabel : b.label ∉ s.labels)
      (hhoist : Hoists cx (.block b.label) { s with labels := b.label :: s.labels } s₁) :
      Emitted cx (.startBlock b) s
        { (s₁.write (.openBlock b)).openScope with opened := .block b false :: s₁.opened }
  | finishBlock {b open_ : Block} {used : Bool} {rest : List Open} {s : Emitter}
      (hopened : s.opened = .block open_ used :: rest) (hlabel : open_.label = b.label) :
      Emitted cx (.finishBlock b) s
        (if used then (s.closed rest).write (.exitMark b.label) else s.closed rest)
  | startIf {id c : NodeId} {s s₁ s₂ : Emitter} {v : Value} (hops : cx.graph.operands id = [c])
      (heval : Evaluates cx [c] s [v] s₁) (hhoist : Hoists cx (.choice id) s₁ s₂) :
      Emitted cx (.startIf id) s
        { (s₂.write (.openIf v.expr)).openScope with opened := .branch id false :: s₂.opened }
  | startElse {id : NodeId} {rest : List Open} {s : Emitter}
      (hopened : s.opened = .branch id false :: rest) :
      Emitted cx (.startElse id) s
        ({ s with opened := .branch id true :: rest }.closeScope.write .otherwise).openScope
  | finishIf {id : NodeId} {inElse : Bool} {rest : List Open} {s : Emitter}
      (hopened : s.opened = .branch id inElse :: rest) :
      Emitted cx (.finishIf id) s (s.closed rest)
  | startSwitch {id c : NodeId} {s s₁ s₂ : Emitter} {v : Value}
      (hops : cx.graph.operands id = [c]) (heval : Evaluates cx [c] s [v] s₁)
      (hhoist : Hoists cx (.choice id) s₁ s₂) :
      Emitted cx (.startSwitch id) s
        { s₂.write (.openSwitch v.expr) with
          indent := s₂.indent + 1
          opened := .switch id false :: s₂.opened }
  | startCase {id : NodeId} {key : Option Int32} {hasDefault : Bool} {rest : List Open}
      {s : Emitter} (hopened : s.opened = .switch id hasDefault :: rest) :
      Emitted cx (.startCase id key) s
        { (s.write (.openCase key)).openScope with
          opened := .case id :: .switch id (hasDefault || key.isNone) :: rest }
  | finishCase {id : NodeId} {rest : List Open} {s : Emitter}
      (hopened : s.opened = .case id :: rest) :
      Emitted cx (.finishCase id) s ((s.write .endCase).closed rest)
  | finishSwitch {id : NodeId} {hasDefault : Bool} {rest : List Open} {s s₁ : Emitter}
      (hopened : s.opened = .switch id hasDefault :: rest)
      (hdefault : s₁ = if hasDefault then s else writeDefault s) :
      Emitted cx (.finishSwitch id) s
        ({ s₁ with indent := s₁.indent - 1, opened := rest }.write .close)
  | leave {source : NodeId} {label : String} {s s₁ : Emitter}
      (hblock : openBlock? s label ≠ none)
      (hassign : Assigns cx source { s with opened := markExit label s.opened } s₁) :
      Emitted cx (.leave source label) s (s₁.write (.gotoExit label))
  | again {source : NodeId} {label : String} {b : Block} {s s₁ : Emitter}
      (hblock : openBlock? s label = some b) (hloop : b.isLoop = true)
      (hassign : Assigns cx source s s₁) :
      Emitted cx (.again source label) s (s₁.write (.gotoStart label))
  | edge {source : NodeId} {s s' : Emitter} (hassign : Assigns cx source s s') :
      Emitted cx (.edge source) s s'

/-! ### Taking an event apart -/

theorem operands_of_get? {id : NodeId} {node : Node} (h : cx.graph.get? id = some node) :
    cx.graph.operands id = node.operands := by
  simp [Graph.operands, h]

theorem choiceOperand_ok {choice : Choice} {id c : NodeId}
    (h : choiceOperand cx choice id = .ok c) : cx.graph.operands id = [c] := by
  simp only [choiceOperand, bind, Except.bind] at h
  cases hnode : cx.node id with
  | error e => simp [hnode] at h
  | ok node =>
    simp only [hnode] at h
    rw [operands_of_get? (node_ok.1 hnode)]
    match hops : node.operands with
    | [operand] =>
      simp only [hops, throw, throwThe, MonadExceptOf.throw, pure, Except.pure] at h
      split_ifs at h
      rw [Except.ok.inj h]
    | [] | _ :: _ :: _ =>
      simp only [hops, throw, throwThe, MonadExceptOf.throw] at h
      split_ifs at h

theorem emitted_effect {id : NodeId} (h : writeEffect cx id s = .ok () s') :
    Emitted cx (.effect id) s s' := by
  simp only [writeEffect, Emit.bind_ok, Emit.get_ok] at h
  obtain ⟨_, _, ⟨rfl, rfl⟩, h⟩ := h
  split_ifs at h with hbound
  · obtain ⟨-, rfl⟩ := Emit.pure_ok.1 h
    obtain ⟨v, hv⟩ := s.isBound_iff.1 hbound
    exact .effectKnown hv
  · have hv := s.not_isBound_iff.1 (by simpa using hbound)
    simp only [Emit.bind_ok, Emit.lift_ok, node_ok] at h
    obtain ⟨v, s₁, heval, node, _, ⟨hnode, rfl⟩, h⟩ := h
    have heval := evaluates_of_ok heval
    split_ifs at h with hvoid
    · simp only [emitLine, Emit.modify_ok] at h
      exact h ▸ .effectVoid hv hnode hvoid heval
    · have hvoid : node.ty.isVoid = false := by simpa using hvoid
      simp only [Emit.bind_ok, Emit.get_ok] at h
      obtain ⟨_, _, ⟨rfl, rfl⟩, h⟩ := h
      split_ifs at h with hfresh
      · rw [Emit.modify_ok] at h
        refine h ▸ .effectFresh hv hnode hvoid heval (s₁.not_isBound_iff.1 ?_)
        simpa using hfresh
      · obtain ⟨-, rfl⟩ := Emit.pure_ok.1 h
        obtain ⟨w, hw⟩ := s₁.isBound_iff.1 (by simpa using hfresh)
        exact .effectKept hv hnode hvoid heval hw

theorem emitted_ret {id : NodeId} (h : writeReturn cx id s = .ok () s') :
    Emitted cx (.ret id) s s' := by
  simp only [writeReturn, Emit.bind_ok, Emit.lift_ok, node_ok] at h
  obtain ⟨node, _, ⟨hnode, rfl⟩, h⟩ := h
  have hops := operands_of_get? hnode
  by_cases hret : node.kind = .ret
  · rw [hret] at h
    cases hn : node.operands with
    | nil =>
      simp only [hn, emitLine, Emit.modify_ok] at h
      exact h ▸ .ret (hops.trans hn)
    | cons value tail =>
      cases tail with
      | nil =>
        simp only [hn, Emit.bind_ok, emitLine, Emit.modify_ok] at h
        obtain ⟨v, s₁, heval, h⟩ := h
        exact h ▸ .retValue (hops.trans hn) (evaluates_of_ok heval)
      | cons => simp [hn] at h
  · cases hk : node.kind with
    | ret => exact absurd hk hret
    | _ => simp [hk] at h

theorem emitted_startBlock {b : Block} (h : startBlock cx b s = .ok () s') :
    Emitted cx (.startBlock b) s s' := by
  simp only [startBlock, Emit.bind_ok, Emit.get_ok] at h
  obtain ⟨_, _, ⟨rfl, rfl⟩, h⟩ := h
  split_ifs at h with hlabel
  · simp [Emit.bind_ok] at h
  · simp only [Emit.bind_ok, emitLine, Emit.modify_ok] at h
    obtain ⟨_, _, rfl, _, s₁, hhoist, _, _, rfl, rfl⟩ := h
    exact .startBlock (by simpa using hlabel) (hoists_of_ok hhoist)

/-- Finishing takes the innermost construct off, and closes it if it is the one to be finished. -/
theorem finishInnermost_eq (c : Construct) (close : Open → Emitter → Emitter) (s : Emitter) :
    finishInnermost c close s =
      match s.opened with
      | [] => .error (.misclosed c none) s
      | o :: rest =>
        if o.construct = c then .ok () (close o { s with opened := rest })
        else .error (.misclosed c (some o.construct)) { s with opened := rest } := by
  rw [finishInnermost, Emit.bind_of_ok (Emit.get_eq s)]
  cases s.opened with
  | nil => rfl
  | cons o rest =>
    dsimp only
    split_ifs <;> rfl

theorem finishInnermost_ok {c : Construct} {close : Open → Emitter → Emitter} {u : Unit} :
    finishInnermost c close s = .ok u s' ↔
      ∃ o rest, s.opened = o :: rest ∧ o.construct = c ∧
        s' = close o { s with opened := rest } := by
  rw [finishInnermost_eq]
  cases s.opened with
  | nil => simp
  | cons o rest =>
    dsimp only
    split_ifs with hc
    · simp [hc, eq_comm]
    · simp [hc]

theorem emitted_finishBlock {b : Block} (h : finishBlock b s = .ok () s') :
    Emitted cx (.finishBlock b) s s' := by
  obtain ⟨o, rest, hopened, hconstruct, rfl⟩ := finishInnermost_ok.1 h
  cases o with
  | block open_ used =>
    have hlabel : open_.label = b.label := Construct.block.inj hconstruct
    have hfinal : Emitted cx (.finishBlock b) s _ := .finishBlock hopened hlabel
    cases used with
    | true =>
      rw [← hlabel] at hfinal
      exact hfinal
    | false => exact hfinal
  | _ => cases hconstruct

theorem emitted_startIf {id : NodeId} (h : startIf cx id s = .ok () s') :
    Emitted cx (.startIf id) s s' := by
  simp only [startIf, Emit.bind_ok, Emit.lift_ok, emitLine, Emit.modify_ok] at h
  obtain ⟨c, _, ⟨hops, rfl⟩, v, s₁, heval, _, s₂, hhoist, _, _, rfl, rfl⟩ := h
  exact .startIf (choiceOperand_ok hops) (evaluates_of_ok heval) (hoists_of_ok hhoist)

theorem emitted_startElse {id : NodeId} (h : startElse id s = .ok () s') :
    Emitted cx (.startElse id) s s' := by
  simp only [startElse, Emit.bind_ok, Emit.get_ok] at h
  obtain ⟨_, _, ⟨rfl, rfl⟩, h⟩ := h
  rcases hopened : s.opened with _ | ⟨o, rest⟩
  · simp [hopened] at h
  cases o with
  | branch open_ inElse =>
    cases inElse with
    | true => simp [hopened] at h
    | false =>
      simp only [hopened] at h
      split_ifs at h with hid
      · rw [Emit.set_ok] at h
        exact h ▸ .startElse (hid ▸ hopened)
      · simp at h
  | _ => simp [hopened] at h

theorem emitted_finishIf {id : NodeId} (h : finishIf id s = .ok () s') :
    Emitted cx (.finishIf id) s s' := by
  obtain ⟨o, rest, hopened, hconstruct, rfl⟩ := finishInnermost_ok.1 h
  cases o with
  | branch open_ inElse =>
    obtain rfl := Construct.branch.inj hconstruct
    exact .finishIf hopened
  | _ => cases hconstruct

theorem emitted_startSwitch {id : NodeId} (h : startSwitch cx id s = .ok () s') :
    Emitted cx (.startSwitch id) s s' := by
  simp only [startSwitch, Emit.bind_ok, Emit.lift_ok, emitLine, Emit.modify_ok] at h
  obtain ⟨c, _, ⟨hops, rfl⟩, v, s₁, heval, _, s₂, hhoist, _, _, rfl, rfl⟩ := h
  exact .startSwitch (choiceOperand_ok hops) (evaluates_of_ok heval) (hoists_of_ok hhoist)

theorem emitted_startCase {id : NodeId} {key : Option Int32}
    (h : startCase id key s = .ok () s') : Emitted cx (.startCase id key) s s' := by
  simp only [startCase, Emit.bind_ok, Emit.get_ok] at h
  obtain ⟨_, _, ⟨rfl, rfl⟩, h⟩ := h
  rcases hopened : s.opened with _ | ⟨o, rest⟩
  · simp [hopened] at h
  cases o with
  | switch open_ hasDefault =>
    simp only [hopened] at h
    split_ifs at h with hid
    · rw [Emit.set_ok] at h
      exact h ▸ .startCase (hid ▸ hopened)
    · simp at h
  | _ => simp [hopened] at h

theorem emitted_finishCase {id : NodeId} (h : finishCase id s = .ok () s') :
    Emitted cx (.finishCase id) s s' := by
  obtain ⟨o, rest, hopened, hconstruct, rfl⟩ := finishInnermost_ok.1 h
  cases o with
  | case open_ =>
    obtain rfl := Construct.case.inj hconstruct
    exact .finishCase hopened
  | _ => cases hconstruct

theorem emitted_finishSwitch {id : NodeId} (h : finishSwitch id s = .ok () s') :
    Emitted cx (.finishSwitch id) s s' := by
  obtain ⟨o, rest, hopened, hconstruct, rfl⟩ := finishInnermost_ok.1 h
  cases o with
  | switch open_ hasDefault =>
    obtain rfl := Construct.switch.inj hconstruct
    have hfinal : Emitted cx (.finishSwitch open_) s _ := .finishSwitch hopened rfl
    cases hasDefault <;> exact hfinal
  | _ => cases hconstruct

theorem emitted_leave {source : NodeId} {label : String}
    (h : writeLeave cx source label s = .ok () s') : Emitted cx (.leave source label) s s' := by
  simp only [writeLeave, Emit.bind_ok, Emit.get_ok] at h
  obtain ⟨_, _, ⟨rfl, rfl⟩, h⟩ := h
  split_ifs at h with hblock
  · simp [Emit.bind_ok] at h
  · simp only [Emit.bind_ok, emitLine, Emit.modify_ok] at h
    obtain ⟨_, _, rfl, _, s₁, hassign, rfl⟩ := h
    exact .leave (by simpa using hblock) (assigns_of_ok hassign)

theorem emitted_again {source : NodeId} {label : String}
    (h : writeAgain cx source label s = .ok () s') : Emitted cx (.again source label) s s' := by
  simp only [writeAgain, Emit.bind_ok, Emit.get_ok] at h
  obtain ⟨_, _, ⟨rfl, rfl⟩, h⟩ := h
  cases hblock : openBlock? s label with
  | none => simp [hblock] at h
  | some b =>
    simp only [hblock] at h
    split_ifs at h with hloop
    · simp [Emit.bind_ok] at h
    · simp only [Emit.bind_ok, emitLine, Emit.modify_ok] at h
      obtain ⟨_, s₁, hassign, rfl⟩ := h
      exact .again hblock (by simpa using hloop) (assigns_of_ok hassign)

/-- An event that succeeds does one of the things listed. -/
theorem emitted_of_ok {e : Event} (h : emitEvent cx e s = .ok () s') : Emitted cx e s s' := by
  cases e with
  | startBlock b => exact emitted_startBlock h
  | finishBlock b => exact emitted_finishBlock h
  | effect id => exact emitted_effect h
  | ret id => exact emitted_ret h
  | startIf id => exact emitted_startIf h
  | startElse id => exact emitted_startElse h
  | finishIf id => exact emitted_finishIf h
  | startSwitch id => exact emitted_startSwitch h
  | startCase id key => exact emitted_startCase h
  | finishCase id => exact emitted_finishCase h
  | finishSwitch id => exact emitted_finishSwitch h
  | leave source label => exact emitted_leave h
  | again source label => exact emitted_again h
  | edge source => exact .edge (assigns_of_ok h)

end KernelForge.Source
