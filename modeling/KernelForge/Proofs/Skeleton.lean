import KernelForge.Proofs.Labels
import KernelForge.Proofs.Levels

/-!
# The control skeleton of a body

The lines of a body that are not straight are its skeleton: brackets, jumps and returns. They are
the print of the tree of statements (`printBody`), each at the indentation of its nesting depth.
What an event adds to the skeleton depends on the constructs that are open (`Event.text`), and these
depend on events that may be far away: that a block was left by a jump is noted where the jump
stands and is looked at where the block ends.
-/

namespace KernelForge

open Source

/-! ### Printing the tree -/

/-- A line of text at a nesting depth. -/
def lineAt (depth : Nat) (text : String) : String :=
  indentation depth ++ text ++ "\n"

/-- The line that opens a block. -/
def blockHeader (b : Block) : String :=
  startLabel b.label ++ if b.isLoop then ": while (true) \x7b" else ": \x7b"

/-- The line that opens a branch or a switch, given the operands of its node. -/
def choiceHeader (word : String) : List Expr → Option String
  | [operand] => some (word ++ " (" ++ operand.condition ++ ") \x7b")
  | _ => none

/-- The line that opens a case. -/
def caseHeader : Option Int32 → String
  | some key => "case " ++ Literal.int key ++ ": \x7b"
  | none => "default: \x7b"

/-- The line of a return, given the operands of its node. -/
def returnText : List Expr → Option String
  | [] => some "return;"
  | [value] => some ("return " ++ value.render ++ ";")
  | _ => none

/-- A case of a switch, given its header and the lines of its body. -/
def caseLines (depth : Nat) (header : String) (inner : List String) : List String :=
  lineAt depth header :: (inner ++ [lineAt (depth + 1) "break;", lineAt depth "\x7d"])

section print

-- the operands of a control node, as they are spelled where the event of a position stands
variable (operands : Nat → NodeId → Option (List Expr))

mutual

/-- The lines of a statement whose first event has position `k`. Nothing is printed for an effect or
an edge, whose lines are straight. -/
def Stmt.print (depth k : Nat) : Stmt → Option (List String)
  | .effect _ | .edge _ => some []
  | .ret node => do
    let text ← (operands k node).bind returnText
    return [lineAt depth text]
  | .leave _ label => some [lineAt depth ("goto " ++ exitLabel label ++ ";")]
  | .again _ label => some [lineAt depth ("goto " ++ startLabel label ++ ";")]
  | .block b body => do
    let inner ← printBody (depth + 1) (k + 1) body
    return lineAt depth (blockHeader b) :: (inner ++ lineAt depth "\x7d" ::
      if b.label ∈ leftLabels body then [lineAt depth (exitLabel b.label ++ ": ;")] else [])
  | .branch node thenBody elseBody => do
    let other := k + 1 + (bodyEvents thenBody).length
    let header ← (operands k node).bind (choiceHeader "if")
    let thenLines ← printBody (depth + 1) (k + 1) thenBody
    let elseLines ← printBody (depth + 1) (other + 1) elseBody
    return lineAt depth header :: (thenLines ++ lineAt depth "\x7d else \x7b" ::
      (elseLines ++ [lineAt depth "\x7d"]))
  | .switch node arms fallback => do
    let start := k + 1 + (armEvents node arms).length
    let header ← (operands k node).bind (choiceHeader "switch")
    let cases ← printArms (depth + 1) (k + 1) arms
    let inner ← printBody (depth + 2) (start + 1) fallback
    return lineAt depth header :: (cases ++
      (caseLines (depth + 1) (caseHeader none) inner ++ [lineAt depth "\x7d"]))

/-- The lines of a body whose first event has position `k`. -/
def printBody (depth k : Nat) : List Stmt → Option (List String)
  | [] => some []
  | stmt :: rest => do
    let first ← stmt.print depth k
    let others ← printBody depth (k + stmt.events.length) rest
    return first ++ others

/-- The lines of the keyed cases of a switch whose first event has position `k`. -/
def printArms (depth k : Nat) : List (Int32 × List Stmt) → Option (List String)
  | [] => some []
  | (key, body) :: rest => do
    let finish := k + 1 + (bodyEvents body).length
    let inner ← printBody (depth + 1) (k + 1) body
    let others ← printArms depth (finish + 1) rest
    return caseLines depth (caseHeader (some key)) inner ++ others

end

end print

/-! ### Jumps -/

mutual

/-- Inside the blocks `outer`, innermost first, every jump of a statement lies in the block that it
names, and a jump to the start of a block names a loop. -/
def Stmt.JumpsInside (outer : List Block) : Stmt → Prop
  | .effect _ | .edge _ | .ret _ => True
  | .leave _ label => ∃ b ∈ outer, b.label = label
  | .again _ label => ∃ b ∈ outer, b.label = label ∧ b.isLoop = true
  | .block b body => JumpInside (b :: outer) body
  | .branch _ thenBody elseBody => JumpInside outer thenBody ∧ JumpInside outer elseBody
  | .switch _ arms fallback => ArmsJumpInside outer arms ∧ JumpInside outer fallback

/-- The same for a body. -/
def JumpInside (outer : List Block) : List Stmt → Prop
  | [] => True
  | stmt :: rest => stmt.JumpsInside outer ∧ JumpInside outer rest

/-- The same for the keyed cases of a switch. -/
def ArmsJumpInside (outer : List Block) : List (Int32 × List Stmt) → Prop
  | [] => True
  | (_, body) :: rest => JumpInside outer body ∧ ArmsJumpInside outer rest

end

namespace Source

variable {cx : Context} {s s' : Emitter}

mutual

theorem jumpsInside_of_shaped {outer : List Block} {f : Nat → List Line} :
    ∀ (stmt : Stmt) {k : Nat}, Shaped outer ((stmt.flow k).map f) → stmt.JumpsInside outer
  | .effect _, _, _ | .edge _, _, _ | .ret _, _, _ => trivial
  | .leave _ _, _, h => h.2
  | .again _ _, _, h => h.2
  | .block _ body, _, h => by
    simp only [Stmt.flow, Flow.map, Shaped] at h
    exact jumpInside_of_shaped body h.2.2.1
  | .branch _ thenBody elseBody, _, h => by
    simp only [Stmt.flow, Flow.map, Shaped] at h
    exact ⟨jumpInside_of_shaped thenBody h.2.1, jumpInside_of_shaped elseBody h.2.2.2.1⟩
  | .switch _ arms fallback, _, h => by
    simp only [Stmt.flow, Flow.map, Shaped, Flow.mapArms_append] at h
    obtain ⟨harms, hdefault⟩ := armsJumpInside_of_shaped arms h.2.1
    exact ⟨harms, jumpInside_of_shaped fallback hdefault.2.1⟩

theorem jumpInside_of_shaped {outer : List Block} {f : Nat → List Line} :
    ∀ (body : List Stmt) {k : Nat}, ShapedAll outer (Flow.mapAll f (bodyFlow k body)) →
      JumpInside outer body
  | [], _, _ => trivial
  | stmt :: rest, _, h => by
    simp only [bodyFlow, Flow.mapAll, ShapedAll] at h
    exact ⟨jumpsInside_of_shaped stmt h.1, jumpInside_of_shaped rest h.2⟩

/-- The keyed cases come before the default. -/
theorem armsJumpInside_of_shaped {outer : List Block} {f : Nat → List Line}
    {more : List (List Line × List (Flow (List Line)) × List Line)} :
    ∀ (arms : List (Int32 × List Stmt)) {k : Nat},
    ShapedArms outer (Flow.mapArms f (armFlows k arms) ++ more) →
      ArmsJumpInside outer arms ∧ ShapedArms outer more
  | [], _, h => ⟨trivial, h⟩
  | (_, body) :: rest, _, h => by
    simp only [armFlows, Flow.mapArms, List.cons_append, ShapedArms] at h
    obtain ⟨hrest, hmore⟩ := armsJumpInside_of_shaped rest h.2.2.2
    exact ⟨⟨jumpInside_of_shaped body h.2.1, hrest⟩, hmore⟩

end

/-! ### Labels that are left -/

mutual

/-- A flow leaves the labels that its statement leaves. -/
theorem leaves_flow (label : String) : ∀ (stmt : Stmt) (k : Nat),
    (stmt.flow k).leaves label = true ↔ label ∈ stmt.events.filterMap leftLabel?
  | .effect _, _ | .edge _, _ | .ret _, _ | .again _ _, _ => by
    simp [Stmt.flow, Flow.leaves, Stmt.events, leftLabel?]
  | .leave _ other, _ => by
    simp [Stmt.flow, Flow.leaves, Stmt.events, leftLabel?]
  | .block b body, k => by
    simp only [Stmt.flow, Flow.leaves, Stmt.events, List.filterMap_cons, List.filterMap_append,
      List.filterMap_nil, leftLabel?, List.append_nil]
    exact leavesAny_bodyFlow label body (k + 1)
  | .branch _ thenBody elseBody, k => by
    simp only [Stmt.flow, Flow.leaves, Stmt.events, List.filterMap_cons, List.filterMap_append,
      List.filterMap_nil, leftLabel?, List.append_nil, Bool.or_eq_true, List.mem_append]
    exact or_congr (leavesAny_bodyFlow label thenBody _) (leavesAny_bodyFlow label elseBody _)
  | .switch node arms fallback, k => by
    simp only [Stmt.flow, Flow.leaves, Flow.leavesArms_append, Flow.leavesArms, Stmt.events,
      List.filterMap_cons, List.filterMap_append, List.filterMap_nil, leftLabel?, List.append_nil,
      Bool.or_false, Bool.or_eq_true, List.mem_append]
    exact or_congr (leavesArms_armFlows label node arms _) (leavesAny_bodyFlow label fallback _)

theorem leavesAny_bodyFlow (label : String) : ∀ (body : List Stmt) (k : Nat),
    Flow.leavesAny label (bodyFlow k body) = true ↔ label ∈ leftLabels body
  | [], _ => by simp [bodyFlow, Flow.leavesAny, leftLabels, bodyEvents]
  | stmt :: rest, k => by
    rw [bodyFlow, Flow.leavesAny, Bool.or_eq_true, leftLabels, bodyEvents, List.filterMap_append,
      List.mem_append]
    exact or_congr (leaves_flow label stmt k) (leavesAny_bodyFlow label rest _)

theorem leavesArms_armFlows (label : String) (node : NodeId) :
    ∀ (arms : List (Int32 × List Stmt)) (k : Nat),
    Flow.leavesArms label (armFlows k arms) = true ↔
      label ∈ (armEvents node arms).filterMap leftLabel?
  | [], _ => by simp [armFlows, Flow.leavesArms, armEvents]
  | (_, body) :: rest, k => by
    simp only [armFlows, Flow.leavesArms, armEvents, List.filterMap_cons, List.filterMap_append,
      leftLabel?, Bool.or_eq_true, List.mem_append]
    exact or_congr (leavesAny_bodyFlow label body _) (leavesArms_armFlows label node rest _)

end

/-! ### What an event adds to the skeleton -/

/-- The skeleton of the text written so far. -/
def Emitter.skeleton (s : Emitter) : List String :=
  s.control.map Row.render

/-- The expressions that the operands of a node have if they are evaluated now. -/
def Emitter.operands (cx : Context) (s : Emitter) (id : NodeId) : Option (List Expr) :=
  (Emit.done? ((cx.graph.operands id).mapM (evaluate cx)) s).map fun r => r.1.map Value.expr

theorem Emitter.operands_of_nil {id : NodeId} (h : cx.graph.operands id = []) :
    s.operands cx id = some [] := by
  rw [Emitter.operands, h]
  rfl

theorem Emitter.operands_of_evaluate {id c : NodeId} {v : Value}
    (h : cx.graph.operands id = [c]) (heval : evaluate cx c s = .ok v s') :
    s.operands cx id = some [v.expr] := by
  have hrun : [c].mapM (evaluate cx) s = .ok [v] s' := by
    rw [List.mapM_cons, List.mapM_nil]
    simp only [Emit.bind_ok, Emit.pure_ok]
    exact ⟨v, s', heval, [], s', ⟨rfl, rfl⟩, rfl, rfl⟩
  rw [Emitter.operands, h, Emit.done?_of_ok hrun]
  rfl

/-- The lines that an event adds to the skeleton at a depth, while the constructs `os` are open. -/
def Event.text (depth : Nat) (os : List Open)
    (operands : NodeId → Option (List Expr)) : Event → Option (List String)
  | .effect _ | .edge _ => some []
  | .ret node => (operands node).bind returnText |>.map fun text => [lineAt depth text]
  | .leave _ label => some [lineAt depth ("goto " ++ exitLabel label ++ ";")]
  | .again _ label => some [lineAt depth ("goto " ++ startLabel label ++ ";")]
  | .startBlock b => some [lineAt depth (blockHeader b)]
  | .finishBlock b => some (lineAt (depth - 1) "\x7d" ::
      match os with
      | .block _ true :: _ => [lineAt (depth - 1) (exitLabel b.label ++ ": ;")]
      | _ => [])
  | .startIf node => (operands node).bind (choiceHeader "if") |>.map fun text => [lineAt depth text]
  | .startElse _ => some [lineAt (depth - 1) "\x7d else \x7b"]
  | .finishIf _ => some [lineAt (depth - 1) "\x7d"]
  | .startSwitch node =>
    (operands node).bind (choiceHeader "switch") |>.map fun text => [lineAt depth text]
  | .startCase _ key => some [lineAt depth (caseHeader key)]
  | .finishCase _ => some [lineAt depth "break;", lineAt (depth - 1) "\x7d"]
  | .finishSwitch _ => some (
      (match os with
      | .switch _ false :: _ => caseLines depth (caseHeader none) []
      | _ => []) ++ [lineAt (depth - 1) "\x7d"])

theorem render_openBlock (b : Block) : (Line.openBlock b).render = blockHeader b := by
  obtain ⟨label, isLoop⟩ := b
  cases isLoop <;> rfl

theorem render_openCase (key : Option Int32) : (Line.openCase key).render = caseHeader key := by
  cases key <;> rfl

theorem SameLevel.skeleton (h : SameLevel s s') : s'.skeleton = s.skeleton := by
  rw [Emitter.skeleton, h.control, Emitter.skeleton]

theorem Emitter.skeleton_write (s : Emitter) {l : Line} (hl : l.isStraight = false) :
    (s.write l).skeleton = s.skeleton ++ [lineAt s.indent l.render] := by
  rw [skeleton, control_write, if_neg (by simp [hl]), List.map_append, skeleton]
  rfl

/-- A line that follows straight lines. -/
theorem SameLevel.skeleton_write (h : SameLevel s s') {l : Line} (hl : l.isStraight = false) :
    (s'.write l).skeleton = s.skeleton ++ [lineAt s.indent l.render] := by
  rw [Emitter.skeleton_write _ hl, h.skeleton, h.indent]

theorem Emitter.skeleton_closeScope (s : Emitter) : s.closeScope.skeleton = s.skeleton := by
  unfold closeScope
  split <;> rfl

theorem Emitter.skeleton_closed (s : Emitter) (os : List Open) :
    (s.closed os).skeleton = s.skeleton ++ [lineAt (s.indent - 1) "\x7d"] := by
  rw [closed, skeleton_write _ rfl, skeleton_closeScope, indent_closeScope]
  rfl

theorem Emitter.skeleton_writeDefault (s : Emitter) :
    (writeDefault s).skeleton = s.skeleton ++ caseLines s.indent (caseHeader none) [] := by
  have hopen : (s.write (.openCase none)).skeleton =
      s.skeleton ++ [lineAt s.indent (caseHeader none)] := s.skeleton_write rfl
  have hend : ({ s.write (.openCase none) with indent := s.indent + 1 }.write .endCase).skeleton =
      (s.write (.openCase none)).skeleton ++ [lineAt (s.indent + 1) "break;"] :=
    Emitter.skeleton_write _ rfl
  have hclose : (writeDefault s).skeleton =
      ({ s.write (.openCase none) with indent := s.indent + 1 }.write .endCase).skeleton ++
        [lineAt s.indent "\x7d"] := Emitter.skeleton_write _ rfl
  rw [hclose, hend, hopen]
  simp [caseLines]

theorem skeleton_startIf {id : NodeId} (h : startIf cx id s = .ok () s') :
    ∃ new, Event.text s.indent s.opened (s.operands cx) (.startIf id) = some new ∧
      s'.skeleton = s.skeleton ++ new := by
  simp only [startIf, Emit.bind_ok, Emit.lift_ok, emitLine, Emit.modify_ok] at h
  obtain ⟨c, _, ⟨hops, rfl⟩, v, s₁, heval, _, s₂, hhoist, _, _, rfl, rfl⟩ := h
  have hlevel := (evaluates_of_ok heval).sameLevel.trans (hoists_of_ok hhoist).sameLevel
  refine ⟨_, ?_, hlevel.skeleton_write (l := .openIf v.expr) rfl⟩
  rw [Event.text, Emitter.operands_of_evaluate (choiceOperand_ok hops) heval]
  rfl

theorem skeleton_startSwitch {id : NodeId} (h : startSwitch cx id s = .ok () s') :
    ∃ new, Event.text s.indent s.opened (s.operands cx) (.startSwitch id) = some new ∧
      s'.skeleton = s.skeleton ++ new := by
  simp only [startSwitch, Emit.bind_ok, Emit.lift_ok, emitLine, Emit.modify_ok] at h
  obtain ⟨c, _, ⟨hops, rfl⟩, v, s₁, heval, _, s₂, hhoist, _, _, rfl, rfl⟩ := h
  have hlevel := (evaluates_of_ok heval).sameLevel.trans (hoists_of_ok hhoist).sameLevel
  refine ⟨_, ?_, hlevel.skeleton_write (l := .openSwitch v.expr) rfl⟩
  rw [Event.text, Emitter.operands_of_evaluate (choiceOperand_ok hops) heval]
  rfl

theorem skeleton_writeReturn {id : NodeId} (h : writeReturn cx id s = .ok () s') :
    ∃ new, Event.text s.indent s.opened (s.operands cx) (.ret id) = some new ∧
      s'.skeleton = s.skeleton ++ new := by
  simp only [writeReturn, Emit.bind_ok, Emit.lift_ok, node_ok] at h
  obtain ⟨node, _, ⟨hnode, rfl⟩, h⟩ := h
  have hops := operands_of_get? hnode
  cases hkind : node.kind with
  | ret =>
    simp only [hkind] at h
    rcases hn : node.operands with _ | ⟨value, _ | ⟨_, _⟩⟩
    · simp only [hn, emitLine, Emit.modify_ok] at h
      refine ⟨_, ?_, h ▸ s.skeleton_write (l := .ret none) rfl⟩
      rw [Event.text, Emitter.operands_of_nil (hops.trans hn)]
      rfl
    · simp only [hn, Emit.bind_ok, emitLine, Emit.modify_ok] at h
      obtain ⟨v, s₁, heval, rfl⟩ := h
      refine ⟨_, ?_, (evaluates_of_ok heval).sameLevel.skeleton_write (l := .ret (some v.expr)) rfl⟩
      rw [Event.text, Emitter.operands_of_evaluate (hops.trans hn) heval]
      rfl
    · simp [hn] at h
  | _ => simp [hkind] at h

theorem skeleton_writeEffect {id : NodeId} (h : writeEffect cx id s = .ok () s') :
    s'.skeleton = s.skeleton := by
  cases emitted_effect h with
  | effectKnown => rfl
  | effectVoid _ _ _ heval => exact (heval.sameLevel.write rfl).skeleton
  | effectKept _ _ _ heval => exact heval.sameLevel.skeleton
  | effectFresh _ _ _ heval => exact (heval.sameLevel.materialize ..).skeleton

theorem skeleton_finishBlock {b : Block} (h : finishBlock b s = .ok () s') :
    ∃ new, Event.text s.indent s.opened (s.operands cx) (.finishBlock b) = some new ∧
      s'.skeleton = s.skeleton ++ new := by
  have hemitted : Emitted cx (.finishBlock b) s s' := emitted_finishBlock h
  cases hemitted with
  | @finishBlock _ b' used os _ hopened _ =>
    refine ⟨_, rfl, ?_⟩
    rw [hopened]
    cases used with
    | false => exact s.skeleton_closed os
    | true =>
      have hindent : (s.closed os).indent = s.indent - 1 := Emitter.indent_closeScope _
      rw [if_pos rfl, Emitter.skeleton_write _ rfl, s.skeleton_closed, hindent]
      simp [Line.render]

theorem skeleton_startElse {id : NodeId} (h : startElse id s = .ok () s') :
    ∃ new, Event.text s.indent s.opened (s.operands cx) (.startElse id) = some new ∧
      s'.skeleton = s.skeleton ++ new := by
  have hemitted : Emitted cx (.startElse id) s s' := emitted_startElse h
  cases hemitted with
  | @startElse _ os _ _ =>
    have hclose := Emitter.skeleton_write { s with opened := .branch id true :: os }.closeScope
      (l := .otherwise) rfl
    rw [Emitter.skeleton_closeScope, Emitter.indent_closeScope] at hclose
    exact ⟨_, rfl, hclose⟩

theorem skeleton_finishCase {id : NodeId} (h : finishCase id s = .ok () s') :
    ∃ new, Event.text s.indent s.opened (s.operands cx) (.finishCase id) = some new ∧
      s'.skeleton = s.skeleton ++ new := by
  have hemitted : Emitted cx (.finishCase id) s s' := emitted_finishCase h
  cases hemitted with
  | finishCase _ =>
    refine ⟨_, rfl, ?_⟩
    rw [Emitter.skeleton_closed, Emitter.skeleton_write s rfl, List.append_assoc]
    rfl

theorem skeleton_finishSwitch {id : NodeId} (h : finishSwitch id s = .ok () s') :
    ∃ new, Event.text s.indent s.opened (s.operands cx) (.finishSwitch id) = some new ∧
      s'.skeleton = s.skeleton ++ new := by
  have hemitted : Emitted cx (.finishSwitch id) s s' := emitted_finishSwitch h
  cases hemitted with
  | @finishSwitch _ hasDefault os _ s₁ hopened hdefault =>
    subst hdefault
    refine ⟨_, rfl, ?_⟩
    rw [hopened, Emitter.skeleton_write _ rfl]
    cases hasDefault with
    | true => rfl
    | false =>
      rw [if_neg Bool.false_ne_true, Emitter.indent_writeDefault, ← List.append_assoc,
        ← Emitter.skeleton_writeDefault]
      rfl

/-- The skeleton after an event that succeeds. -/
theorem skeleton_of_emitEvent {e : Event} (h : emitEvent cx e s = .ok () s') :
    ∃ new, Event.text s.indent s.opened (s.operands cx) e = some new ∧
      s'.skeleton = s.skeleton ++ new := by
  cases e with
  | startIf id => exact skeleton_startIf h
  | startSwitch id => exact skeleton_startSwitch h
  | ret id => exact skeleton_writeReturn h
  | finishBlock b => exact skeleton_finishBlock h
  | startElse id => exact skeleton_startElse h
  | finishCase id => exact skeleton_finishCase h
  | finishSwitch id => exact skeleton_finishSwitch h
  | effect id => exact ⟨[], rfl, by rw [skeleton_writeEffect h, List.append_nil]⟩
  | edge source =>
    cases emitted_of_ok h with
    | edge hassign => exact ⟨[], rfl, by rw [hassign.sameLevel.skeleton, List.append_nil]⟩
  | startBlock b =>
    cases emitted_of_ok h with
    | startBlock _ hhoist =>
      refine ⟨_, rfl, ?_⟩
      rw [← render_openBlock]
      exact hhoist.sameLevel.skeleton_write (l := .openBlock b) rfl
  | finishIf id =>
    cases emitted_of_ok h
    exact ⟨_, rfl, s.skeleton_closed _⟩
  | startCase id key =>
    cases emitted_of_ok h
    refine ⟨_, rfl, ?_⟩
    rw [← render_openCase]
    exact s.skeleton_write (l := .openCase key) rfl
  | leave source label =>
    cases emitted_of_ok h with
    | leave _ hassign => exact ⟨_, rfl, hassign.sameLevel.skeleton_write rfl⟩
  | again source label =>
    cases emitted_of_ok h with
    | again _ _ hassign => exact ⟨_, rfl, hassign.sameLevel.skeleton_write rfl⟩

/-! ### The skeleton of a body -/

/-- The operands of a node as they are spelled where the event at a position stands. -/
def Context.operandsAt (cx : Context) (k : Nat) (id : NodeId) : Option (List Expr) :=
  (cx.emitterAt k).operands cx id

/-- The number of constructs that are open at a position. -/
def Context.depthAt (cx : Context) (k : Nat) : Nat :=
  (cx.emitterAt k).opened.length

/-- The events between two positions add some lines to the skeleton. -/
def Context.Gains (cx : Context) (k k' : Nat) (new : List String) : Prop :=
  (cx.emitterAt k').skeleton = (cx.emitterAt k).skeleton ++ new

theorem Context.Gains.nil (k : Nat) : cx.Gains k k [] := by
  rw [Context.Gains, List.append_nil]

theorem Context.Gains.trans {k k₁ k' : Nat} {new new' : List String} (h : cx.Gains k k₁ new)
    (h' : cx.Gains k₁ k' new') : cx.Gains k k' (new ++ new') := by
  rw [Context.Gains, h', h, List.append_assoc]

/-- The number of open constructs after an event. -/
def Event.depthAfter (depth : Nat) : Event → Nat
  | .startBlock _ | .startIf _ | .startSwitch _ | .startCase _ _ => depth + 1
  | .finishBlock _ | .finishIf _ | .finishSwitch _ | .finishCase _ => depth - 1
  | _ => depth

section positions

variable (h : Reached cx (bodyEvents cx.method.body) [] s)

include h

/-- The event at a position runs between the emitters of two positions. -/
theorem Reached.emitEvent_at {k : Nat} {e : Event} {es : List Event}
    (hstands : cx.Stands k (e :: es)) :
    emitEvent cx e (cx.emitterAt k) = .ok () (cx.emitterAt (k + 1)) := by
  obtain ⟨done, rest, rfl, hevents⟩ := hstands
  have hnow : Reached cx done (e :: (es ++ rest)) (cx.emitterAt done.length) := h.at hevents
  have hnext : Reached cx (done ++ [e]) (es ++ rest) (cx.emitterAt (done ++ [e]).length) :=
    h.at (by simpa using hevents)
  rw [List.length_append, List.length_singleton] at hnext
  have hrun := hnext.run
  rw [List.forM_eq_forM, List.forM_append, Emit.bind_ok] at hrun
  obtain ⟨_, s₁, hdone, hlast⟩ := hrun
  rw [← List.forM_eq_forM] at hdone hlast
  obtain ⟨s₂, hevent, hnil⟩ := forM_cons_ok.1 hlast
  obtain rfl := forM_nil_ok.1 hnil
  cases hdone.symm.trans hnow.run
  exact hevent

theorem Reached.leveled_at {k : Nat} {es : List Event} (hstands : cx.Stands k es) :
    Leveled (cx.emitterAt k) := by
  obtain ⟨done, rest, rfl, hevents⟩ := hstands
  exact (h.at hevents).leveled

/-- What the event at a position adds to the skeleton. -/
theorem Reached.gains {k : Nat} {e : Event} {es : List Event} (hstands : cx.Stands k (e :: es)) :
    ∃ new, Event.text (cx.depthAt k) (cx.emitterAt k).opened (cx.operandsAt k) e = some new ∧
      cx.Gains k (k + 1) new := by
  rw [Context.depthAt, ← (h.leveled_at hstands).indent_eq]
  exact skeleton_of_emitEvent (h.emitEvent_at hstands)

theorem Reached.depthAt_succ {k : Nat} {e : Event} {es : List Event}
    (hstands : cx.Stands k (e :: es)) : cx.depthAt (k + 1) = Event.depthAfter (cx.depthAt k) e := by
  have hopened := (h.step_at hstands).1.frames.opened
  simp only [Context.depthAt]
  generalize (cx.emitterAt k).opened = os at hopened ⊢
  generalize (cx.emitterAt (k + 1)).opened = os' at hopened ⊢
  cases hopened with
  | @leave _ label _ =>
    have hlength := congrArg List.length (map_isSwitch_markExit label os)
    rwa [List.length_map, List.length_map] at hlength
  | _ => rfl

theorem Reached.depthAt_stmt {k : Nat} {stmt : Stmt} (hstands : cx.Stands k stmt.events) :
    cx.depthAt (k + stmt.events.length) = cx.depthAt k := by
  rw [Context.depthAt, (shaped_stmt h stmt hstands).2, List.length_map, Context.depthAt]

theorem Reached.depthAt_body {k : Nat} {body : List Stmt}
    (hstands : cx.Stands k (bodyEvents body)) :
    cx.depthAt (k + (bodyEvents body).length) = cx.depthAt k := by
  rw [Context.depthAt, (shaped_body h body hstands).2, List.length_map, Context.depthAt]

/-- The place after a block is marked if the body of the block leaves it. -/
theorem Reached.text_finishBlock {k : Nat} {b : Block} {body : List Stmt}
    (hstands : cx.Stands k (Stmt.block b body).events) (depth : Nat)
    (operands : NodeId → Option (List Expr)) :
    Event.text (depth + 1) (cx.emitterAt (k + 1 + (bodyEvents body).length)).opened operands
        (.finishBlock b) =
      some (lineAt depth "\x7d" ::
        if b.label ∈ leftLabels body then [lineAt depth (exitLabel b.label ++ ": ;")] else []) := by
  have hopened : (cx.emitterAt (k + 1)).opened = .block b false :: (cx.emitterAt k).opened :=
    (h.step_at hstands).1.frames.opened.opens
  have hbody := (shaped_body h body hstands.tail.left).2
  have hleft := leavesAny_bodyFlow b.label body (k + 1)
  rw [hbody, hopened, List.map_cons, Open.mark, Bool.false_or]
  by_cases hmem : b.label ∈ leftLabels body
  · rw [hleft.2 hmem, if_pos hmem]
    rfl
  · rw [Bool.eq_false_iff.2 fun hused => hmem (hleft.1 hused), if_neg hmem]
    rfl

/-- A case whose body adds its print to the skeleton. -/
theorem Reached.gains_case {k : Nat} {node : NodeId} {key : Option Int32} {body : List Stmt}
    {es : List Event}
    (hstands : cx.Stands k (.startCase node key :: (bodyEvents body ++ .finishCase node :: es)))
    (hbody : ∃ inner, printBody cx.operandsAt (cx.depthAt (k + 1)) (k + 1) body = some inner ∧
      cx.Gains (k + 1) (k + 1 + (bodyEvents body).length) inner) :
    ∃ inner, printBody cx.operandsAt (cx.depthAt k + 1) (k + 1) body = some inner ∧
      cx.Gains k (k + 1 + (bodyEvents body).length + 1)
        (caseLines (cx.depthAt k) (caseHeader key) inner) ∧
      cx.depthAt (k + 1 + (bodyEvents body).length + 1) = cx.depthAt k := by
  have hinner := hstands.tail
  have hdepth₁ : cx.depthAt (k + 1) = cx.depthAt k + 1 := h.depthAt_succ hstands
  have hdepth₂ := (h.depthAt_body hinner.left).trans hdepth₁
  have hdepth₃ := h.depthAt_succ hinner.right
  obtain ⟨start, hstart, hgains₁⟩ := h.gains hstands
  obtain ⟨inner, hprint, hgains₂⟩ := hbody
  obtain ⟨finish, hfinish, hgains₃⟩ := h.gains hinner.right
  rw [hdepth₁] at hprint
  rw [hdepth₂] at hdepth₃ hfinish
  obtain rfl := Option.some.inj hstart
  obtain rfl := Option.some.inj hfinish
  refine ⟨inner, hprint, ?_, hdepth₃⟩
  have hgains := (hgains₁.trans hgains₂).trans hgains₃
  simpa [caseLines] using hgains

/-- After its default case a switch only has to be closed. -/
theorem Reached.text_finishSwitch {k : Nat} {node : NodeId} {body : List Stmt}
    (hstands : cx.Stands k
      (.startCase node none :: (bodyEvents body ++ [.finishCase node, .finishSwitch node])))
    (depth : Nat) (operands : NodeId → Option (List Expr)) :
    Event.text (depth + 1) (cx.emitterAt (k + 1 + (bodyEvents body).length + 1)).opened operands
      (.finishSwitch node) = some [lineAt depth "\x7d"] := by
  obtain ⟨_, _, hswitch, -⟩ := (h.step_at hstands).1.frames.opened.opens
  obtain ⟨-, -, -, hopened⟩ := laidOut_case h (shaped_body h body) hstands hswitch
  rw [hopened, Option.isNone_none, Bool.or_true]
  rfl

end positions

mutual

/-- A statement adds its print to the skeleton. -/
theorem print_stmt (h : Reached cx (bodyEvents cx.method.body) [] s) : ∀ (stmt : Stmt) {k : Nat},
    cx.Stands k stmt.events →
    ∃ new, stmt.print cx.operandsAt (cx.depthAt k) k = some new ∧
      cx.Gains k (k + stmt.events.length) new
  | .effect _, k, hstands | .edge _, k, hstands | .leave _ _, k, hstands | .again _ _, k, hstands =>
    h.gains hstands
  | .ret node, k, hstands => by
    obtain ⟨new, htext, hgains⟩ := h.gains hstands
    refine ⟨new, ?_, hgains⟩
    rw [Stmt.print, ← htext, Event.text, Option.map_eq_bind]
    rfl
  | .block b body, k, hstands => by
    have hinner := hstands.tail
    have hdepth₁ : cx.depthAt (k + 1) = cx.depthAt k + 1 := h.depthAt_succ hstands
    have hdepth₂ := (h.depthAt_body hinner.left).trans hdepth₁
    obtain ⟨header, hheader, hgains₁⟩ := h.gains hstands
    obtain ⟨inner, hprint, hgains₂⟩ := print_body h body hinner.left
    obtain ⟨exit, hexit, hgains₃⟩ := h.gains hinner.right
    rw [hdepth₁] at hprint
    rw [hdepth₂, h.text_finishBlock hstands] at hexit
    obtain rfl := Option.some.inj hheader
    obtain rfl := Option.some.inj hexit
    refine ⟨lineAt (cx.depthAt k) (blockHeader b) :: (inner ++ lineAt (cx.depthAt k) "\x7d" ::
      if b.label ∈ leftLabels body then [lineAt (cx.depthAt k) (exitLabel b.label ++ ": ;")]
        else []), ?_, ?_⟩
    · rw [Stmt.print, hprint]
      rfl
    · have hend : k + (Stmt.block b body).events.length = k + 1 + (bodyEvents body).length + 1 := by
        simp only [Stmt.events, List.length_cons, List.length_append, List.length_nil]
        omega
      have hgains := (hgains₁.trans hgains₂).trans hgains₃
      rw [hend]
      simpa using hgains
  | .branch node thenBody elseBody, k, hstands => by
    have hthen := hstands.tail
    have helse := hthen.right.tail
    -- both parts and their ends stand one level deeper
    have hdepth₁ : cx.depthAt (k + 1) = cx.depthAt k + 1 := h.depthAt_succ hstands
    have hdepth₂ := (h.depthAt_body hthen.left).trans hdepth₁
    have hdepth₃ := (h.depthAt_succ hthen.right).trans hdepth₂
    have hdepth₄ := (h.depthAt_body helse.left).trans hdepth₃
    obtain ⟨header, hheader, hgains₁⟩ := h.gains hstands
    obtain ⟨thenLines, hthenPrint, hgains₂⟩ := print_body h thenBody hthen.left
    obtain ⟨other, hother, hgains₃⟩ := h.gains hthen.right
    obtain ⟨elseLines, helsePrint, hgains₄⟩ := print_body h elseBody helse.left
    obtain ⟨exit, hexit, hgains₅⟩ := h.gains helse.right
    rw [hdepth₁] at hthenPrint
    rw [hdepth₂] at hother
    rw [hdepth₃] at helsePrint
    rw [hdepth₄] at hexit
    obtain ⟨text, htext, rfl⟩ := Option.map_eq_some_iff.1 hheader
    obtain rfl := Option.some.inj hother
    obtain rfl := Option.some.inj hexit
    refine ⟨lineAt (cx.depthAt k) text :: (thenLines ++ lineAt (cx.depthAt k) "\x7d else \x7b" ::
      (elseLines ++ [lineAt (cx.depthAt k) "\x7d"])), ?_, ?_⟩
    · simp only [Stmt.print, htext, hthenPrint, helsePrint]
      rfl
    · have hend : k + (Stmt.branch node thenBody elseBody).events.length =
          k + 1 + (bodyEvents thenBody).length + 1 + (bodyEvents elseBody).length + 1 := by
        simp only [Stmt.events, List.length_cons, List.length_append, List.length_nil]
        omega
      have hgains := (((hgains₁.trans hgains₂).trans hgains₃).trans hgains₄).trans hgains₅
      rw [hend]
      simpa using hgains
  | .switch node arms fallback, k, hstands => by
    have hcases := hstands.tail
    have hdefault := hcases.right.tail
    have hdepth₁ : cx.depthAt (k + 1) = cx.depthAt k + 1 := h.depthAt_succ hstands
    obtain ⟨header, hheader, hgains₁⟩ := h.gains hstands
    obtain ⟨cases, hcasesPrint, hgains₂, hdepth₂⟩ := print_arms h node arms hcases.left
    obtain ⟨inner, hprint, hgains₃, hdepth₃⟩ := h.gains_case hcases.right
      (print_body h fallback hdefault.left)
    obtain ⟨exit, hexit, hgains₄⟩ := h.gains hdefault.right.tail
    rw [hdepth₁] at hcasesPrint hdepth₂
    rw [hdepth₂] at hprint hgains₃ hdepth₃
    rw [hdepth₃, h.text_finishSwitch hcases.right] at hexit
    obtain ⟨text, htext, rfl⟩ := Option.map_eq_some_iff.1 hheader
    obtain rfl := Option.some.inj hexit
    refine ⟨lineAt (cx.depthAt k) text :: (cases ++ (caseLines (cx.depthAt k + 1) (caseHeader none)
      inner ++ [lineAt (cx.depthAt k) "\x7d"])), ?_, ?_⟩
    · simp only [Stmt.print, htext, hcasesPrint, hprint]
      rfl
    · have hend : k + (Stmt.switch node arms fallback).events.length =
          k + 1 + (armEvents node arms).length + 1 + (bodyEvents fallback).length + 1 + 1 := by
        simp only [Stmt.events, List.length_cons, List.length_append, List.length_nil]
        omega
      have hgains := ((hgains₁.trans hgains₂).trans hgains₃).trans hgains₄
      rw [hend]
      simpa using hgains

theorem print_body (h : Reached cx (bodyEvents cx.method.body) [] s) :
    ∀ (body : List Stmt) {k : Nat}, cx.Stands k (bodyEvents body) →
    ∃ new, printBody cx.operandsAt (cx.depthAt k) k body = some new ∧
      cx.Gains k (k + (bodyEvents body).length) new
  | [], k, _ => ⟨[], rfl, .nil k⟩
  | stmt :: rest, k, hstands => by
    rw [bodyEvents] at hstands
    obtain ⟨first, hfirst, hgains₁⟩ := print_stmt h stmt hstands.left
    obtain ⟨others, hothers, hgains₂⟩ := print_body h rest hstands.right
    rw [h.depthAt_stmt hstands.left] at hothers
    refine ⟨first ++ others, ?_, ?_⟩
    · rw [printBody, hfirst, Option.bind_eq_bind, Option.bind_some, hothers]
      rfl
    · rw [bodyEvents, List.length_append, ← Nat.add_assoc]
      exact hgains₁.trans hgains₂

theorem print_arms (h : Reached cx (bodyEvents cx.method.body) [] s) (node : NodeId) :
    ∀ (arms : List (Int32 × List Stmt)) {k : Nat}, cx.Stands k (armEvents node arms) →
    ∃ new, printArms cx.operandsAt (cx.depthAt k) k arms = some new ∧
      cx.Gains k (k + (armEvents node arms).length) new ∧
      cx.depthAt (k + (armEvents node arms).length) = cx.depthAt k
  | [], k, _ => ⟨[], rfl, .nil k, rfl⟩
  | (key, body) :: arms, k, hstands => by
    obtain ⟨inner, hprint, hgains₁, hdepth₁⟩ := h.gains_case hstands
      (print_body h body hstands.tail.left)
    obtain ⟨others, hothers, hgains₂, hdepth₂⟩ := print_arms h node arms hstands.tail.right.tail
    rw [hdepth₁] at hothers hdepth₂
    have hend : k + (armEvents node ((key, body) :: arms)).length =
        k + 1 + (bodyEvents body).length + 1 + (armEvents node arms).length := by
      simp only [armEvents, List.length_cons, List.length_append]
      omega
    refine ⟨caseLines (cx.depthAt k) (caseHeader (some key)) inner ++ others, ?_, ?_, ?_⟩
    · simp only [printArms, hprint, hothers]
      rfl
    · rw [hend]
      exact hgains₁.trans hgains₂
    · rw [hend, hdepth₂]

end

theorem skeleton_start : (Emitter.start cx).skeleton = [] := by
  have hrows : (Emitter.start cx).rows = [] := List.map_eq_nil_iff.1 (Emitter.lines_start cx)
  rw [Emitter.skeleton, Emitter.control, hrows, List.filter_nil, List.map_nil]

/-- What is left of an emitted text without its straight lines is the print of the body, and the
jumps of the body lie in the blocks that they name; no two blocks have one label. -/
theorem control_lines_eq_print {out : List String × String} (h : emitBody cx = .ok out) :
    ∃ s, Reached cx (bodyEvents cx.method.body) [] s ∧
      out.2 = String.join (s.rows.map Row.render) ∧
      printBody cx.operandsAt 0 0 cx.method.body =
        some ((s.rows.filter (!·.line.isStraight)).map Row.render) ∧
      JumpInside [] cx.method.body ∧ (blockLabels cx.method.body).Nodup := by
  obtain ⟨s, hs, hfinish⟩ := reached_of_emitBody h
  obtain ⟨-, htext⟩ := finish_ok hfinish
  have hstands : cx.Stands 0 (bodyEvents cx.method.body) := ⟨[], [], rfl, by simp⟩
  have hstart : cx.emitterAt 0 = Emitter.start cx := rfl
  obtain ⟨new, hprint, hgains⟩ := print_body hs cx.method.body hstands
  refine ⟨s, hs, htext, ?_, jumpInside_of_shaped _ (shaped_code hs), ?_⟩
  · rw [Context.depthAt, hstart, Emitter.opened_start, List.length_nil] at hprint
    rw [Context.Gains, hstart, skeleton_start, List.nil_append, Nat.zero_add,
      hs.emitterAt_eq] at hgains
    rw [hprint, ← hgains]
    rfl
  · obtain ⟨hlabels, hnodup⟩ := hs.labels
    rw [hlabels] at hnodup
    exact List.nodup_reverse.1 hnodup

/-- A loop with a switch in it. One case starts the loop again, one leaves it from a branch, and the
default leaves it too; a value is loaded, kept and stored on the way. -/
def loopWithSwitch : Context where
  cls := { name := ⟨"Kernel"⟩ }
  method :=
    { name := "run"
      params := [⟨"n", .int⟩, ⟨"xs", .array .int⟩]
      graph := ⟨#[.param 0 .int, .param 1 (.array .int), ⟨.arrayLoad, .int, [1, 0]⟩,
        .arrayStore 1 0 2, .compare .lt 0 2, .branch 4, ⟨.switch .lookup, .void, [2]⟩,
        .marker .goto, ⟨.ret, .void, []⟩]⟩
      body := [
        .block ⟨"L", true⟩ [
          .effect 2,
          .switch 6 [
            (1, [.effect 3, .again 7 "L"]),
            (2, [.branch 5 [.leave 7 "L"] []])] [.leave 7 "L"]],
        .ret 8] }

theorem control_lines_eq_print_loopWithSwitch :
    ∃ out s, emitBody loopWithSwitch = .ok out ∧
      Reached loopWithSwitch (bodyEvents loopWithSwitch.method.body) [] s ∧
      out.2 = String.join (s.rows.map Row.render) ∧
      printBody loopWithSwitch.operandsAt 0 0 loopWithSwitch.method.body = some ([
        ⟨0, .openBlock ⟨"L", true⟩⟩, ⟨1, .openSwitch (.temp ⟨.var, 0⟩)⟩,
        ⟨2, .openCase (some 1)⟩, ⟨3, .gotoStart "L"⟩, ⟨3, .endCase⟩, ⟨2, .close⟩,
        ⟨2, .openCase (some 2)⟩, ⟨3, .openIf (.compare .lt (.name "n") (.temp ⟨.var, 0⟩))⟩,
        ⟨4, .gotoExit "L"⟩, ⟨3, .otherwise⟩, ⟨3, .close⟩, ⟨3, .endCase⟩, ⟨2, .close⟩,
        ⟨2, .openCase none⟩, ⟨3, .gotoExit "L"⟩, ⟨3, .endCase⟩, ⟨2, .close⟩,
        ⟨1, .close⟩, ⟨0, .close⟩, ⟨0, .exitMark "L"⟩, ⟨0, .ret none⟩].map Row.render) := by
  obtain ⟨out, hout⟩ : ∃ out, emitBody loopWithSwitch = .ok out := exists_emitBody (by cbv)
  obtain ⟨s, hs, htext, hprint, -⟩ := control_lines_eq_print hout
  refine ⟨out, s, hout, hs, htext, hprint.trans ?_⟩
  congr 2
  exact eq_of_reached (f := Emitter.control) hs (by cbv)

end Source

end KernelForge
