import KernelForge.Proofs.Levels

/-!
# Closing what was opened

A walk through a body is always in some parts of constructs: inside a block, in one of the two
parts of a branch, in a switch, in one of its cases. `InPlace` says which events are in their place
there, and the events of a body all are, one after the other, whatever is open around them
(`nests_body`).

The emitter remembers the same parts (`Emitter.parts`). An event that is in its place can fail for
many reasons, but not because of the nesting (`harmless_emitEvent`); so a replay never stops with
one of these causes, and when it has reached its end, everything is closed.
-/

namespace KernelForge

/-- A part of a construct that a walk is in. -/
inductive Part
  | block (label : String)
  | thenPart (node : NodeId)
  | elsePart (node : NodeId)
  | switch (node : NodeId)
  | case (node : NodeId)
deriving DecidableEq

/-- An event in its place, and how it changes the open parts, innermost first. -/
inductive InPlace : Event → List Part → List Part → Prop
  | startBlock {b : Block} {ps : List Part} : InPlace (.startBlock b) ps (.block b.label :: ps)
  | finishBlock {b : Block} {ps : List Part} : InPlace (.finishBlock b) (.block b.label :: ps) ps
  | startIf {node : NodeId} {ps : List Part} : InPlace (.startIf node) ps (.thenPart node :: ps)
  | startElse {node : NodeId} {ps : List Part} :
      InPlace (.startElse node) (.thenPart node :: ps) (.elsePart node :: ps)
  | finishIf {node : NodeId} {ps : List Part} : InPlace (.finishIf node) (.elsePart node :: ps) ps
  | startSwitch {node : NodeId} {ps : List Part} :
      InPlace (.startSwitch node) ps (.switch node :: ps)
  | startCase {node : NodeId} {key : Option Int32} {ps : List Part} :
      InPlace (.startCase node key) (.switch node :: ps) (.case node :: .switch node :: ps)
  | finishCase {node : NodeId} {ps : List Part} : InPlace (.finishCase node) (.case node :: ps) ps
  | finishSwitch {node : NodeId} {ps : List Part} :
      InPlace (.finishSwitch node) (.switch node :: ps) ps
  | effect {node : NodeId} {ps : List Part} : InPlace (.effect node) ps ps
  | ret {node : NodeId} {ps : List Part} : InPlace (.ret node) ps ps
  | leave {source : NodeId} {label : String} {ps : List Part} : InPlace (.leave source label) ps ps
  | again {source : NodeId} {label : String} {ps : List Part} : InPlace (.again source label) ps ps
  | edge {source : NodeId} {ps : List Part} : InPlace (.edge source) ps ps

/-- Events that are in their places one after the other. -/
inductive Nests : List Event → List Part → List Part → Prop
  | nil {ps : List Part} : Nests [] ps ps
  | cons {e : Event} {es : List Event} {ps ps₁ ps' : List Part} (h : InPlace e ps ps₁)
      (hrest : Nests es ps₁ ps') : Nests (e :: es) ps ps'

theorem Nests.append {es es' : List Event} {ps ps₁ ps' : List Part} (h : Nests es ps ps₁)
    (h' : Nests es' ps₁ ps') : Nests (es ++ es') ps ps' := by
  induction h with
  | nil => exact h'
  | cons hplace _ ih => exact .cons hplace (ih h')

mutual

/-- The events of a statement are in their places and leave the open parts as they were. -/
theorem nests_stmt (ps : List Part) : ∀ stmt : Stmt, Nests stmt.events ps ps
  | .effect _ => .cons .effect .nil
  | .ret _ => .cons .ret .nil
  | .leave _ _ => .cons .leave .nil
  | .again _ _ => .cons .again .nil
  | .edge _ => .cons .edge .nil
  | .block b body => by
    rw [Stmt.events]
    apply Nests.cons .startBlock
    apply (nests_body (.block b.label :: ps) body).append
    exact .cons .finishBlock .nil
  | .branch node thenBody elseBody => by
    rw [Stmt.events]
    apply Nests.cons .startIf
    apply (nests_body (.thenPart node :: ps) thenBody).append
    apply Nests.cons .startElse
    apply (nests_body (.elsePart node :: ps) elseBody).append
    exact .cons .finishIf .nil
  | .switch node arms fallback => by
    rw [Stmt.events]
    apply Nests.cons .startSwitch
    apply (nests_arms node ps arms).append
    apply Nests.cons .startCase
    apply (nests_body (.case node :: .switch node :: ps) fallback).append
    exact .cons .finishCase (.cons .finishSwitch .nil)

theorem nests_body (ps : List Part) : ∀ body : List Stmt, Nests (bodyEvents body) ps ps
  | [] => .nil
  | stmt :: body => by
    rw [bodyEvents]
    exact (nests_stmt ps stmt).append (nests_body ps body)

theorem nests_arms (node : NodeId) (ps : List Part) : ∀ arms : List (Int32 × List Stmt),
    Nests (armEvents node arms) (.switch node :: ps) (.switch node :: ps)
  | [] => .nil
  | (key, body) :: arms => by
    rw [armEvents]
    apply Nests.cons .startCase
    apply (nests_body (.case node :: .switch node :: ps) body).append
    exact .cons .finishCase (nests_arms node ps arms)

end

namespace Source

variable {cx : Context} {s s' : Emitter}

/-! ### Failures that are not about nesting -/

/-- The causes that say that constructs are not nested. -/
def Error.isNesting : Error → Bool
  | .misclosed _ _ | .misplacedElse _ _ | .misplacedCase _ _ | .unfinished _ _ => true
  | _ => false

/-- A check that does not fail because of the nesting of constructs. -/
def HarmlessCheck {α : Type} (x : Except Error α) : Prop :=
  ∀ e, x = .error e → e.isNesting = false

namespace HarmlessCheck

variable {α β : Type}

theorem ok {a : α} : HarmlessCheck (.ok a) := by
  intro e h
  cases h

theorem error {e : Error} (he : e.isNesting = false) :
    HarmlessCheck (.error e : Except Error α) := by
  intro e' h
  cases h
  exact he

theorem bind {x : Except Error α} {f : α → Except Error β} (hx : HarmlessCheck x)
    (hf : ∀ a, HarmlessCheck (f a)) : HarmlessCheck (x >>= f) := by
  cases x with
  | error e => exact .error (hx e rfl)
  | ok a => exact hf a

theorem map {x : Except Error α} {f : α → β} (hx : HarmlessCheck x) :
    HarmlessCheck (x.map f) := by
  cases x with
  | error e => exact .error (hx e rfl)
  | ok a => exact .ok

theorem mapM {f : α → Except Error β} (hf : ∀ a, HarmlessCheck (f a)) :
    ∀ as : List α, HarmlessCheck (as.mapM f)
  | [] => .ok
  | a :: as => by
    rw [List.mapM_cons]
    apply bind (hf a)
    intro b
    exact bind (mapM hf as) fun _ => .ok

end HarmlessCheck

/-- A step that ended so did not fail because of the nesting of constructs. -/
abbrev Harmless {α : Type} (r : EStateM.Result Error Emitter α) : Prop :=
  Emit.Leaves (fun _ => True) (·.isNesting = false) r

namespace Harmless

variable {α β : Type}

theorem ok {a : α} : Harmless (.ok a s) :=
  trivial

theorem error {e : Error} (he : e.isNesting = false) :
    Harmless (.error e s : EStateM.Result Error Emitter α) :=
  ⟨trivial, he⟩

theorem bind {x : Emit α} {f : α → Emit β} (hx : Harmless (x s))
    (hf : ∀ a s₁, Harmless (f a s₁)) : Harmless ((x >>= f) s) :=
  Emit.Leaves.bind hx fun a s₁ _ _ => hf a s₁

theorem after {x : Emit α} {f : α → Emit β} {a : α} {s₁ : Emitter} (hx : x s = .ok a s₁)
    (hf : Harmless (f a s₁)) : Harmless ((x >>= f) s) :=
  Emit.Leaves.after hx hf

theorem throwBind {e : Error} {f : α → Emit β} (he : e.isNesting = false) :
    Harmless (((throw e : Emit α) >>= f) s) :=
  .error he

theorem lift {x : Except Error α} (hx : HarmlessCheck x) : Harmless ((liftM x : Emit α) s) :=
  Emit.Leaves.lift trivial hx

theorem mapM {f : α → Emit β} (hf : ∀ a s, Harmless (f a s)) (as : List α) (s : Emitter) :
    Harmless (as.mapM f s) :=
  Emit.Leaves.mapM (fun a _ s _ => hf a s) trivial

theorem forM {f : α → Emit Unit} (hf : ∀ a s, Harmless (f a s)) (as : List α) (s : Emitter) :
    Harmless (as.forM f s) :=
  Emit.Leaves.forM (fun a _ s _ => hf a s) trivial

end Harmless

theorem harmless_node (id : NodeId) : HarmlessCheck (cx.node id) := by
  unfold Context.node
  split
  · exact .ok
  · exact .error rfl

theorem harmless_unary (id : NodeId) (args : List Expr) (f : Expr → Expr) :
    HarmlessCheck (Context.unary id args f) := by
  unfold Context.unary
  split
  · exact .ok
  · exact .error rfl

theorem harmless_pair (id : NodeId) (args : List Expr) (f : Expr → Expr → Expr) :
    HarmlessCheck (Context.pair id args f) := by
  unfold Context.pair
  split
  · exact .ok
  · exact .error rfl

theorem harmless_argument (field : String) : HarmlessCheck (cx.argument field) := by
  unfold Context.argument
  split
  · exact .ok
  · exact .error rfl

theorem harmless_call (id : NodeId) (node : Node) (target : Invocation) (args : List Expr) :
    HarmlessCheck (cx.call id node target args) := by
  dsimp only [Context.call]
  split_ifs
  · exact .error rfl
  · exact .error rfl
  · split
    · exact .error rfl
    · exact .ok
  · cases target.kind with
    | virtual | interface | special => exact .error rfl
    | static | dynamic =>
      dsimp only
      split
      · exact .error rfl
      · exact .ok

theorem harmless_express (id : NodeId) (node : Node) (args : List Expr) :
    HarmlessCheck (cx.express id node args) := by
  unfold Context.express
  cases node.kind with
  | int | long | float | double | string => exact .ok
  | binary | compare | threeWay | arrayLoad => exact harmless_pair id args _
  | negate | convert => exact harmless_unary id args _
  | arrayStore =>
    dsimp only [Context.triple]
    split
    · exact .ok
    · exact .error rfl
  | param index =>
    dsimp only
    split
    · exact .ok
    · exact .error rfl
  | getField field =>
    dsimp only
    split_ifs
    · split
      · exact harmless_argument field
      · exact .error rfl
    · exact harmless_unary id args _
  | putField field =>
    dsimp only
    split_ifs
    · split
      · exact (harmless_argument field).map
      · exact .error rfl
    · exact harmless_pair id args _
  | invoke target => exact harmless_call id node target args
  | _ => exact .error rfl

theorem harmless_privateArray (node : Node) : HarmlessCheck (cx.privateArray node) := by
  unfold Context.privateArray
  split
  · exact .error rfl
  · split_ifs
    · exact .error rfl
    · split
      · split_ifs
        · exact .ok
        · exact .error rfl
      · exact .error rfl

theorem harmless_rendering (id : NodeId) (node : Node) (args : List Expr) :
    HarmlessCheck (cx.rendering id node args) := by
  unfold Context.rendering
  split
  · exact harmless_privateArray node
  · exact (harmless_express id node args).map

/-! ### Evaluation -/

theorem harmless_settle (id : NodeId) (node : Node) (e : Expr) (s : Emitter) :
    Harmless (settle cx id node e s) := by
  apply Harmless.after (a := s) rfl
  cases s.value? id with
  | some v => exact .ok
  | none =>
    dsimp only
    split_ifs <;> exact .ok

theorem harmless_produce (id : NodeId) (node : Node) (args : List Value) (s : Emitter) :
    Harmless (produce cx id node args s) := by
  apply Harmless.bind (.lift (harmless_rendering id node _))
  intro rendering s₁
  apply Harmless.after rfl
  cases rendering with
  | expr e => exact harmless_settle id node e _
  | privateArray element length => exact .ok

theorem harmless_evaluateBy {f : NodeId → Emit Value} (hf : ∀ b s, Harmless (f b s)) (id : NodeId)
    (s : Emitter) : Harmless (evaluateBy cx f id s) := by
  apply Harmless.after (a := s) rfl
  cases s.value? id with
  | some v => exact .ok
  | none =>
    cases cx.graph.get? id with
    | none => exact .error rfl
    | some node => exact .bind (.mapM hf _ s) fun args s₁ => harmless_produce id node args s₁

/-- Evaluation fails for lack of a node, of a rendering or of an end. -/
theorem harmless_evaluate (id : NodeId) (s : Emitter) : Harmless (evaluate cx id s) := by
  rw [evaluate_eq]
  exact atDepth_induct (P := fun _ x => ∀ s, Harmless (x s)) (fun _ _ _ => .error rfl)
    harmless_evaluateBy cx.graph.size id s

theorem harmless_isAvailable (unstable : List NodeId) (id : NodeId) (s : Emitter) :
    HarmlessCheck (isAvailable cx s unstable id) := by
  unfold isAvailable
  split
  · exact .ok
  · exact .error rfl
  · exact .ok

theorem harmless_hoistNode (unstable : List NodeId) (id : NodeId) (s : Emitter) :
    Harmless (hoistNode cx unstable id s) := by
  apply Harmless.after (a := s) rfl
  split_ifs
  · exact .ok
  · apply Harmless.bind (.lift (harmless_isAvailable unstable id s))
    intro available s₁
    split_ifs
    · exact .bind (harmless_evaluate id s₁) fun _ _ => .ok
    · exact .ok

theorem harmless_hoist (anchor : Anchor) (s : Emitter) : Harmless (hoist cx anchor s) := by
  apply Harmless.after (a := s) rfl
  cases s.plan.hoist? anchor with
  | none => exact .ok
  | some planned =>
    apply Harmless.after rfl
    exact .forM (harmless_hoistNode planned.unstable) planned.nodes _

theorem harmless_choiceOperand (choice : Choice) (id : NodeId) :
    HarmlessCheck (choiceOperand cx choice id) := by
  apply HarmlessCheck.bind (harmless_node id)
  intro node
  dsimp only
  split_ifs
  · exact .error rfl
  · split
    · exact .ok
    · exact .error rfl

theorem harmless_phiMoves (source : NodeId) : HarmlessCheck (phiMoves cx source) := by
  apply HarmlessCheck.bind
  · apply HarmlessCheck.mapM
    intro phi
    apply HarmlessCheck.mapM
    intro input
    cases input with
    | some value => exact .ok
    | none => exact .error rfl
  · intro moves
    exact .ok

theorem harmless_incoming (staged : Bool) (move : NodeId × NodeId) (s : Emitter) :
    Harmless (incoming cx staged move s) := by
  apply Harmless.bind (harmless_evaluate move.2 s)
  intro v s₁
  apply Harmless.bind (.lift (harmless_node move.2))
  intro node s₂
  split_ifs <;> exact .ok

theorem harmless_feed (assignment : NodeId × Expr) (s : Emitter) :
    Harmless (feed assignment s) := by
  apply Harmless.after (a := s) rfl
  rcases s.value? assignment.1 with _ | ⟨ty, target⟩
  · exact .error rfl
  · cases target with
    | temp t => exact .ok
    | _ => exact .error rfl

theorem harmless_assignPhis (source : NodeId) (s : Emitter) :
    Harmless (assignPhis cx source s) := by
  apply Harmless.bind (.lift (harmless_phiMoves source))
  intro moves s₁
  apply Harmless.bind (.mapM (harmless_incoming _) moves s₁)
  intro assignments s₂
  exact .forM harmless_feed assignments s₂

/-! ### Events that are always in their place -/

theorem harmless_startBlock (b : Block) (s : Emitter) : Harmless (startBlock cx b s) := by
  apply Harmless.after (a := s) rfl
  dsimp only
  split_ifs
  · exact .throwBind rfl
  · apply Harmless.after rfl
    exact .bind (harmless_hoist _ _) fun _ _ => .ok

theorem harmless_writeEffect (id : NodeId) (s : Emitter) : Harmless (writeEffect cx id s) := by
  apply Harmless.after (a := s) rfl
  split_ifs
  · exact .ok
  · apply Harmless.bind (harmless_evaluate id s)
    intro v s₁
    apply Harmless.bind (.lift (harmless_node id))
    intro node s₂
    split_ifs
    · exact .ok
    · apply Harmless.after (a := s₂) rfl
      split_ifs <;> exact .ok

theorem harmless_writeReturn (id : NodeId) (s : Emitter) : Harmless (writeReturn cx id s) := by
  apply Harmless.bind (.lift (harmless_node id))
  intro node s₁
  cases node.kind with
  | ret =>
    rcases node.operands with _ | ⟨value, _ | _⟩
    · exact .ok
    · exact .bind (harmless_evaluate value s₁) fun _ _ => .ok
    · exact .error rfl
  | _ => exact .error rfl

theorem harmless_startIf (id : NodeId) (s : Emitter) : Harmless (startIf cx id s) := by
  apply Harmless.bind (.lift (harmless_choiceOperand .branch id))
  intro condition s₁
  apply Harmless.bind (harmless_evaluate condition s₁)
  intro v s₂
  exact .bind (harmless_hoist _ s₂) fun _ _ => .ok

theorem harmless_startSwitch (id : NodeId) (s : Emitter) : Harmless (startSwitch cx id s) := by
  apply Harmless.bind (.lift (harmless_choiceOperand .switch id))
  intro value s₁
  apply Harmless.bind (harmless_evaluate value s₁)
  intro v s₂
  exact .bind (harmless_hoist _ s₂) fun _ _ => .ok

theorem harmless_writeLeave (source : NodeId) (label : String) (s : Emitter) :
    Harmless (writeLeave cx source label s) := by
  apply Harmless.after (a := s) rfl
  dsimp only
  split_ifs
  · exact .throwBind rfl
  · apply Harmless.after rfl
    exact .bind (harmless_assignPhis source _) fun _ _ => .ok

theorem harmless_writeAgain (source : NodeId) (label : String) (s : Emitter) :
    Harmless (writeAgain cx source label s) := by
  apply Harmless.after (a := s) rfl
  cases openBlock? s label with
  | none => exact .error rfl
  | some b =>
    dsimp only
    split_ifs
    · exact .throwBind rfl
    · exact .bind (harmless_assignPhis source s) fun _ _ => .ok

/-! ### The parts that the emitter is in -/

/-- The part of an open construct that the walk is in. -/
def Open.part : Open → Part
  | .block b _ => .block b.label
  | .branch node false => .thenPart node
  | .branch node true => .elsePart node
  | .switch node _ => .switch node
  | .case node => .case node

theorem Open.of_part_block {o : Open} {label : String} (h : o.part = .block label) :
    ∃ b used, o = .block b used ∧ b.label = label := by
  cases o with
  | block b used => exact ⟨b, used, rfl, Part.block.inj h⟩
  | branch node inElse => cases inElse <;> cases h
  | _ => cases h

theorem Open.of_part_thenPart {o : Open} {node : NodeId} (h : o.part = .thenPart node) :
    o = .branch node false := by
  cases o with
  | branch id inElse =>
    cases inElse with
    | false => rw [Part.thenPart.inj h]
    | true => cases h
  | _ => cases h

theorem Open.of_part_elsePart {o : Open} {node : NodeId} (h : o.part = .elsePart node) :
    o = .branch node true := by
  cases o with
  | branch id inElse =>
    cases inElse with
    | false => cases h
    | true => rw [Part.elsePart.inj h]
  | _ => cases h

theorem Open.of_part_switch {o : Open} {node : NodeId} (h : o.part = .switch node) :
    ∃ hasDefault, o = .switch node hasDefault := by
  cases o with
  | switch id hasDefault => exact ⟨hasDefault, by rw [Part.switch.inj h]⟩
  | branch id inElse => cases inElse <;> cases h
  | _ => cases h

theorem Open.of_part_case {o : Open} {node : NodeId} (h : o.part = .case node) :
    o = .case node := by
  cases o with
  | case id => rw [Part.case.inj h]
  | branch id inElse => cases inElse <;> cases h
  | _ => cases h

/-- The parts that the walk is in, innermost first. -/
def Emitter.parts (s : Emitter) : List Part :=
  s.opened.map Open.part

theorem map_part_markExit (label : String) (os : List Open) :
    (markExit label os).map Open.part = os.map Open.part := by
  induction os with
  | nil => rfl
  | cons o rest ih =>
    cases o with
    | block b used =>
      rw [markExit]
      split_ifs <;> simp [Open.part, ih]
    | _ => simp [markExit, ih]

/-- The emitter follows the parts that the walk is in. -/
theorem OpenedBy.parts {e : Event} {os os' : List Open} {ps ps' : List Part}
    (h : OpenedBy e os os') (hparts : os.map Open.part = ps) (hplace : InPlace e ps ps') :
    os'.map Open.part = ps' := by
  cases h with
  | leave =>
    cases hplace
    rw [map_part_markExit, hparts]
  | _ =>
    cases hplace
    simp_all [Open.part]

/-! ### Events that need an open construct -/

section

variable {o : Open} {os : List Open} (hopened : s.opened = o :: os)

include hopened

theorem harmless_finishInnermost {c : Construct} {close : Open → Emitter → Emitter}
    (hc : o.construct = c) : Harmless (finishInnermost c close s) := by
  apply Harmless.after (a := s) rfl
  rw [hopened]
  apply Harmless.after rfl
  rw [if_pos hc]
  exact .ok

theorem harmless_startElse {node : NodeId} (ho : o.part = .thenPart node) :
    Harmless (startElse node s) := by
  obtain rfl := Open.of_part_thenPart ho
  apply Harmless.after (a := s) rfl
  rw [hopened]
  dsimp only
  rw [if_pos rfl]
  exact .ok

theorem harmless_startCase {node : NodeId} (key : Option Int32) (ho : o.part = .switch node) :
    Harmless (startCase node key s) := by
  obtain ⟨hasDefault, rfl⟩ := Open.of_part_switch ho
  apply Harmless.after (a := s) rfl
  rw [hopened]
  dsimp only
  rw [if_pos rfl]
  exact .ok

end

/-- An event in its place does not fail because of the nesting. -/
theorem harmless_emitEvent {e : Event} {ps ps' : List Part} (hparts : s.parts = ps)
    (h : InPlace e ps ps') : Harmless (emitEvent cx e s) := by
  cases h with
  | startBlock => exact harmless_startBlock _ s
  | startIf => exact harmless_startIf _ s
  | startSwitch => exact harmless_startSwitch _ s
  | effect => exact harmless_writeEffect _ s
  | ret => exact harmless_writeReturn _ s
  | leave => exact harmless_writeLeave _ _ s
  | again => exact harmless_writeAgain _ _ s
  | edge => exact harmless_assignPhis _ s
  | finishBlock =>
    obtain ⟨o, os, hopened, ho, -⟩ := List.map_eq_cons_iff.1 hparts
    obtain ⟨b', used, rfl, hlabel⟩ := Open.of_part_block ho
    exact harmless_finishInnermost hopened (congrArg Construct.block hlabel)
  | startElse =>
    obtain ⟨o, os, hopened, ho, -⟩ := List.map_eq_cons_iff.1 hparts
    exact harmless_startElse hopened ho
  | finishIf =>
    obtain ⟨o, os, hopened, ho, -⟩ := List.map_eq_cons_iff.1 hparts
    obtain rfl := Open.of_part_elsePart ho
    exact harmless_finishInnermost hopened rfl
  | startCase =>
    obtain ⟨o, os, hopened, ho, -⟩ := List.map_eq_cons_iff.1 hparts
    exact harmless_startCase hopened _ ho
  | finishCase =>
    obtain ⟨o, os, hopened, ho, -⟩ := List.map_eq_cons_iff.1 hparts
    obtain rfl := Open.of_part_case ho
    exact harmless_finishInnermost hopened rfl
  | finishSwitch =>
    obtain ⟨o, os, hopened, ho, -⟩ := List.map_eq_cons_iff.1 hparts
    obtain ⟨hasDefault, rfl⟩ := Open.of_part_switch ho
    exact harmless_finishInnermost hopened rfl

/-! ### Whole runs -/

/-- The parts that are open after events that were in their places. -/
theorem parts_of_run {es : List Event} {ps ps' : List Part} (hnests : Nests es ps ps')
    (hparts : s.parts = ps) (h : es.forM (emitEvent cx) s = .ok () s') : s'.parts = ps' := by
  induction hnests generalizing s with
  | nil =>
    obtain rfl := forM_nil_ok.1 h
    exact hparts
  | cons hplace _ ih =>
    obtain ⟨s₁, hevent, hrest⟩ := forM_cons_ok.1 h
    exact ih ((emitted_of_ok hevent).frames.opened.parts hparts hplace) hrest

/-- Events in their places do not fail because of the nesting. -/
theorem harmless_run {es : List Event} {ps ps' : List Part} (hnests : Nests es ps ps')
    (hparts : s.parts = ps) : Harmless (es.forM (emitEvent cx) s) := by
  induction hnests generalizing s with
  | nil => exact .ok
  | @cons e es _ _ _ hplace _ ih =>
    rw [List.forM_eq_forM, List.forM_cons, ← List.forM_eq_forM]
    apply Emit.Leaves.bind (harmless_emitEvent hparts hplace)
    intro _ s₁ hevent _
    exact ih ((emitted_of_ok hevent).frames.opened.parts hparts hplace)

theorem parts_start : (Emitter.start cx).parts = [] := by
  rw [Emitter.parts, Emitter.opened_start, List.map_nil]

theorem harmless_replay (body : List Stmt) :
    Harmless ((replay (emitEvent cx) body).run (Emitter.start cx)) := by
  rw [replay_eq]
  exact harmless_run (nests_body [] body) parts_start

/-- A replay whose events all succeed closes what it opened. -/
theorem closed_of_replay {body : List Stmt}
    (h : (replay (emitEvent cx) body).run (Emitter.start cx) = .ok () s) :
    s.opened = [] ∧ s.scopes.length = 1 ∧ s.indent = 0 := by
  rw [replay_eq] at h
  have hopened : s.opened = [] :=
    List.map_eq_nil_iff.1 (parts_of_run (nests_body [] body) parts_start h)
  have hlevel := leveled_of_run leveled_start h
  refine ⟨hopened, ?_, ?_⟩
  · rw [hlevel.scopes, hopened, List.countP_nil]
  · rw [hlevel.indent_eq, hopened, List.length_nil]

/-- Whatever the class, the method and the body are, a replay does not end with one of the causes
that say that constructs are not nested; and if it comes to its end, then no construct is open, only
the scope of the function is left, the indentation is that of the function, and the function can be
finished. -/
theorem replay_closes_constructs (cx : Context) (body : List Stmt) :
    (∀ e s, (replay (emitEvent cx) body).run (Emitter.start cx) = .error e s →
      e.isNesting = false) ∧
    (∀ s, (replay (emitEvent cx) body).run (Emitter.start cx) = .ok () s →
      s.opened = [] ∧ s.scopes.length = 1 ∧ s.indent = 0 ∧
        s.finish cx = .ok (s.declarations.map Declaration.render, s.text)) ∧
    ∀ e, emitBody cx = .error e → e.isNesting = false := by
  have hfinish : ∀ {body s}, (replay (emitEvent cx) body).run (Emitter.start cx) = .ok () s →
      s.finish cx = .ok (s.declarations.map Declaration.render, s.text) := by
    intro body s h
    rw [Emitter.finish, (closed_of_replay h).1]
  refine ⟨?_, ?_, ?_⟩
  · intro e s h
    exact ((harmless_replay body).of_error h).2
  · intro s h
    obtain ⟨hopened, hscopes, hindent⟩ := closed_of_replay h
    exact ⟨hopened, hscopes, hindent, hfinish h⟩
  · intro e h
    unfold emitBody at h
    cases hrun : (replay (emitEvent cx) cx.method.body).run (Emitter.start cx) with
    | ok _ s =>
      rw [hrun] at h
      cases (hfinish hrun).symm.trans h
    | error e' s =>
      rw [hrun] at h
      cases h
      exact ((harmless_replay cx.method.body).of_error hrun).2

/-- A branch inside itself and a switch inside one of its own cases, whose default is left by a jump
out of the block around them. -/
def nestedInItself : Context where
  cls := { name := ⟨"Kernel"⟩ }
  method :=
    { name := "run"
      params := [⟨"n", .int⟩]
      graph := ⟨#[.param 0 .int, .int 0, .compare .lt 0 1, .branch 2,
        ⟨.switch .lookup, .void, [0]⟩, .marker .goto]⟩
      body := [
        .block ⟨"L", false⟩ [
          .branch 3 [.branch 3 [] []] [],
          .switch 4 [(1, [.switch 4 [] []])] [.leave 5 "L"]]] }

theorem replay_closes_constructs_nestedInItself :
    ∃ s, (replay (emitEvent nestedInItself) nestedInItself.method.body).run
        (Emitter.start nestedInItself) = .ok () s ∧
      s.opened = [] ∧ s.scopes.length = 1 ∧ s.indent = 0 ∧
        ∃ out, s.finish nestedInItself = .ok out := by
  obtain ⟨_, s, hrun⟩ := Emit.exists_ok (replay (emitEvent nestedInItself)
    nestedInItself.method.body) (Emitter.start nestedInItself) (by cbv)
  obtain ⟨hopened, hscopes, hindent, hfinish⟩ :=
    (replay_closes_constructs nestedInItself nestedInItself.method.body).2.1 s hrun
  exact ⟨s, hrun, hopened, hscopes, hindent, _, hfinish⟩

end Source

end KernelForge
