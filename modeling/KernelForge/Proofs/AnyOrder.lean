import KernelForge.Proofs.Listing

/-!
# Calls in any order

Nothing obliges a caller to hand an emitter the events of a body. It may call for any event and
evaluate any node, in any order, and go on after a call that failed, with the emitter that the call
left.

The emitter is in order after every call (`InOrder.attempt`). A call that is to finish a construct
takes the innermost one off before it looks at it. If it then fails, the construct is gone, but its
level and its scope stay (`InOrder.lose`); any other call that fails leaves the open constructs, the
level and the scopes as they were. So the level of the text and the scopes follow the open constructs
and those that were lost. A copy of the emitter that stops when it is about to end the scope of the
function, or to write to the left of the margin, does the same as the emitter itself
(`strict_emitEvent`).
-/

namespace KernelForge.Source

variable {cx : Context} {lost : List Open} {s s' : Emitter}

/-- An emitter between two calls, beside the constructs that were taken off and not closed. -/
structure InOrder (cx : Context) (lost : List Open) (s : Emitter) : Prop where
  leveled : LeveledBeside lost s
  listed : Listed cx s
  plans : PlansShared cx s

namespace InOrder

theorem start : InOrder cx [] (Emitter.start cx) :=
  ⟨leveled_start, listed_start, plansShared_start⟩

/-- Whatever leaves the memory, the level, the plan and the kinds of open constructs alone. -/
theorem note (h : InOrder cx lost s) (hmemory : SameMemory s s') (hindent : s'.indent = s.indent)
    (hopened : s'.opened.map Open.isSwitch = s.opened.map Open.isSwitch)
    (hplan : s'.plan = s.plan) : InOrder cx lost s' where
  leveled := h.leveled.congr hindent (by rw [hmemory.scopes]) hopened
  listed := h.listed.sameMemory hmemory
  plans := h.plans.congr hplan

theorem write (h : InOrder cx lost s) {l : Line} (hl : l.kept? = none) :
    InOrder cx lost (s.write l) :=
  h.note (.write s l hl) rfl rfl rfl

theorem evaluates {ids : List NodeId} {vs : List Value} (h : InOrder cx lost s)
    (heval : Evaluates cx ids s vs s') : InOrder cx lost s' where
  leveled := h.leveled.sameLevel heval.sameLevel heval.sameFrame
  listed := h.listed.evaluates heval
  plans := h.plans.congr heval.extends.plan

/-- A value that evaluation has not kept is kept in the innermost scope. -/
theorem keep {id : NodeId} {node : Node} (h : InOrder cx lost s) (e : Expr)
    (hnode : cx.graph.get? id = some node) (hkept : cx.isKept id node = false)
    (hvoid : node.ty.isVoid = false) (hv : s.value? id = none) :
    InOrder cx lost (s.materialize cx id node.ty e false) := by
  have hlevel : SameLevel s (s.materialize cx id node.ty e false) :=
    (SameLevel.refl s).materialize id node.ty e false
  have houtlives : s.outlives cx id = false := by
    have hkeeps : cx.keeps id = false := by rw [Context.keeps, hnode, Option.any_some, hkept]
    have hpure : cx.isEffect id = false := by
      rw [isEffect_of_get? hnode]
      simp only [Context.isKept, hvoid] at hkept
      simpa using And.left (by simpa using hkept)
    have hpinned : s.pinned.contains id = false := by
      refine Bool.eq_false_iff.2 fun hmem => ?_
      simp [keeps_of_isShared (h.listed.pinned id (List.contains_iff_mem.1 hmem))] at hkeeps
    rw [Emitter.outlives, h.listed.notMem_phis hv, hpure, hpinned]
    rfl
  refine ⟨h.leveled.congr hlevel.indent hlevel.scopes ?_, h.listed.materialize hv houtlives.symm,
    h.plans.congr ?_⟩
  · rw [Emitter.materialize_eq]
  · rw [Emitter.materialize_eq]

theorem pin {id : NodeId} (h : InOrder cx lost s) (hid : s.value? id = none)
    (hshared : cx.isShared id = true) : InOrder cx lost { s with pinned := id :: s.pinned } where
  leveled := h.leveled.congr rfl rfl rfl
  listed := h.listed.pin hid hshared
  plans := h.plans

/-- A plan that is used is dropped. -/
theorem unplan (h : InOrder cx lost s) (anchor : Anchor) :
    InOrder cx lost { s with plan := s.plan.without anchor } where
  leveled := h.leveled.congr rfl rfl rfl
  listed := h.listed.sameMemory ⟨rfl, rfl, rfl, rfl, rfl⟩
  plans := by
    intro other hoist hfound
    rw [Plan.hoist?_without] at hfound
    split_ifs at hfound
    exact h.plans hfound

theorem enter {o : Open} {l : Line} (h : InOrder cx lost s) (ho : o.isSwitch = false)
    (hl : l.kept? = none) :
    InOrder cx lost { (s.write l).openScope with opened := o :: s.opened } where
  leveled := h.leveled.enter ho l
  listed := (h.write hl).listed.openScope.sameMemory ⟨rfl, rfl, rfl, rfl, rfl⟩
  plans := h.plans

theorem enterSwitch {o : Open} {l : Line} (h : InOrder cx lost s) (ho : o.isSwitch = true)
    (hl : l.kept? = none) : InOrder cx lost
      { s.write l with indent := s.indent + 1, opened := o :: s.opened } where
  leveled := h.leveled.enterSwitch ho l
  listed := (h.write hl).listed.sameMemory ⟨rfl, rfl, rfl, rfl, rfl⟩
  plans := h.plans

/-- Ending the scope of the innermost open construct. -/
theorem closeScope {o : Open} {os : List Open} (h : InOrder cx lost s) (hopened : s.opened = o :: os)
    (ho : o.isSwitch = false) : Listed cx s.closeScope ∧ PlansShared cx s.closeScope := by
  obtain ⟨inner, outer, hscopes, hlength⟩ := h.leveled.exists_scope hopened ho
  have houter : outer ≠ [] := List.ne_nil_of_length_pos (by omega)
  exact ⟨h.listed.closeScope hscopes houter, h.plans.congr (SameFrame.closeScope s).plan⟩

theorem closed {o : Open} {os : List Open} (h : InOrder cx lost s) (hopened : s.opened = o :: os)
    (ho : o.isSwitch = false) : InOrder cx lost (s.closed os) where
  leveled := h.leveled.closed hopened ho
  listed := (h.closeScope hopened ho).1.sameMemory (SameMemory.closed s os)
  plans := h.plans.congr (SameFrame.closed s os).plan

/-- Closing one part of a branch and opening the other. -/
theorem swap {id : NodeId} {os : List Open} (h : InOrder cx lost s)
    (hopened : s.opened = .branch id false :: os) : InOrder cx lost
      ({ s with opened := .branch id true :: os }.closeScope.write .otherwise).openScope where
  leveled := h.leveled.swap hopened
  listed := by
    have helse : SameMemory s { s with opened := .branch id true :: os } :=
      ⟨rfl, rfl, rfl, rfl, rfl⟩
    exact (h.closeScope hopened rfl).1.openScope.sameMemory
      (helse.closeScope.trans (.write _ .otherwise rfl)).openScope
  plans := h.plans.congr (SameFrame.closeScope { s with opened := .branch id true :: os }).plan

theorem closedSwitch {o : Open} {os : List Open} {l : Line} (h : InOrder cx lost s)
    (hopened : s.opened = o :: os) (ho : o.isSwitch = true) (hl : l.kept? = none) :
    InOrder cx lost ({ s with indent := s.indent - 1, opened := os }.write l) where
  leveled := h.leveled.closedSwitch hopened ho l
  listed := h.listed.sameMemory ⟨rfl, rfl, rfl, rfl, Emitter.kept_write _ hl⟩
  plans := h.plans

theorem writeDefault (h : InOrder cx lost s) : InOrder cx lost (writeDefault s) := by
  refine h.note ⟨rfl, rfl, rfl, rfl, ?_⟩ (Emitter.indent_writeDefault s) rfl rfl
  rw [Emitter.kept, lines_writeDefault, List.filterMap_append, ← Emitter.kept]
  exact List.append_nil _

/-- A construct that is taken off without being closed is lost. -/
theorem lose {o : Open} {os : List Open} (h : InOrder cx lost s) (hopened : s.opened = o :: os) :
    InOrder cx (o :: lost) { s with opened := os } where
  leveled := h.leveled.lose hopened
  listed := h.listed.sameMemory ⟨rfl, rfl, rfl, rfl, rfl⟩
  plans := h.plans

end InOrder

/-! ### Calls that lose nothing -/

/-- A step that ended so left the emitter in order and lost no construct, whether it failed or not. -/
abbrev Stays {α : Type} (cx : Context) (lost : List Open) (r : EStateM.Result Error Emitter α) :
    Prop :=
  Emit.Leaves (InOrder cx lost) (fun _ => True) r

section stays

variable (h : InOrder cx lost s)

include h

theorem stays_error {α : Type} (e : Error) :
    Stays cx lost (.error e s : EStateM.Result Error Emitter α) :=
  ⟨h, trivial⟩

theorem stays_lift {α : Type} (x : Except Error α) : Stays cx lost ((liftM x : Emit α) s) :=
  .lift h fun _ _ => trivial

theorem stays_evaluate (id : NodeId) : Stays cx lost (evaluate cx id s) := by
  cases hrun : evaluate cx id s with
  | ok v s₁ => exact h.evaluates (evaluates_of_ok hrun)
  | error e s₁ =>
    obtain ⟨_, _, heval⟩ := evaluates_of_error hrun
    exact stays_error (h.evaluates heval) e

theorem stays_hoistNode (unstable : List NodeId) {id : NodeId} (hshared : cx.isShared id = true) :
    Stays cx lost (hoistNode cx unstable id s) := by
  apply Emit.Leaves.after (Emit.get_eq s)
  split_ifs with hbound
  · exact h
  · apply Emit.Leaves.bind (stays_lift h _)
    intro available s₁ havailable hs₁
    obtain ⟨-, rfl⟩ := Emit.lift_ok.1 havailable
    split_ifs
    · exact .bind (stays_evaluate h id) fun _ _ _ hs => hs
    · exact h.pin (s.not_isBound_iff.1 (by simpa using hbound)) hshared

theorem stays_hoist (anchor : Anchor) : Stays cx lost (hoist cx anchor s) := by
  apply Emit.Leaves.after (Emit.get_eq s)
  cases hfound : s.plan.hoist? anchor with
  | none => exact h
  | some planned =>
    apply Emit.Leaves.after rfl
    exact .forM (fun id hid s hs => stays_hoistNode hs planned.unstable (h.plans hfound id hid))
      (h.unplan anchor)

theorem stays_incoming (staged : Bool) (move : NodeId × NodeId) :
    Stays cx lost (incoming cx staged move s) := by
  apply Emit.Leaves.bind (stays_evaluate h move.2)
  intro v s₁ _ hs₁
  apply Emit.Leaves.bind (stays_lift hs₁ _)
  intro node s₂ _ hs₂
  split_ifs
  · have hcounted : InOrder cx lost s₂.countTemp := hs₂.note ⟨rfl, rfl, rfl, rfl, rfl⟩ rfl rfl rfl
    exact hcounted.write rfl
  · exact hs₂

theorem stays_feed (assignment : NodeId × Expr) : Stays cx lost (feed assignment s) := by
  apply Emit.Leaves.after (Emit.get_eq s)
  rcases s.value? assignment.1 with _ | ⟨ty, target⟩
  · exact stays_error h _
  · cases target with
    | temp t => exact h.write rfl
    | _ => exact stays_error h _

theorem stays_assignPhis (source : NodeId) : Stays cx lost (assignPhis cx source s) := by
  apply Emit.Leaves.bind (stays_lift h _)
  intro moves s₁ _ hs₁
  apply Emit.Leaves.bind (.mapM (fun move _ s hs => stays_incoming hs _ move) hs₁)
  intro assignments s₂ _ hs₂
  exact .forM (fun assignment _ s hs => stays_feed hs assignment) hs₂

theorem stays_startBlock (b : Block) : Stays cx lost (startBlock cx b s) := by
  apply Emit.Leaves.after (Emit.get_eq s)
  dsimp only
  split_ifs
  · exact stays_error h _
  · apply Emit.Leaves.after rfl
    have hlabeled : InOrder cx lost { s with labels := b.label :: s.labels } :=
      h.note ⟨rfl, rfl, rfl, rfl, rfl⟩ rfl rfl rfl
    exact .bind (stays_hoist hlabeled _) fun _ s₁ _ hs₁ => hs₁.enter (o := .block b false) rfl rfl

theorem stays_writeEffect (id : NodeId) : Stays cx lost (writeEffect cx id s) := by
  apply Emit.Leaves.after (Emit.get_eq s)
  split_ifs
  · exact h
  · apply Emit.Leaves.bind (stays_evaluate h id)
    intro v s₁ heval hs₁
    apply Emit.Leaves.bind (stays_lift hs₁ _)
    intro node s₂ hnode hs₂
    rw [Emit.lift_ok, node_ok] at hnode
    obtain ⟨hnode, rfl⟩ := hnode
    split_ifs with hvoid
    · exact hs₁.write rfl
    · apply Emit.Leaves.after (Emit.get_eq s₁)
      split_ifs with hfresh
      · have hv₁ : s₁.value? id = none := s₁.not_isBound_iff.1 (by simpa using hfresh)
        have hkept := (evaluates_of_ok heval).isKept_of_value? hnode hv₁
        exact hs₁.keep v.expr hnode hkept (by simpa using hvoid) hv₁
      · exact hs₁

theorem stays_writeReturn (id : NodeId) : Stays cx lost (writeReturn cx id s) := by
  apply Emit.Leaves.bind (stays_lift h _)
  intro node s₁ _ hs₁
  cases node.kind with
  | ret =>
    rcases node.operands with _ | ⟨value, _ | _⟩
    · exact hs₁.write rfl
    · exact .bind (stays_evaluate hs₁ value) fun _ _ _ hs₂ => hs₂.write rfl
    · exact stays_error hs₁ _
  | _ => exact stays_error hs₁ _

theorem stays_startIf (id : NodeId) : Stays cx lost (startIf cx id s) := by
  apply Emit.Leaves.bind (stays_lift h _)
  intro condition s₁ _ hs₁
  apply Emit.Leaves.bind (stays_evaluate hs₁ condition)
  intro v s₂ _ hs₂
  exact .bind (stays_hoist hs₂ _) fun _ s₃ _ hs₃ => hs₃.enter (o := .branch id false) rfl rfl

theorem stays_startSwitch (id : NodeId) : Stays cx lost (startSwitch cx id s) := by
  apply Emit.Leaves.bind (stays_lift h _)
  intro value s₁ _ hs₁
  apply Emit.Leaves.bind (stays_evaluate hs₁ value)
  intro v s₂ _ hs₂
  exact .bind (stays_hoist hs₂ _) fun _ s₃ _ hs₃ => hs₃.enterSwitch (o := .switch id false) rfl rfl

theorem stays_startElse (id : NodeId) : Stays cx lost (startElse id s) := by
  apply Emit.Leaves.after (Emit.get_eq s)
  cases hopened : s.opened with
  | nil => exact stays_error h _
  | cons o rest =>
    cases o with
    | branch opened inElse =>
      cases inElse with
      | false =>
        dsimp only
        split_ifs with hid
        · exact h.swap (hid ▸ hopened)
        · exact stays_error h _
      | true => exact stays_error h _
    | _ => exact stays_error h _

theorem stays_startCase (id : NodeId) (key : Option Int32) :
    Stays cx lost (startCase id key s) := by
  apply Emit.Leaves.after (Emit.get_eq s)
  cases hopened : s.opened with
  | nil => exact stays_error h _
  | cons o rest =>
    cases o with
    | switch opened hasDefault =>
      dsimp only
      split_ifs with hid
      · have hmarked : InOrder cx lost
            { s with opened := .switch id (hasDefault || key.isNone) :: rest } :=
          h.note ⟨rfl, rfl, rfl, rfl, rfl⟩ rfl (by simp [hopened, Open.isSwitch]) rfl
        exact hmarked.enter (o := .case id) rfl rfl
      · exact stays_error h _
    | _ => exact stays_error h _

theorem stays_writeLeave (source : NodeId) (label : String) :
    Stays cx lost (writeLeave cx source label s) := by
  apply Emit.Leaves.after (Emit.get_eq s)
  dsimp only
  split_ifs
  · exact stays_error h _
  · apply Emit.Leaves.after rfl
    have hmarked : InOrder cx lost { s with opened := markExit label s.opened } :=
      h.note ⟨rfl, rfl, rfl, rfl, rfl⟩ rfl (map_isSwitch_markExit label s.opened) rfl
    exact .bind (stays_assignPhis hmarked source) fun _ _ _ hs₁ => hs₁.write rfl

theorem stays_writeAgain (source : NodeId) (label : String) :
    Stays cx lost (writeAgain cx source label s) := by
  apply Emit.Leaves.after (Emit.get_eq s)
  cases openBlock? s label with
  | none => exact stays_error h _
  | some b =>
    dsimp only
    split_ifs
    · exact stays_error h _
    · exact .bind (stays_assignPhis h source) fun _ _ _ hs₁ => hs₁.write rfl

end stays

/-! ### Calls that finish a construct -/

/-- Closing a construct that is taken off leaves the emitter in order. -/
def Closes (cx : Context) (c : Construct) (close : Open → Emitter → Emitter) : Prop :=
  ∀ {lost s o rest}, InOrder cx lost s → s.opened = o :: rest → o.construct = c →
    InOrder cx lost (close o { s with opened := rest })

theorem closes_block (b : Block) : Closes cx (.block b.label) closeBlock := by
  intro lost s o rest h hopened hc
  cases o with
  | block opened used =>
    have hclosed := h.closed hopened rfl
    cases used with
    | true => exact hclosed.write rfl
    | false => exact hclosed
  | _ => cases hc

theorem closes_if (id : NodeId) :
    Closes cx (.branch id) fun _ s => s.closeScope.write .close := by
  intro lost s o rest h hopened hc
  cases o with
  | branch opened inElse => exact h.closed hopened rfl
  | _ => cases hc

theorem closes_case (id : NodeId) :
    Closes cx (.case id) fun _ s => (s.write .endCase).closeScope.write .close := by
  intro lost s o rest h hopened hc
  cases o with
  | case opened => exact (h.write (l := .endCase) rfl).closed hopened rfl
  | _ => cases hc

theorem closes_switch (id : NodeId) : Closes cx (.switch id) closeSwitch := by
  intro lost s o rest h hopened hc
  cases o with
  | switch opened hasDefault =>
    cases hasDefault with
    | true => exact h.closedSwitch hopened rfl rfl
    | false => exact h.writeDefault.closedSwitch hopened rfl rfl
  | _ => cases hc

/-- Finishing takes the innermost construct off, which is lost if it is not the one to be finished. -/
theorem inOrder_finishInnermost {c : Construct} {close : Open → Emitter → Emitter}
    (h : InOrder cx lost s) (hclose : Closes cx c close) :
    match finishInnermost c close s with
    | .ok _ s' => InOrder cx lost s'
    | .error _ s' => InOrder cx (s.opened.take 1 ++ lost) s' := by
  rw [finishInnermost_eq]
  cases hopened : s.opened with
  | nil => exact h
  | cons o rest =>
    dsimp only
    split_ifs with hc
    · exact hclose h hopened hc
    · exact h.lose hopened

/-! ### An emitter that checks itself -/

/-- Why a strict emitter stops: a call fails, the scope of the function would end, or the level would
go below the margin. -/
inductive Stop
  | failed (e : Error)
  | functionScope
  | margin

/-- A step of a strict emitter. -/
abbrev Strict := EStateM Stop Emitter

namespace Strict

/-- An emission step that needs no check. -/
def ofEmit {α : Type} (x : Emit α) : Strict α := fun s =>
  match x s with
  | .ok a s' => .ok a s'
  | .error e s' => .error (.failed e) s'

def write (l : Line) : Strict Unit :=
  modify (·.write l)

/-- Go back one level, unless the level is that of the margin. -/
def dedent : Strict Unit := do
  if (← get).indent = 0 then throw .margin
  modify fun s => { s with indent := s.indent - 1 }

/-- End the innermost scope, unless it is that of the function. -/
def closeScope : Strict Unit := do
  match (← get).scopes with
  | [] | [_] => throw .functionScope
  | scope :: rest =>
    modify fun s => { s with scopes := rest, bound := s.bound.filter (!scope.contains ·.1) }
    dedent

def startElse (id : NodeId) : Strict Unit := do
  let s ← get
  match s.opened with
  | .branch opened false :: rest =>
    if opened = id then
      set { s with opened := .branch id true :: rest }
      closeScope
      modify fun s => (s.write .otherwise).openScope
    else throw (.failed (.misplacedElse id s.innermost?))
  | _ => throw (.failed (.misplacedElse id s.innermost?))

def finishInnermost (c : Construct) (close : Open → Strict Unit) : Strict Unit := do
  let s ← get
  match s.opened with
  | [] => throw (.failed (.misclosed c none))
  | o :: rest =>
    set { s with opened := rest }
    if o.construct = c then close o else throw (.failed (.misclosed c (some o.construct)))

def closeBlock (o : Open) : Strict Unit := do
  closeScope
  write .close
  match o with
  | .block b true => write (.exitMark b.label)
  | _ => return

/-- An empty default case. -/
def writeDefault : Strict Unit := do
  write (.openCase none)
  modify fun s => { s with indent := s.indent + 1 }.write .endCase
  dedent
  write .close

def closeSwitch (o : Open) : Strict Unit := do
  match o with
  | .switch _ false => writeDefault
  | _ => pure ()
  dedent
  write .close

/-- Take one event. Only the events that close something end a scope or go back a level. -/
def emitEvent (cx : Context) : Event → Strict Unit
  | .finishBlock b => finishInnermost (.block b.label) closeBlock
  | .startElse id => startElse id
  | .finishIf id => finishInnermost (.branch id) fun _ => do
    closeScope
    write .close
  | .finishCase id => finishInnermost (.case id) fun _ => do
    write .endCase
    closeScope
    write .close
  | .finishSwitch id => finishInnermost (.switch id) closeSwitch
  | e => ofEmit (Source.emitEvent cx e)

theorem bind_of_ok {α β : Type} {x : Strict α} {a : α} (f : α → Strict β) (h : x s = .ok a s') :
    (x >>= f) s = f a s' := by
  simp only [bind, EStateM.bind, h]

theorem get_eq (s : Emitter) : (get : Strict Emitter) s = .ok s s :=
  rfl

theorem set_eq (s t : Emitter) : (set t : Strict PUnit) s = .ok () t :=
  rfl

theorem modify_eq (f : Emitter → Emitter) (s : Emitter) :
    (modify f : Strict Unit) s = .ok () (f s) :=
  rfl

theorem write_eq (l : Line) (s : Emitter) : write l s = .ok () (s.write l) :=
  rfl

theorem dedent_of_ne (h : s.indent ≠ 0) :
    dedent s = .ok () { s with indent := s.indent - 1 } := by
  rw [dedent, bind_of_ok _ (get_eq s), if_neg h]
  rfl

end Strict

section strict

variable {o : Open} {os : List Open} (h : LeveledBeside lost s)

include h

/-- An open construct has a level to go back from. -/
theorem LeveledBeside.indent_ne (hopened : s.opened = o :: os) : s.indent ≠ 0 := by
  rw [h.indent, hopened, List.length_cons]
  omega

/-- The checks succeed for the scope of an open construct. -/
theorem strict_closeScope (hopened : s.opened = o :: os) (ho : o.isSwitch = false) (t : Emitter)
    (hindent : t.indent = s.indent) (hscopes : t.scopes = s.scopes) :
    Strict.closeScope t = .ok () t.closeScope := by
  obtain ⟨inner, outer, hs, hlength⟩ := h.exists_scope hopened ho
  obtain ⟨scope, rest, rfl⟩ : ∃ scope rest, outer = scope :: rest :=
    List.exists_cons_of_length_pos (by omega)
  rw [Strict.closeScope, Strict.bind_of_ok _ (Strict.get_eq t)]
  simp only [Emitter.closeScope, hscopes, hs]
  rw [Strict.bind_of_ok _ (Strict.modify_eq _ t)]
  apply Strict.dedent_of_ne
  exact hindent ▸ h.indent_ne hopened

theorem strict_closeBlock (hopened : s.opened = o :: os) {b : Block}
    (hc : o.construct = .block b.label) :
    Strict.closeBlock o { s with opened := os } = .ok () (closeBlock o { s with opened := os }) := by
  cases o with
  | block opened used =>
    cases used with
    | true =>
      rw [Strict.closeBlock, Strict.bind_of_ok _ (strict_closeScope h hopened rfl { s with opened := os } rfl rfl)]
      rfl
    | false =>
      rw [Strict.closeBlock, Strict.bind_of_ok _ (strict_closeScope h hopened rfl { s with opened := os } rfl rfl)]
      · rfl
      · intro b' hb'
        cases hb'
  | _ => cases hc

theorem strict_closeSwitch (hopened : s.opened = o :: os) {id : NodeId}
    (hc : o.construct = .switch id) :
    Strict.closeSwitch o { s with opened := os } =
      .ok () (closeSwitch o { s with opened := os }) := by
  have hindent : { s with opened := os }.indent ≠ 0 := h.indent_ne hopened
  cases o with
  | switch opened hasDefault =>
    cases hasDefault with
    | true =>
      rw [Strict.closeSwitch]
      · dsimp only
        rw [Strict.bind_of_ok _ (Strict.dedent_of_ne hindent)]
        rfl
      · intro node hnode
        cases hnode
    | false =>
      have hdefault : Strict.writeDefault { s with opened := os } =
          .ok () (writeDefault { s with opened := os }) := by
        rw [Strict.writeDefault, Strict.bind_of_ok _ (Strict.write_eq _ _),
          Strict.bind_of_ok _ (Strict.modify_eq _ _),
          Strict.bind_of_ok _ (Strict.dedent_of_ne (Nat.succ_ne_zero _))]
        rfl
      rw [Strict.closeSwitch]
      dsimp only
      rw [Strict.bind_of_ok _ hdefault,
        Strict.bind_of_ok _ (Strict.dedent_of_ne (by rwa [Emitter.indent_writeDefault]))]
      rfl
  | _ => cases hc

omit h in
/-- Finishing with checks is finishing, if closing with checks is closing. -/
theorem strict_finishInnermost {c : Construct} {close : Open → Emitter → Emitter}
    {check : Open → Strict Unit} (hclose : ∀ o os, s.opened = o :: os → o.construct = c →
      check o { s with opened := os } = .ok () (close o { s with opened := os })) :
    Strict.finishInnermost c check s = Strict.ofEmit (finishInnermost c close) s := by
  rw [Strict.finishInnermost, Strict.bind_of_ok _ (Strict.get_eq s), Strict.ofEmit,
    finishInnermost_eq]
  cases hopened : s.opened with
  | nil => rfl
  | cons o os =>
    dsimp only
    rw [Strict.bind_of_ok _ (Strict.set_eq s _)]
    split_ifs with hc
    · rw [hclose o os hopened hc]
    · rfl

theorem strict_startElse (id : NodeId) :
    Strict.startElse id s = Strict.ofEmit (startElse id) s := by
  rw [Strict.startElse, Strict.bind_of_ok _ (Strict.get_eq s), Strict.ofEmit, startElse,
    Emit.bind_of_ok (Emit.get_eq s)]
  cases hopened : s.opened with
  | nil => rfl
  | cons o rest =>
    cases o with
    | branch opened inElse =>
      cases inElse with
      | false =>
        dsimp only
        split_ifs
        · rw [Strict.bind_of_ok _ (Strict.set_eq s _), Strict.bind_of_ok _ (strict_closeScope h
            hopened rfl { s with opened := .branch id true :: rest } rfl rfl)]
          rfl
        · rfl
      | true => rfl
    | _ => rfl

/-- No check of an event fails. -/
theorem strict_emitEvent (e : Event) :
    Strict.emitEvent cx e s = Strict.ofEmit (emitEvent cx e) s := by
  cases e with
  | finishBlock b =>
    exact strict_finishInnermost fun o os hopened hc => strict_closeBlock h hopened hc
  | startElse id => exact strict_startElse h id
  | finishIf id =>
    refine strict_finishInnermost fun o os hopened hc => ?_
    cases o with
    | branch opened inElse =>
      rw [Strict.bind_of_ok _ (strict_closeScope h hopened rfl { s with opened := os } rfl rfl)]
      rfl
    | _ => cases hc
  | finishCase id =>
    refine strict_finishInnermost fun o os hopened hc => ?_
    cases o with
    | case opened =>
      let ended : Emitter := { s with opened := os }.write .endCase
      rw [Strict.bind_of_ok _ (Strict.write_eq _ _)]
      exact (Strict.bind_of_ok _ (strict_closeScope h hopened rfl ended rfl rfl)).trans rfl
    | _ => cases hc
  | finishSwitch id =>
    exact strict_finishInnermost fun o os hopened hc => strict_closeSwitch h hopened hc
  | _ => rfl

end strict

/-! ### Calls -/

/-- One call of an emitter. -/
inductive EmitterCall
  | event (e : Event)
  /-- Evaluate a node. -/
  | value (id : NodeId)

namespace EmitterCall

/-- Make a call. -/
def make (cx : Context) : EmitterCall → Emit Unit
  | event e => emitEvent cx e
  | value id => do let _ ← evaluate cx id

/-- Make a call of a strict emitter. -/
def check (cx : Context) : EmitterCall → Strict Unit
  | event e => Strict.emitEvent cx e
  | value id => Strict.ofEmit (do let _ ← evaluate cx id)

/-- Whether a call is to finish a construct. -/
def isFinish : EmitterCall → Bool
  | event (.finishBlock _) | event (.finishIf _) | event (.finishCase _)
  | event (.finishSwitch _) => true
  | _ => false

end EmitterCall

/-- An emitter whose caller goes on after failures, and the constructs that calls have taken off and
not closed, newest first. -/
structure Attempted where
  emitter : Emitter
  lost : List Open := []

/-- Make a call. If it fails, the emitter is what the call has left, and a call that was to finish a
construct has taken the innermost one off. -/
def EmitterCall.attempt (cx : Context) (now : Attempted) (c : EmitterCall) : Attempted :=
  match c.make cx now.emitter with
  | .ok _ s => ⟨s, now.lost⟩
  | .error _ s => ⟨s, if c.isFinish then now.emitter.opened.take 1 ++ now.lost else now.lost⟩

/-- Make calls one after the other, whether they fail or not. -/
def attempts (cx : Context) (calls : List EmitterCall) : Attempted :=
  calls.foldl (EmitterCall.attempt cx) ⟨Emitter.start cx, []⟩

namespace InOrder

/-- One call. -/
theorem attempt {now : Attempted} (h : InOrder cx now.lost now.emitter) (c : EmitterCall) :
    InOrder cx (c.attempt cx now).lost (c.attempt cx now).emitter := by
  -- a call either stays beside what is lost, or finishes a construct
  have hstays : c.isFinish = false → Stays cx now.lost (c.make cx now.emitter) →
      InOrder cx (c.attempt cx now).lost (c.attempt cx now).emitter := by
    intro hc hmake
    cases hrun : c.make cx now.emitter with
    | ok _ s =>
      rw [hrun] at hmake
      rw [EmitterCall.attempt, hrun]
      exact hmake
    | error e s =>
      rw [EmitterCall.attempt, hrun]
      simp only [hc, Bool.false_eq_true, if_false]
      exact (hmake.of_error hrun).1
  have hfinish : ∀ {construct close}, c.isFinish = true →
      c.make cx = finishInnermost construct close → Closes cx construct close →
      InOrder cx (c.attempt cx now).lost (c.attempt cx now).emitter := by
    intro construct close hc hmake hclose
    have hrun := inOrder_finishInnermost h hclose
    cases hresult : finishInnermost construct close now.emitter with
    | ok _ s =>
      rw [hresult] at hrun
      rw [EmitterCall.attempt, hmake, hresult]
      exact hrun
    | error e s =>
      rw [hresult] at hrun
      rw [EmitterCall.attempt, hmake, hresult]
      simp only [hc, if_true]
      exact hrun
  cases c with
  | value id => exact hstays rfl (.bind (stays_evaluate h id) fun _ _ _ hs => hs)
  | event e =>
    cases e with
    | startBlock b => exact hstays rfl (stays_startBlock h b)
    | effect id => exact hstays rfl (stays_writeEffect h id)
    | ret id => exact hstays rfl (stays_writeReturn h id)
    | startIf id => exact hstays rfl (stays_startIf h id)
    | startElse id => exact hstays rfl (stays_startElse h id)
    | startSwitch id => exact hstays rfl (stays_startSwitch h id)
    | startCase id key => exact hstays rfl (stays_startCase h id key)
    | leave source label => exact hstays rfl (stays_writeLeave h source label)
    | again source label => exact hstays rfl (stays_writeAgain h source label)
    | edge source => exact hstays rfl (stays_assignPhis h source)
    | finishBlock b => exact hfinish rfl rfl (closes_block b)
    | finishIf id => exact hfinish rfl rfl (closes_if id)
    | finishCase id => exact hfinish rfl rfl (closes_case id)
    | finishSwitch id => exact hfinish rfl rfl (closes_switch id)

/-- Any number of calls. -/
theorem attempts (calls : List EmitterCall) :
    InOrder cx (attempts cx calls).lost (attempts cx calls).emitter :=
  List.foldlRecOn calls (EmitterCall.attempt cx)
    (motive := fun now => InOrder cx now.lost now.emitter) start fun _ h c _ => h.attempt c

theorem check (h : InOrder cx lost s) (c : EmitterCall) :
    c.check cx s = Strict.ofEmit (c.make cx) s := by
  cases c with
  | event e => exact strict_emitEvent h.leveled e
  | value id => rfl

end InOrder

/-- Calls that all succeed lose nothing. -/
theorem attempts_of_ok {calls : List EmitterCall} {now : Attempted}
    (h : calls.forM (EmitterCall.make cx) now.emitter = .ok () s) :
    calls.foldl (EmitterCall.attempt cx) now = ⟨s, now.lost⟩ := by
  induction calls generalizing now with
  | nil =>
    obtain rfl := forM_nil_ok.1 h
    rfl
  | cons c rest ih =>
    obtain ⟨s₁, hc, hrest⟩ := forM_cons_ok.1 h
    have hattempt : c.attempt cx now = ⟨s₁, now.lost⟩ := by rw [EmitterCall.attempt, hc]
    rw [List.foldl_cons, hattempt]
    exact ih hrest

/-- **An emitter is in order after calls in any order.** However the calls are arranged, and whichever
of them fail, the level afterwards is the number of constructs that are open or lost, all of which but
switches have one scope besides that of the function; a value is listed in one open scope, and once
there, exactly if it has a name that is forgotten with a scope; and the function can be finished exactly
if nothing is open. Whatever the next call is, it does not end the scope of the function or go back a
level at the margin: an emitter that checks for this does the same. If no call has failed, nothing is
lost. -/
theorem in_order_after_calls {calls : List EmitterCall} {lost : List Open} {s : Emitter}
    (h : attempts cx calls = ⟨s, lost⟩) :
    s.indent = s.opened.length + lost.length ∧
      s.scopes.length = 1 + s.opened.countP (!·.isSwitch) + lost.countP (!·.isSwitch) ∧
      (∀ id, s.scopes.flatten.count id = if s.isScoped cx id then 1 else 0) ∧
      ((∃ out, s.finish cx = .ok out) ↔ s.opened = []) ∧
      (∀ c : EmitterCall, c.check cx s = Strict.ofEmit (c.make cx) s) ∧
      ∀ s', calls.forM (EmitterCall.make cx) (Emitter.start cx) = .ok () s' → s' = s ∧ lost = [] := by
  have horder : InOrder cx lost s := by
    have hattempts : InOrder cx (attempts cx calls).lost (attempts cx calls).emitter :=
      .attempts calls
    rwa [h] at hattempts
  have hscopes := horder.leveled.scopes
  refine ⟨horder.leveled.indent, by omega, horder.listed.once, ⟨?_, ?_⟩, horder.check, ?_⟩
  · rintro ⟨out, hout⟩
    exact (finish_ok hout).1
  · intro hopened
    simp only [Emitter.finish, hopened]
    exact ⟨_, rfl⟩
  · intro s' hrun
    have hsame : attempts cx calls = ⟨s', []⟩ := attempts_of_ok hrun
    rw [h] at hsame
    cases hsame
    exact ⟨rfl, rfl⟩

/-- A block inside a switch but in none of its cases, which is lost when it is to be finished as a
branch; a value that is evaluated twice in between, and nothing closed. -/
def unbalanced : List EmitterCall :=
  [.event (.startBlock ⟨"A", false⟩), .value 3, .event (.startSwitch 6),
    .event (.startCase 6 (some 1)), .value 3, .event (.finishCase 6),
    .event (.startBlock ⟨"B", true⟩), .event (.finishIf 6), .event (.leave 7 "A")]

theorem in_order_after_calls_unbalanced :
    ∃ s lost, attempts sharedAfterLoop unbalanced = ⟨s, lost⟩ ∧
      s.opened.map Open.isSwitch = [true, false] ∧ lost.map Open.construct = [.block "B"] ∧
      s.indent = 3 ∧ s.scopes.length = 3 ∧ s.scopes.flatten.count 3 = 1 ∧
      s.scopes.flatten.count 2 = 0 ∧ ¬ ∃ out, s.finish sharedAfterLoop = .ok out := by
  have hshape : ((attempts sharedAfterLoop unbalanced).emitter.opened.map Open.isSwitch,
      (attempts sharedAfterLoop unbalanced).lost.map Open.construct,
      (attempts sharedAfterLoop unbalanced).emitter.isScoped sharedAfterLoop 3,
      (attempts sharedAfterLoop unbalanced).emitter.isScoped sharedAfterLoop 2) =
      ([true, false], [.block "B"], true, false) := by cbv
  cases hrun : attempts sharedAfterLoop unbalanced with
  | mk s lost =>
    rw [hrun] at hshape
    simp only [Prod.mk.injEq] at hshape
    obtain ⟨hopened, hlost, hscoped, hkept⟩ := hshape
    obtain ⟨hindent, hscopes, honce, hfinish, -, -⟩ := in_order_after_calls hrun
    have hlength : s.opened.length = 2 ∧ lost.length = 1 :=
      ⟨by simpa using congrArg List.length hopened, by simpa using congrArg List.length hlost⟩
    have hcount : s.opened.countP (!·.isSwitch) = 1 := by
      simpa [List.countP_map, Function.comp_def] using congrArg (List.countP (!·)) hopened
    obtain ⟨o, rfl, ho⟩ : ∃ o, lost = [o] ∧ o.construct = .block "B" := by
      obtain ⟨o, rest, rfl, ho, hrest⟩ := List.map_eq_cons_iff.1 hlost
      obtain rfl := List.map_eq_nil_iff.1 hrest
      exact ⟨o, rfl, ho⟩
    have hscope : o.isSwitch = false := by
      cases o with
      | switch => cases ho
      | _ => rfl
    refine ⟨s, [o], rfl, hopened, hlost, by omega, ?_, ?_, ?_, ?_⟩
    · rw [hscopes, hcount, List.countP_cons, hscope]
      rfl
    · rw [honce, hscoped]
      rfl
    · rw [honce, hkept]
      rfl
    · rw [hfinish]
      intro hnil
      rw [hnil] at hlength
      cases hlength.1

/-- A method that returns. -/
def returning : Context where
  cls := { name := ⟨"Kernel"⟩ }
  method := { name := "run", params := [], graph := ⟨#[⟨.ret, .void, []⟩]⟩, body := [.ret 0] }

/-- A block is open when a branch is to be finished, and the call fails; the next call succeeds. Nothing
is open then, but the level is not that of the margin and the scope of the block is still there, and the
function can be finished. -/
theorem lost_block_keeps_level_returning :
    ∃ s s', attempts returning [.event (.startBlock ⟨"A", false⟩), .event (.finishIf 2)] =
        ⟨s, [.block ⟨"A", false⟩ false]⟩ ∧
      (EmitterCall.event (.ret 0)).make returning s = .ok () s' ∧ s'.opened = [] ∧ s'.indent = 1 ∧
      s'.scopes.length = 2 ∧ ∃ out, s'.finish returning = .ok out :=
  ⟨_, _, rfl, rfl, rfl, rfl, rfl, _, rfl⟩

end KernelForge.Source
