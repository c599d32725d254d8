import KernelForge.Proofs.Nesting
import KernelForge.Proofs.Pieces

/-!
# Levels of an emitter

Values that are evaluated, bound before a construct or assigned to phis are written as straight
lines at the level that the emitter is on (`SameLevel`): they open and close nothing, and the rows
that bracket, jump or return stay as they are. An event changes the level together with the open
constructs, so that the two always agree (`Leveled`), up to constructs that were taken off without
being closed (`LeveledBeside`).
-/

namespace KernelForge.Source

variable {cx : Context} {s s' : Emitter}

/-- The rows that bracket, jump or return, in order. -/
def Emitter.control (s : Emitter) : List Row :=
  s.rows.filter (!·.line.isStraight)

theorem Emitter.control_write (s : Emitter) (l : Line) :
    (s.write l).control = s.control ++ if l.isStraight then [] else [⟨s.indent, l⟩] := by
  simp only [Emitter.control, Emitter.write, List.filter_append]
  cases hl : l.isStraight <;> simp [hl]

/-- Nothing but straight lines was written between two emitters, and none of them opened or closed
a scope. -/
structure SameLevel (s s' : Emitter) : Prop where
  indent : s'.indent = s.indent
  scopes : s'.scopes.length = s.scopes.length
  control : s'.control = s.control

@[refl] theorem SameLevel.refl (s : Emitter) : SameLevel s s :=
  ⟨rfl, rfl, rfl⟩

theorem SameLevel.trans {s₁ s₂ s₃ : Emitter} (h₁ : SameLevel s₁ s₂) (h₂ : SameLevel s₂ s₃) :
    SameLevel s₁ s₃ :=
  ⟨h₂.indent.trans h₁.indent, h₂.scopes.trans h₁.scopes, h₂.control.trans h₁.control⟩

theorem SameLevel.write (h : SameLevel s s') {l : Line} (hl : l.isStraight = true) :
    SameLevel s (s'.write l) := by
  refine ⟨h.indent, h.scopes, ?_⟩
  rw [Emitter.control_write, if_pos hl, List.append_nil, h.control]

theorem SameLevel.materialize (h : SameLevel s s') (id : NodeId) (ty : Ty) (e : Expr)
    (keep : Bool) : SameLevel s (s'.materialize cx id ty e keep) := by
  have hline : (s'.keepLine cx id ty e keep).isStraight = true := by
    unfold Emitter.keepLine
    split_ifs <;> rfl
  have hwritten := h.write hline
  rw [Emitter.materialize_eq]
  refine ⟨h.indent, ?_, hwritten.control⟩
  dsimp only
  split_ifs
  · exact h.scopes
  · rw [List.length_modifyHead, h.scopes]

theorem Produced.sameLevel {id : NodeId} {node : Node} {args : List Value} {v : Value}
    (h : Produced cx id node args s v s') : SameLevel s s' := by
  have hrender : SameLevel s (s.render id) := ⟨rfl, rfl, rfl⟩
  cases h with
  | inline => exact hrender
  | kept => exact hrender.materialize ..
  | array => exact ⟨rfl, rfl, rfl⟩

theorem Evaluates.sameLevel {ids : List NodeId} {vs : List Value}
    (h : Evaluates cx ids s vs s') : SameLevel s s' := by
  induction h with
  | nil s => exact .refl s
  | known _ _ ih => exact ih
  | render _ _ _ _ hprod _ ihargs ihrest => exact (ihargs.trans hprod.sameLevel).trans ihrest

theorem Binds.sameLevel {unstable ids : List NodeId} (h : Binds cx unstable ids s s') :
    SameLevel s s' := by
  induction h with
  | nil s => exact .refl s
  | known _ _ ih => exact ih
  | now _ _ heval _ ih => exact heval.sameLevel.trans ih
  | pin _ _ ih => exact ⟨ih.indent, ih.scopes, ih.control⟩

theorem Hoists.sameLevel {anchor : Anchor} (h : Hoists cx anchor s s') : SameLevel s s' := by
  cases h with
  | nothing _ h => exact h ▸ .refl s
  | planned _ h => exact ⟨h.sameLevel.indent, h.sameLevel.scopes, h.sameLevel.control⟩

theorem FlowsIn.sameLevel {staged : Bool} {moves : List (NodeId × NodeId)}
    {assignments : List (NodeId × Expr)} (h : FlowsIn cx staged moves s assignments s') :
    SameLevel s s' := by
  induction h with
  | nil s => exact .refl s
  | direct heval _ _ _ ih => exact heval.sameLevel.trans ih
  | @stage _ _ _ s s₁ _ v _ _ heval _ ih =>
    have hcount : SameLevel s s₁.countTemp := heval.sameLevel.trans ⟨rfl, rfl, rfl⟩
    exact (hcount.write rfl).trans ih

theorem Feeds.sameLevel {assignments : List (NodeId × Expr)} (h : Feeds assignments s s') :
    SameLevel s s' := by
  induction h with
  | nil s => exact .refl s
  | cons _ _ ih => exact ((SameLevel.refl _).write rfl).trans ih

theorem Assigns.sameLevel {source : NodeId} (h : Assigns cx source s s') : SameLevel s s' := by
  obtain ⟨_, hin, hfeed⟩ := h
  exact hin.sameLevel.trans hfeed.sameLevel

/-! ### The level and the open constructs -/

/-- The indentation is the number of open constructs and of those that were lost, and every one of
them but a switch has a scope of its own, besides that of the function. -/
structure LeveledBeside (lost : List Open) (s : Emitter) : Prop where
  indent : s.indent = s.opened.length + lost.length
  scopes : s.scopes.length = s.opened.countP (!·.isSwitch) + lost.countP (!·.isSwitch) + 1

/-- No construct was lost. -/
abbrev Leveled := LeveledBeside []

theorem Leveled.indent_eq (h : Leveled s) : s.indent = s.opened.length :=
  h.indent

namespace LeveledBeside

variable {lost : List Open}

theorem congr (h : LeveledBeside lost s) (hindent : s'.indent = s.indent)
    (hscopes : s'.scopes.length = s.scopes.length)
    (hopened : s'.opened.map Open.isSwitch = s.opened.map Open.isSwitch) :
    LeveledBeside lost s' := by
  have hcount : s'.opened.countP (!·.isSwitch) = s.opened.countP (!·.isSwitch) := by
    have hmap := congrArg (List.countP (!·)) hopened
    rwa [List.countP_map, List.countP_map] at hmap
  have hlength : s'.opened.length = s.opened.length := by
    simpa using congrArg List.length hopened
  exact ⟨by rw [hindent, hlength, h.indent], by rw [hscopes, hcount, h.scopes]⟩

/-- Straight lines leave the level of an emitter alone. -/
theorem sameLevel (h : LeveledBeside lost s) (hlevel : SameLevel s s') (hframe : SameFrame s s') :
    LeveledBeside lost s' :=
  h.congr hlevel.indent hlevel.scopes (by rw [hframe.opened])

theorem hoists {anchor : Anchor} (h : LeveledBeside lost s) (hhoist : Hoists cx anchor s s') :
    LeveledBeside lost s' :=
  h.congr hhoist.sameLevel.indent hhoist.sameLevel.scopes (by rw [hhoist.frame.1])

/-- Opening a construct that has a scope. -/
theorem enter {o : Open} (h : LeveledBeside lost s) (ho : o.isSwitch = false) (l : Line) :
    LeveledBeside lost { (s.write l).openScope with opened := o :: s.opened } := by
  constructor
  · simp only [Emitter.write, Emitter.openScope, h.indent, List.length_cons]
    omega
  · simp only [Emitter.write, Emitter.openScope, h.scopes, List.length_cons, List.countP_cons, ho,
      Bool.not_false, if_true]
    omega

/-- Opening a switch, which has no scope. -/
theorem enterSwitch {o : Open} (h : LeveledBeside lost s) (ho : o.isSwitch = true) (l : Line) :
    LeveledBeside lost { s.write l with indent := s.indent + 1, opened := o :: s.opened } := by
  constructor
  · simp only [h.indent, List.length_cons]
    omega
  · simp only [Emitter.write, h.scopes, List.countP_cons, ho, Bool.not_true, Bool.false_eq_true,
      if_false, Nat.add_zero]

/-- The scope of the innermost open construct. -/
theorem exists_scope {o : Open} {os : List Open} (h : LeveledBeside lost s)
    (hopened : s.opened = o :: os) (ho : o.isSwitch = false) :
    ∃ scope rest, s.scopes = scope :: rest ∧
      rest.length = os.countP (!·.isSwitch) + lost.countP (!·.isSwitch) + 1 := by
  have hscopes := h.scopes
  rw [hopened, List.countP_cons, ho] at hscopes
  obtain ⟨scope, rest, hs⟩ : ∃ scope rest, s.scopes = scope :: rest := by
    apply List.exists_cons_of_length_pos
    omega
  rw [hs, List.length_cons] at hscopes
  refine ⟨scope, rest, hs, ?_⟩
  simp only [Bool.not_false, if_true] at hscopes
  omega

theorem closed {o : Open} {os : List Open} (h : LeveledBeside lost s)
    (hopened : s.opened = o :: os) (ho : o.isSwitch = false) : LeveledBeside lost (s.closed os) := by
  obtain ⟨scope, rest, hs, hrest⟩ := h.exists_scope hopened ho
  rw [Emitter.closed, Emitter.closeScope_eq { s with opened := os } hs]
  constructor
  · simp only [Emitter.write, h.indent, hopened, List.length_cons]
    omega
  · exact hrest

/-- Closing one part of a branch and opening the other. -/
theorem swap {id : NodeId} {os : List Open} (h : LeveledBeside lost s)
    (hopened : s.opened = .branch id false :: os) : LeveledBeside lost
      ({ s with opened := .branch id true :: os }.closeScope.write .otherwise).openScope := by
  obtain ⟨scope, rest, hs, hrest⟩ := h.exists_scope hopened rfl
  rw [Emitter.closeScope_eq { s with opened := .branch id true :: os } hs]
  constructor
  · simp only [Emitter.write, Emitter.openScope, h.indent, hopened, List.length_cons]
    omega
  · simp only [Emitter.write, Emitter.openScope, hrest, Open.isSwitch, List.length_cons,
      List.countP_cons, Bool.not_false, if_true]
    omega

/-- Closing a switch. -/
theorem closedSwitch {o : Open} {os : List Open} (h : LeveledBeside lost s)
    (hopened : s.opened = o :: os) (ho : o.isSwitch = true) (l : Line) :
    LeveledBeside lost ({ s with indent := s.indent - 1, opened := os }.write l) := by
  have hindent := h.indent
  have hscopes := h.scopes
  rw [hopened, List.length_cons] at hindent
  rw [hopened, List.countP_cons, ho] at hscopes
  constructor
  · simp only [Emitter.write]
    omega
  · simpa [Emitter.write] using hscopes

/-- A construct that is taken off without being closed is lost. -/
theorem lose {o : Open} {os : List Open} (h : LeveledBeside lost s) (hopened : s.opened = o :: os) :
    LeveledBeside (o :: lost) { s with opened := os } := by
  constructor
  · simp only [h.indent, hopened, List.length_cons]
    omega
  · simp only [h.scopes, hopened, List.countP_cons]
    omega

end LeveledBeside

theorem Emitter.indent_writeDefault (s : Emitter) : (writeDefault s).indent = s.indent := by
  simp [writeDefault, Emitter.write]

theorem Emitted.leveled {e : Event} (h : Emitted cx e s s') (hs : Leveled s) : Leveled s' := by
  cases h with
  | effectKnown => exact hs
  | effectVoid _ _ _ heval =>
    exact hs.sameLevel (heval.sameLevel.write rfl) (heval.sameFrame.write _)
  | effectKept _ _ _ heval => exact hs.sameLevel heval.sameLevel heval.sameFrame
  | @effectFresh id node s s₁ v _ _ _ heval =>
    have hlevel : SameLevel s (s₁.materialize cx id node.ty v.expr false) :=
      heval.sameLevel.materialize ..
    refine hs.congr hlevel.indent hlevel.scopes ?_
    rw [Emitter.materialize_eq, ← heval.sameFrame.opened]
  | ret => exact hs.congr rfl rfl rfl
  | retValue _ heval =>
    exact (hs.sameLevel heval.sameLevel heval.sameFrame).congr rfl rfl rfl
  | @startBlock b s s₁ _ hhoist =>
    have hlabeled : Leveled { s with labels := b.label :: s.labels } := hs.congr rfl rfl rfl
    exact (hlabeled.hoists hhoist).enter rfl _
  | startIf _ heval hhoist =>
    exact ((hs.sameLevel heval.sameLevel heval.sameFrame).hoists hhoist).enter rfl _
  | startSwitch _ heval hhoist =>
    exact ((hs.sameLevel heval.sameLevel heval.sameFrame).hoists hhoist).enterSwitch rfl _
  | @startCase id key hasDefault rest s hopened =>
    have hmarked : Leveled { s with opened := .switch id (hasDefault || key.isNone) :: rest } :=
      hs.congr rfl rfl (by simp [hopened, Open.isSwitch])
    exact hmarked.enter (o := .case id) rfl (.openCase key)
  | startElse hopened => exact hs.swap hopened
  | finishBlock hopened =>
    have hclosed := hs.closed hopened rfl
    split_ifs
    · exact hclosed.congr rfl rfl rfl
    · exact hclosed
  | finishIf hopened => exact hs.closed hopened rfl
  | finishCase hopened => exact LeveledBeside.closed (hs.congr rfl rfl rfl) hopened rfl
  | @finishSwitch id hasDefault rest s s₁ hopened hdefault =>
    have hdefaulted : Leveled s₁ := by
      subst hdefault
      split_ifs
      · exact hs
      · exact hs.congr (Emitter.indent_writeDefault s) rfl rfl
    have hopened₁ : s₁.opened = .switch id hasDefault :: rest := by
      subst hdefault
      split_ifs <;> exact hopened
    exact hdefaulted.closedSwitch hopened₁ rfl _
  | @leave _ label _ _ _ hassign =>
    have hmarked : Leveled { s with opened := markExit label s.opened } :=
      hs.congr rfl rfl (map_isSwitch_markExit label s.opened)
    exact (hmarked.sameLevel hassign.sameLevel hassign.sameFrame).congr rfl rfl rfl
  | again _ _ hassign =>
    exact (hs.sameLevel hassign.sameLevel hassign.sameFrame).congr rfl rfl rfl
  | edge hassign => exact hs.sameLevel hassign.sameLevel hassign.sameFrame

theorem leveled_start : Leveled (Emitter.start cx) := by
  constructor
  · rw [Emitter.indent_start, Emitter.opened_start, List.length_nil]
  · rw [Emitter.scopes_start, Emitter.opened_start, List.length_singleton, List.countP_nil]

theorem leveled_of_run {es : List Event} (hs : Leveled s)
    (h : es.forM (emitEvent cx) s = .ok () s') : Leveled s' := by
  induction es generalizing s with
  | nil =>
    obtain rfl := forM_nil_ok.1 h
    exact hs
  | cons e es ih =>
    obtain ⟨s₁, hevent, hrest⟩ := forM_cons_ok.1 h
    exact ih ((emitted_of_ok hevent).leveled hs) hrest

theorem Reached.leveled {done rest : List Event} (h : Reached cx done rest s) : Leveled s :=
  leveled_of_run leveled_start h.run

end KernelForge.Source
