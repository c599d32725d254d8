import KernelForge.Proofs.Flow
import KernelForge.Proofs.Freshness

/-!
# What each event of a body writes

The text of a body falls into pieces, one for each event. A piece consists of lines that are carried
out one after the other, and of the brackets, jumps or labels that belong to the event. Phis are
assigned at the end of a piece: no line after the first assignment keeps a value or reads a shared
one.
-/

namespace KernelForge.Source

variable {cx : Context} {s s' : Emitter}

namespace Line

/-- A line that is carried out and then followed by the next one. -/
def isStraight : Line → Bool
  | .define _ _ _ _ | .store _ _ _ | .stage _ _ _ | .feed _ _ _ | .effect _ _ => true
  | _ => false

/-- The phi that a line assigns. -/
def fed? : Line → Option NodeId
  | .feed phi _ _ => some phi
  | _ => none

/-- A line that is carried out and assigns no phi. -/
def IsQuiet (l : Line) : Prop :=
  l.isStraight = true ∧ l.fed? = none

theorem IsQuiet.of_isKeep {l : Line} (h : l.isKeep = true) : l.IsQuiet := by
  cases l <;> first | exact ⟨rfl, rfl⟩ | cases h

end Line

/-- Lines that are carried out one after the other. -/
def Straight (lines : List Line) : Prop :=
  ∀ l ∈ lines, l.isStraight = true

/-- Lines that are carried out one after the other and assign no phi. -/
def Quiet (lines : List Line) : Prop :=
  ∀ l ∈ lines, l.IsQuiet

theorem Quiet.straight {lines : List Line} (h : Quiet lines) : Straight lines :=
  fun l hl => (h l hl).1

/-! ### The parts of an event -/

theorem Evaluates.quiet {ids : List NodeId} {vs : List Value} (h : Evaluates cx ids s vs s') :
    Emitter.Adds Line.IsQuiet s s' :=
  Emitter.Adds.mono h.extends.lines fun _ hl => .of_isKeep hl

theorem Binds.quiet {unstable ids : List NodeId} (h : Binds cx unstable ids s s') :
    Emitter.Adds Line.IsQuiet s s' := by
  induction h with
  | nil => exact .of_lines rfl
  | known _ _ ih => exact ih
  | now _ _ heval _ ih => exact heval.quiet.trans ih
  | pin _ _ ih => exact ih

theorem Hoists.quiet {anchor : Anchor} (h : Hoists cx anchor s s') :
    Emitter.Adds Line.IsQuiet s s' := by
  cases h with
  | nothing _ h => exact .of_lines (by rw [h])
  | planned _ h => exact h.quiet

theorem FlowsIn.quiet {staged : Bool} {moves : List (NodeId × NodeId)}
    {assignments : List (NodeId × Expr)} (h : FlowsIn cx staged moves s assignments s') :
    Emitter.Adds Line.IsQuiet s s' := by
  induction h with
  | nil => exact .of_lines rfl
  | direct heval _ _ _ ih => exact heval.quiet.trans ih
  | @stage _ _ _ s s₁ _ v _ _ heval _ ih =>
    have hstage : Emitter.Adds Line.IsQuiet s (s₁.countTemp.write
        (.stage (cx.metadata.declaredType v.ty) (s₁.nextTemp .var) v.expr)) :=
      Emitter.Adds.write heval.quiet ⟨rfl, rfl⟩
    exact hstage.trans ih

theorem FlowsIn.length_eq {staged : Bool} {moves : List (NodeId × NodeId)}
    {assignments : List (NodeId × Expr)} (h : FlowsIn cx staged moves s assignments s') :
    assignments.length = moves.length := by
  induction h with
  | nil => rfl
  | direct _ _ _ _ ih => simp [ih]
  | stage _ _ _ ih => simp [ih]

/-- Each assignment of a phi is one line. -/
theorem Feeds.lines {assignments : List (NodeId × Expr)} (h : Feeds assignments s s') :
    ∃ new, s'.lines = s.lines ++ new ∧ new.length = assignments.length ∧
      ∀ l ∈ new, ∃ a ∈ assignments, ∃ t, l = .feed a.1 t a.2 := by
  induction h with
  | nil => exact ⟨[], by simp⟩
  | @cons phi e rest s s' ty t _ _ ih =>
    obtain ⟨new, hlines, hlength, hnew⟩ := ih
    refine ⟨.feed phi t e :: new, by simp [hlines], by simp [hlength], fun l hl => ?_⟩
    rcases List.mem_cons.1 hl with rfl | hl
    · exact ⟨(phi, e), List.mem_cons_self, t, rfl⟩
    · obtain ⟨a, ha, hfeed⟩ := hnew l hl
      exact ⟨a, List.mem_cons_of_mem _ ha, hfeed⟩

theorem Assigns.straight {source : NodeId} (h : Assigns cx source s s') :
    Emitter.Adds (·.isStraight = true) s s' := by
  obtain ⟨-, hin, hfeed⟩ := h
  obtain ⟨new, hlines, -, hnew⟩ := hfeed.lines
  refine (hin.quiet.mono fun _ hl => hl.1).trans ⟨new, hlines, fun l hl => ?_⟩
  obtain ⟨a, -, t, rfl⟩ := hnew l hl
  rfl

/-! ### The brackets of an event -/

/-- The lines that an event writes while the constructs `os` are open. -/
def Event.Writes (os : List Open) : Event → List Line → Prop
  | .effect _, lines => Quiet lines
  | .edge _, lines => Straight lines
  | .ret _, lines => ∃ init value, Quiet init ∧ lines = init ++ [.ret value]
  | .leave _ label, lines => ∃ init, Straight init ∧ lines = init ++ [.gotoExit label]
  | .again _ label, lines => ∃ init, Straight init ∧ lines = init ++ [.gotoStart label]
  | .startBlock b, lines => ∃ init, Quiet init ∧ lines = init ++ [.openBlock b]
  | .finishBlock b, lines => ∃ b' used rest, os = .block b' used :: rest ∧
      lines = .close :: if used then [.exitMark b.label] else []
  | .startIf _, lines => ∃ init condition, Quiet init ∧ lines = init ++ [.openIf condition]
  | .startElse _, lines => lines = [.otherwise]
  | .finishIf _, lines => lines = [.close]
  | .startSwitch _, lines => ∃ init value, Quiet init ∧ lines = init ++ [.openSwitch value]
  | .startCase _ key, lines => lines = [.openCase key]
  | .finishCase _, lines => lines = [.endCase, .close]
  | .finishSwitch node, lines => ∃ hasDefault rest, os = .switch node hasDefault :: rest ∧
      lines = if hasDefault then [.close] else [.openCase none, .endCase, .close, .close]

/-- Lines with some property, and then one more. -/
theorem Emitter.Adds.followed {P : Line → Prop} {s₁ : Emitter} {l : Line} (h : Adds P s s₁)
    (hl : s'.lines = s₁.lines ++ [l]) :
    ∃ init, (∀ l ∈ init, P l) ∧ s'.lines = s.lines ++ (init ++ [l]) := by
  obtain ⟨init, hlines, hinit⟩ := h
  exact ⟨init, hinit, by rw [hl, hlines, List.append_assoc]⟩

theorem Emitted.writes {e : Event} (h : Emitted cx e s s') :
    ∃ new, s'.lines = s.lines ++ new ∧ Event.Writes s.opened e new := by
  cases h with
  | effectKnown => exact ⟨[], by simp, by simp [Event.Writes, Quiet]⟩
  | effectVoid _ _ _ heval => exact heval.quiet.write ⟨rfl, rfl⟩
  | effectKept _ _ _ heval => exact heval.quiet
  | effectFresh _ _ _ heval =>
    refine heval.quiet.trans ⟨_, Emitter.lines_materialize _ _ _ _ _ _, fun l hl => ?_⟩
    rw [List.mem_singleton.1 hl]
    exact .of_isKeep (Emitter.isKeep_keepLine _ _ _ _ _)
  | ret => exact ⟨_, Emitter.lines_write _ _, [], none, by simp [Quiet], rfl⟩
  | retValue _ heval =>
    obtain ⟨init, hinit, hlines⟩ := heval.quiet.followed (Emitter.lines_write _ _)
    exact ⟨_, hlines, init, _, hinit, rfl⟩
  | @startBlock b s s₁ _ hhoist =>
    obtain ⟨init, hinit, hlines⟩ := hhoist.quiet.followed (s₁.lines_write (.openBlock b))
    exact ⟨_, hlines, init, hinit, rfl⟩
  | @finishBlock b open_ used rest s hopened =>
    refine ⟨_, ?_, open_, used, rest, hopened, rfl⟩
    cases used <;> simp
  | @startIf _ _ s s₁ s₂ v _ heval hhoist =>
    obtain ⟨init, hinit, hlines⟩ :=
      (heval.quiet.trans hhoist.quiet).followed (s₂.lines_write (.openIf v.expr))
    exact ⟨_, hlines, init, _, hinit, rfl⟩
  | @startElse id rest s =>
    refine ⟨_, ?_, rfl⟩
    rw [Emitter.lines_openScope, Emitter.lines_write, Emitter.lines_closeScope]
    rfl
  | finishIf => exact ⟨_, Emitter.lines_closed _ _, rfl⟩
  | @startSwitch _ _ s s₁ s₂ v _ heval hhoist =>
    obtain ⟨init, hinit, hlines⟩ :=
      (heval.quiet.trans hhoist.quiet).followed (s₂.lines_write (.openSwitch v.expr))
    exact ⟨_, hlines, init, _, hinit, rfl⟩
  | @startCase _ key => exact ⟨_, s.lines_write (.openCase key), rfl⟩
  | finishCase => exact ⟨[.endCase, .close], by simp, rfl⟩
  | @finishSwitch id hasDefault rest s s₁ hopened hdefault =>
    refine ⟨_, ?_, hasDefault, rest, hopened, rfl⟩
    have hlines : ({ s₁ with indent := s₁.indent - 1, opened := rest }.write .close).lines =
        s₁.lines ++ [.close] := Emitter.lines_write _ _
    rw [hlines, hdefault]
    cases hasDefault <;> simp [lines_writeDefault]
  | @leave _ label s s₁ _ hassign =>
    obtain ⟨init, hinit, hlines⟩ := hassign.straight.followed (s₁.lines_write (.gotoExit label))
    exact ⟨_, hlines, init, hinit, rfl⟩
  | @again _ label b s s₁ _ _ hassign =>
    obtain ⟨init, hinit, hlines⟩ := hassign.straight.followed (s₁.lines_write (.gotoStart label))
    exact ⟨_, hlines, init, hinit, rfl⟩
  | edge hassign => exact hassign.straight

/-! ### Phis are assigned last -/

/-- A number or a text that is written out. -/
def Expr.isLiteral : Expr → Bool
  | int _ | long _ | float _ | double _ | string _ => true
  | _ => false

theorem Expr.temps_of_isLiteral {e : Expr} (h : e.isLiteral = true) : e.temps = [] := by
  cases e <;> first | rfl | cases h

/-- A constant is written out. -/
theorem isLiteral_of_isConstant {id : NodeId} {node : Node} {args : List Expr} {e : Expr}
    (hconst : node.kind.isConstant = true) (h : cx.express id node args = .ok e) :
    e.isLiteral = true := by
  cases hk : node.kind with
  | int | long | float | double | string =>
    simp only [Context.express, hk, Except.ok.injEq] at h
    rw [← h, Expr.isLiteral]
  | null =>
    simp only [Context.express, hk] at h
    cases h
  | _ =>
    rw [hk] at hconst
    cases hconst

theorem temps_constant {id : NodeId} {node : Node} {args : List Expr} {e : Expr}
    (hconst : node.kind.isConstant = true) (h : cx.express id node args = .ok e) : e.temps = [] :=
  Expr.temps_of_isLiteral (isLiteral_of_isConstant hconst h)

theorem isTrivial_of_isConstant {node : Node} (h : node.kind.isConstant = true) :
    cx.isTrivial node = true := by
  unfold Context.isTrivial
  cases hk : node.kind <;> simp_all [NodeKind.isConstant]

/-- A constant is not shared. -/
theorem isShared_of_isConstant {id : NodeId} {node : Node} (hnode : cx.graph.get? id = some node)
    (hconst : node.kind.isConstant = true) : cx.isShared id = false := by
  simp [Context.isShared, hnode, isTrivial_of_isConstant hconst]

/-- The value of a constant names a temporary only if a line kept it there. -/
theorem Evaluates.constant {id : NodeId} {node : Node} {v : Value} (hs : Numbered cx s)
    (h : Evaluates cx [id] s [v] s') (hnode : cx.graph.get? id = some node)
    (hconst : node.kind.isConstant = true) {t : Temp} (ht : t ∈ v.expr.temps) :
    ∃ l ∈ s'.lines, l.keeps? = some (id, t) := by
  cases h with
  | known hv hrest =>
    cases hrest
    obtain ⟨t', ht', -, hkept⟩ := hs.values hv
    rw [ht', Expr.temps, List.mem_singleton] at ht
    subst ht
    exact hkept (by rw [hnode, Option.any_some, hconst])
  | @render _ node' _ _ _ _ _ _ _ _ _ hnode' _ _ hprod _ =>
    exfalso
    rw [hnode] at hnode'
    obtain rfl := Option.some.inj hnode'
    have hkept : cx.isKept id node = false := by
      have hpure : node.hasSideEffects = false := by
        rw [Node.hasSideEffects]
        cases hk : node.kind <;> simp_all [NodeKind.isConstant, NodeKind.hasSideEffects]
      simp [Context.isKept, hpure, isTrivial_of_isConstant hconst]
    cases hprod with
    | inline he =>
      rw [temps_constant hconst he] at ht
      cases ht
    | kept _ hk | array _ hk =>
      rw [hkept] at hk
      cases hk

/-- What is assigned on an edge with several phis was staged, or it is a constant. -/
theorem FlowsIn.sources {moves : List (NodeId × NodeId)} {assignments : List (NodeId × Expr)}
    (hs : Numbered cx s) (h : FlowsIn cx true moves s assignments s') {a : NodeId × Expr}
    (ha : a ∈ assignments) {t : Temp} (ht : t ∈ a.2.temps) :
    ∃ l ∈ s'.lines, l.introduces? = some t ∧
      ∀ v t', l.keeps? = some (v, t') → cx.isShared v = false := by
  induction h with
  | nil => cases ha
  | @direct phi value rest s s₁ s' v node assignments heval hnode hdirect hrest ih =>
    rcases List.mem_cons.1 ha with rfl | ha
    · have hconst := hdirect rfl
      obtain ⟨l, hl, hkeeps⟩ := heval.constant hs hnode hconst ht
      obtain ⟨new, hlines, -⟩ := hrest.quiet
      refine ⟨l, by rw [hlines]; exact List.mem_append_left _ hl,
        Line.introduces?_of_keeps? hkeeps, fun v' t' hv' => ?_⟩
      obtain ⟨rfl, -⟩ := Prod.mk.inj (Option.some.inj (hkeeps.symm.trans hv'))
      exact isShared_of_isConstant hnode hconst
    · exact ih (hs.evaluate heval).1 ha
  | @stage phi value rest s s₁ s' v assignments _ heval hrest ih =>
    obtain ⟨hs₁, -, hbelow⟩ := hs.evaluate heval
    rcases List.mem_cons.1 ha with rfl | ha
    · obtain rfl : t = s₁.nextTemp .var := by simpa [Expr.temps] using ht
      obtain ⟨new, hlines, -⟩ := hrest.quiet
      refine ⟨.stage (cx.metadata.declaredType v.ty) (s₁.nextTemp .var) v.expr, ?_, rfl,
        fun _ _ hkeeps => by cases hkeeps⟩
      rw [hlines, Emitter.lines_write]
      simp
    · exact ih (hs₁.stage hbelow _) ha

/-- A line that keeps a value, or reads a shared value that one of the lines `text` keeps. -/
def Line.Touches (cx : Context) (text : List Line) (l : Line) : Prop :=
  l.isKeep = true ∨ ∃ l₀ ∈ text, ∃ v t, l₀.keeps? = some (v, t) ∧ cx.isShared v = true ∧ t ∈ l.reads

/-- When phis are assigned, no line after the first assignment keeps a value or reads a shared one. -/
theorem Assigns.calm {source : NodeId} (hs : Numbered cx s) (h : Assigns cx source s s')
    {before after : List Line} {l : Line}
    (hlines : s'.lines = s.lines ++ (before ++ l :: after)) (hl : l.Touches cx s'.lines) :
    ∀ l' ∈ before, l'.fed? = none := by
  have hs' := hs.assigns h
  obtain @⟨moves, _, _, -, hin, hfeed⟩ := h
  obtain ⟨quiet, hquiet, hnone⟩ := hin.quiet
  obtain ⟨feeds, hfeeds, hlength, hform⟩ := hfeed.lines
  have hsplit : before ++ l :: after = quiet ++ feeds := by
    rw [hfeeds, hquiet, List.append_assoc] at hlines
    exact (List.append_cancel_left hlines).symm
  rcases List.append_eq_append_iff.1 hsplit with ⟨rest, rfl, -⟩ | ⟨early, rfl, hlate⟩
  · exact fun l' hl' => (hnone l' (List.mem_append_left _ hl')).2
  · cases early with
    | nil => simpa using fun l' hl' => (hnone l' hl').2
    | cons first early =>
      -- there are several assignments, so what this one reads was staged or is a constant
      exfalso
      have hseveral : decide (1 < moves.length) = true := by
        rw [decide_eq_true_iff, ← hin.length_eq, ← hlength, hlate]
        simp only [List.length_append, List.length_cons]
        omega
      rw [hseveral] at hin
      obtain ⟨a, ha, t', rfl⟩ := hform l (by rw [hlate]; simp)
      obtain hkeep | ⟨l₀, hl₀, v, t, hkeeps, hshared, hread⟩ := hl
      · cases hkeep
      have hread : t ∈ a.2.temps := by simpa [Line.reads, Line.exprs] using hread
      obtain ⟨l₁, hl₁, hintro, hunshared⟩ := hin.sources hs ha hread
      have hl₁ : l₁ ∈ s'.lines := by rw [hfeeds]; exact List.mem_append_left _ hl₁
      obtain rfl := hs'.ordered.unique hl₀ hl₁ (Line.introduces?_of_keeps? hkeeps) hintro
      rw [hunshared v t hkeeps] at hshared
      cases hshared

/-- A jump after the assignments keeps and reads nothing. -/
theorem Assigns.calm_jump {source : NodeId} (hs : Numbered cx s) (h : Assigns cx source s s')
    {before after : List Line} {l jump : Line} (hjump : jump.exprs = []) (hkeep : jump.isKeep = false)
    (hkeeps : jump.keeps? = none)
    (hlines : (s'.write jump).lines = s.lines ++ (before ++ l :: after))
    (hl : l.Touches cx (s'.write jump).lines) : ∀ l' ∈ before, l'.fed? = none := by
  rw [Emitter.lines_write] at hlines hl
  rcases List.eq_nil_or_concat after with rfl | ⟨after, last, rfl⟩
  · have hlast := (List.append_inj' (hlines.trans (List.append_assoc _ _ _).symm) rfl).2
    obtain rfl : jump = l := by simpa using hlast
    obtain hl | ⟨_, _, _, t, _, _, hread⟩ := hl
    · rw [hkeep] at hl
      cases hl
    · simp [Line.reads, hjump] at hread
  · have hsplit : s'.lines ++ [jump] = (s.lines ++ (before ++ l :: after)) ++ [last] := by
      simpa using hlines
    refine h.calm hs (List.append_inj' hsplit rfl).1 (hl.imp_right ?_)
    rintro ⟨l₀, hl₀, v, t, hl₀keeps, hshared⟩
    rcases List.mem_append.1 hl₀ with hl₀ | hl₀
    · exact ⟨l₀, hl₀, v, t, hl₀keeps, hshared⟩
    · rw [List.mem_singleton.1 hl₀, hkeeps] at hl₀keeps
      cases hl₀keeps

/-- In what an event writes, no line after the assignment of a phi keeps a value or reads a shared
one. -/
theorem Emitted.calm {e : Event} (hs : Numbered cx s) (h : Emitted cx e s s')
    {before after : List Line} {l : Line} (hlines : s'.lines = s.lines ++ (before ++ l :: after))
    (hl : l.Touches cx s'.lines) : ∀ l' ∈ before, l'.fed? = none := by
  obtain ⟨new, hnew, hwrites⟩ := h.writes
  obtain rfl : before ++ l :: after = new := List.append_cancel_left (hlines.symm.trans hnew)
  have hnone : ∀ {init tail : List Line}, before ++ l :: after = init ++ tail → Quiet init →
      (∀ l' ∈ tail, l'.fed? = none) → ∀ l' ∈ before, l'.fed? = none := by
    intro init tail heq hinit htail l' hl'
    have hmem : l' ∈ init ++ tail := heq ▸ List.mem_append_left _ hl'
    exact (List.mem_append.1 hmem).elim (fun hmem => (hinit l' hmem).2) (htail l')
  have hnil : Quiet [] := by simp [Quiet]
  cases e with
  | effect => exact fun l' hl' => (hwrites l' (List.mem_append_left _ hl')).2
  | ret | startIf | startSwitch =>
    obtain ⟨init, _, hinit, heq⟩ := hwrites
    exact hnone heq hinit (by simp [Line.fed?])
  | startBlock =>
    obtain ⟨init, hinit, heq⟩ := hwrites
    exact hnone heq hinit (by simp [Line.fed?])
  | startElse | finishIf | startCase | finishCase =>
    exact hnone (hwrites.trans (List.nil_append _).symm) hnil (by simp [Line.fed?])
  | finishBlock =>
    obtain ⟨_, used, _, _, heq⟩ := hwrites
    refine hnone (heq.trans (List.nil_append _).symm) hnil ?_
    cases used <;> simp [Line.fed?]
  | finishSwitch =>
    obtain ⟨hasDefault, _, _, heq⟩ := hwrites
    refine hnone (heq.trans (List.nil_append _).symm) hnil ?_
    cases hasDefault <;> simp [Line.fed?]
  | leave source label =>
    cases h with
    | leave _ hassign =>
      have hopened : Numbered cx { s with opened := markExit label s.opened } :=
        hs.congr rfl rfl fun hv => hv
      exact hassign.calm_jump hopened rfl rfl rfl hlines hl
  | again =>
    cases h with
    | again _ _ hassign => exact hassign.calm_jump hs rfl rfl rfl hlines hl
  | edge =>
    cases h with
    | edge hassign => exact hassign.calm hs hlines hl

/-! ### The pieces of a body -/

/-- The emitter after the first `k` events of the body. -/
def Context.emitterAt (cx : Context) (k : Nat) : Emitter :=
  match ((bodyEvents cx.method.body).take k).forM (emitEvent cx) (Emitter.start cx) with
  | .ok _ s => s
  | .error _ _ => Emitter.start cx

/-- The lines that the event at position `k` writes. -/
def Context.linesAt (cx : Context) (k : Nat) : List Line :=
  (cx.emitterAt (k + 1)).lines.drop (cx.emitterAt k).lines.length

theorem Reached.emitterAt_eq {done rest : List Event} (h : Reached cx done rest s) :
    cx.emitterAt done.length = s := by
  rw [Context.emitterAt, ← h.events, List.take_left, h.run]

theorem Reached.of_append {done mid rest : List Event} (h : Reached cx (done ++ mid) rest s) :
    ∃ s', Reached cx done (mid ++ rest) s' := by
  have hrun := h.run
  rw [List.forM_eq_forM, List.forM_append, Emit.bind_ok] at hrun
  obtain ⟨_, s', hdone, -⟩ := hrun
  exact ⟨s', by rw [← h.events, List.append_assoc], hdone⟩

/-- Only positions of events have lines. -/
theorem event_of_mem_linesAt {k : Nat} {l : Line} (hl : l ∈ cx.linesAt k) :
    ∃ done e rest, done.length = k ∧ done ++ e :: rest = bodyEvents cx.method.body := by
  by_cases hk : k < (bodyEvents cx.method.body).length
  · refine ⟨(bodyEvents cx.method.body).take k, (bodyEvents cx.method.body)[k],
      (bodyEvents cx.method.body).drop (k + 1), ?_, ?_⟩
    · rw [List.length_take, Nat.min_eq_left (Nat.le_of_lt hk)]
    · rw [List.getElem_cons_drop, List.take_append_drop]
  · have hend : cx.emitterAt (k + 1) = cx.emitterAt k := by
      rw [Context.emitterAt, Context.emitterAt, List.take_of_length_le (by omega),
        List.take_of_length_le (by omega)]
    rw [Context.linesAt, hend, List.drop_length] at hl
    cases hl

section pieces

variable (h : Reached cx (bodyEvents cx.method.body) [] s)

include h

theorem Reached.at {done rest : List Event} (hevents : done ++ rest = bodyEvents cx.method.body) :
    Reached cx done rest (cx.emitterAt done.length) := by
  rw [← hevents] at h
  obtain ⟨s', hs'⟩ := h.of_append
  rw [List.append_nil] at hs'
  rwa [hs'.emitterAt_eq]

theorem Reached.emitted_at {done rest : List Event} {e : Event}
    (hevents : done ++ e :: rest = bodyEvents cx.method.body) :
    Emitted cx e (cx.emitterAt done.length) (cx.emitterAt (done.length + 1)) := by
  have hnext : Reached cx (done ++ [e]) rest (cx.emitterAt (done ++ [e]).length) :=
    h.at (by simpa using hevents)
  rw [List.length_append, List.length_singleton] at hnext
  obtain ⟨s₀, hs₀, hemitted⟩ := hnext.of_concat
  rwa [hs₀.emitterAt_eq]

/-- The piece of an event is what it adds to the text. -/
theorem Reached.lines_succ {done rest : List Event} {e : Event}
    (hevents : done ++ e :: rest = bodyEvents cx.method.body) :
    (cx.emitterAt (done.length + 1)).lines =
      (cx.emitterAt done.length).lines ++ cx.linesAt done.length := by
  obtain ⟨new, hlines, -⟩ := (h.emitted_at hevents).writes
  rw [Context.linesAt, hlines, List.drop_left]

/-- The text after some events consists of their pieces. -/
theorem Reached.lines_at {done rest : List Event}
    (hevents : done ++ rest = bodyEvents cx.method.body) :
    (cx.emitterAt done.length).lines = (positions 0 done).flatMap cx.linesAt := by
  induction done using List.reverseRecOn generalizing rest with
  | nil =>
    rw [positions_nil, List.flatMap_nil, ← Emitter.lines_start cx, ← (h.at hevents).emitterAt_eq]
    rfl
  | append_singleton done e ih =>
    rw [List.append_assoc, List.singleton_append] at hevents
    rw [List.length_append, List.length_singleton, h.lines_succ hevents, ih hevents,
      positions_append, List.flatMap_append, Nat.zero_add, positions_cons, positions_nil,
      List.flatMap_cons, List.flatMap_nil, List.append_nil]

/-- The whole text. -/
theorem Reached.lines_eq :
    s.lines = (positions 0 (bodyEvents cx.method.body)).flatMap cx.linesAt := by
  rw [← h.lines_at (List.append_nil _), h.emitterAt_eq]

/-- The lines of a piece have the form that belongs to the event. -/
theorem Reached.writes_at {done rest : List Event} {e : Event}
    (hevents : done ++ e :: rest = bodyEvents cx.method.body) :
    Event.Writes (cx.emitterAt done.length).opened e (cx.linesAt done.length) := by
  obtain ⟨new, hlines, hwrites⟩ := (h.emitted_at hevents).writes
  rwa [Context.linesAt, hlines, List.drop_left]

/-- Whatever an event writes stands in the text after what was written before. -/
theorem Reached.text_at {k : Nat} {l : Line} (hl : l ∈ cx.linesAt k) :
    ∃ after, s.lines = (cx.emitterAt k).lines ++ (cx.linesAt k ++ after) := by
  obtain ⟨done, e, rest, rfl, hevents⟩ := event_of_mem_linesAt hl
  refine ⟨(positions (done.length + 1) rest).flatMap cx.linesAt, ?_⟩
  rw [h.lines_eq, ← hevents, positions_append, List.flatMap_append, Nat.zero_add, positions_cons,
    List.flatMap_cons, h.lines_at hevents]

/-- In a piece, no line after the assignment of a phi keeps a value or reads a shared one. -/
theorem Reached.calm_at {k : Nat} {before after : List Line} {l : Line}
    (hlines : cx.linesAt k = before ++ l :: after) (hl : l.Touches cx s.lines) :
    ∀ l' ∈ before, l'.fed? = none := by
  have hmem : l ∈ cx.linesAt k := by simp [hlines]
  obtain ⟨later, htext⟩ := h.text_at hmem
  have hordered := h.numbered.ordered
  obtain ⟨done, e, rest, rfl, hevents⟩ := event_of_mem_linesAt hmem
  have hsucc := h.lines_succ hevents
  rw [hlines] at hsucc
  refine (h.emitted_at hevents).calm (h.at hevents).numbered hsucc (hl.imp_right ?_)
  rintro ⟨l₀, hl₀, v, t, hkeeps, hshared, hread⟩
  refine ⟨l₀, ?_, v, t, hkeeps, hshared, hread⟩
  -- the line that keeps the value comes before the one that reads it
  have hsplit : s.lines =
      ((cx.emitterAt done.length).lines ++ before) ++ l :: (after ++ later) := by
    rw [htext, hlines]
    simp
  rw [hsplit] at hordered hl₀
  have hbefore := hordered.mem_before hl₀ (Line.introduces?_of_keeps? hkeeps) hread
  rw [hsucc]
  simp only [List.mem_append] at hbefore ⊢
  exact hbefore.imp_right .inl

end pieces

end KernelForge.Source
