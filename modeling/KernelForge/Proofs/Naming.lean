import KernelForge.Proofs.Scoping
import KernelForge.Proofs.Sharing

/-!
# Consumers refer to kept values by name

Every expression of an emitted line is spelled in one way: a node that is kept in a temporary stands
there by its name, any other node by the expression that it becomes. Together with single rendering
this gives every single value one temporary, one line that assigns it, and one spelling wherever it
is used.
-/

namespace KernelForge.Source

variable {cx : Context}

/-! ### Spelling -/

section spelling

variable (cx) (named : NodeId → Temp → Prop)

/-- Expressions of nodes: a kept node by a name, any other node by what it becomes with its operands
spelled. -/
inductive Spells : List NodeId → List Expr → Prop
  | nil : Spells [] []
  | name {id : NodeId} {ids : List NodeId} {t : Temp} {es : List Expr} (hname : named id t)
      (hrest : Spells ids es) : Spells (id :: ids) (.temp t :: es)
  | inline {id : NodeId} {ids : List NodeId} {node : Node} {args es : List Expr} {e : Expr}
      (hnode : cx.graph.get? id = some node) (hkept : cx.isKept id node = false)
      (hargs : Spells (cx.evaluated node) args) (he : cx.express id node args = .ok e)
      (hrest : Spells ids es) : Spells (id :: ids) (e :: es)

/-- A node becomes an expression with its operands spelled. -/
def Becomes (id : NodeId) (e : Expr) : Prop :=
  ∃ node args, cx.graph.get? id = some node ∧ Spells cx named (cx.evaluated node) args ∧
    cx.express id node args = .ok e

/-- The expression of a line is spelled: that of a node that the line is written for, or that of one
of `roots`. A phi may also be assigned from one of the temporaries `staged`. -/
def Line.Spelled (roots : List NodeId) (staged : List Temp) : Line → Prop
  | .define id _ _ e | .store id _ e | .effect id e => Becomes cx named id e
  | .stage _ _ e | .ret (some e) | .openIf e | .openSwitch e =>
    ∃ id ∈ roots, Spells cx named [id] [e]
  | .feed _ _ e => (∃ id ∈ roots, Spells cx named [id] [e]) ∨ ∃ t ∈ staged, e = .temp t
  | _ => True

/-- A line that keeps a node whose operands are spelled. -/
def Line.KeepSpelled : Line → Prop
  | .define id _ _ e | .store id _ e => Becomes cx named id e
  | _ => False

end spelling

/-- The temporary that a line stages a value in. -/
def Line.staged? : Line → Option Temp
  | .stage _ t _ => some t
  | _ => none

/-- Every value that has a name goes by a temporary, and `named` knows it. -/
def Emitter.Names (named : NodeId → Temp → Prop) (s : Emitter) : Prop :=
  ∀ id v, s.value? id = some v → ∃ t, v.expr = .temp t ∧ named id t

section events

variable {named : NodeId → Temp → Prop} {s s' : Emitter}

theorem Line.KeepSpelled.spelled {l : Line} (h : l.KeepSpelled cx named) (roots : List NodeId)
    (staged : List Temp) : l.Spelled cx named roots staged := by
  cases l <;> first | exact h | cases h

theorem Line.Spelled.mono {l : Line} {roots roots' : List NodeId} {staged staged' : List Temp}
    (h : l.Spelled cx named roots staged) (hroots : roots ⊆ roots') (hstaged : staged ⊆ staged') :
    l.Spelled cx named roots' staged' := by
  have hspells : ∀ {e}, (∃ id ∈ roots, Spells cx named [id] [e]) →
      ∃ id ∈ roots', Spells cx named [id] [e] :=
    fun ⟨id, hid, he⟩ => ⟨id, hroots hid, he⟩
  cases l with
  | stage | openIf | openSwitch => exact hspells h
  | ret value =>
    cases value with
    | none => exact h
    | some e => exact hspells h
  | feed => exact h.imp hspells fun ⟨t, ht, he⟩ => ⟨t, hstaged ht, he⟩
  | _ => exact h

theorem Emitter.Names.of_extends (hnames : s'.Names named) (h : Extends cx s s') :
    s.Names named :=
  fun id v hv => hnames id v (h.names hv)

theorem Spells.cons {id : NodeId} {ids : List NodeId} {e : Expr} {es : List Expr}
    (h : Spells cx named [id] [e]) (hrest : Spells cx named ids es) :
    Spells cx named (id :: ids) (e :: es) := by
  cases h with
  | name hname _ => exact .name hname hrest
  | inline hnode hkept hargs he _ => exact .inline hnode hkept hargs he hrest

theorem adds_materialize {id : NodeId} {e : Expr} (h : Becomes cx named id e) (s : Emitter)
    (ty : Ty) (keep : Bool) :
    Emitter.Adds (Line.KeepSpelled cx named) s (s.materialize cx id ty e keep) := by
  refine ⟨[s.keepLine cx id ty e keep], s.lines_materialize cx id ty e keep, fun l hl => ?_⟩
  rw [List.mem_singleton.1 hl]
  unfold Emitter.keepLine
  split <;> exact h

/-- A rendered node is spelled, and so is the line that keeps it. -/
theorem Produced.spelled {id : NodeId} {node : Node} {args : List Value} {v : Value}
    (h : Produced cx id node args s v s') (hnode : cx.graph.get? id = some node)
    (hargs : Spells cx named (cx.evaluated node) (args.map Value.expr))
    (hnames : s'.Names named) :
    Spells cx named [id] [v.expr] ∧ Emitter.Adds (Line.KeepSpelled cx named) s s' := by
  cases h with
  | inline he hk => exact ⟨.inline hnode hk hargs he .nil, .of_lines rfl⟩
  | @kept e he hk =>
    have hbecomes : Becomes cx named id e := ⟨node, _, hnode, hargs, he⟩
    obtain ⟨t, ht, hname⟩ := hnames id _ (by rw [Emitter.value?_materialize, if_pos rfl])
    obtain rfl := Expr.temp.inj ht
    exact ⟨.name hname .nil, (Emitter.Adds.of_lines rfl).trans (adds_materialize hbecomes _ _ _)⟩
  | array hkind hk =>
    obtain ⟨t, ht, hname⟩ := hnames id _ (by rw [Emitter.value?_bind, if_pos rfl])
    obtain rfl := Expr.temp.inj ht
    exact ⟨.name hname .nil, .of_lines rfl⟩

/-- The values of evaluated nodes are spelled, and so are the lines written for them. -/
theorem Evaluates.spelled {ids : List NodeId} {vs : List Value} (h : Evaluates cx ids s vs s')
    (hnames : s'.Names named) :
    Spells cx named ids (vs.map Value.expr) ∧
      Emitter.Adds (Line.KeepSpelled cx named) s s' := by
  induction h with
  | nil s => exact ⟨.nil, .of_lines rfl⟩
  | known hv hrest ih =>
    obtain ⟨hspells, hlines⟩ := ih hnames
    obtain ⟨t, ht, hname⟩ := hnames _ _ (hrest.value?_of_some hv)
    rw [List.map_cons, ht]
    exact ⟨.name hname hspells, hlines⟩
  | @render id node rest s s₁ s₂ s' args v vs hv hnode hargs hv₁ hprod hrest ihargs ihrest =>
    have hnames₂ : s₂.Names named := hnames.of_extends hrest.extends
    obtain ⟨hargsSpelled, hlines₁⟩ := ihargs (hnames₂.of_extends (hprod.extends hnode hv₁))
    obtain ⟨hspells, hlines₂⟩ := hprod.spelled hnode hargsSpelled hnames₂
    obtain ⟨hrestSpelled, hlines₃⟩ := ihrest hnames
    exact ⟨hspells.cons hrestSpelled, (hlines₁.trans hlines₂).trans hlines₃⟩

/-- A node that was rendered and not kept stands for what it becomes. -/
theorem Evaluates.becomes {id : NodeId} {node : Node} {v : Value}
    (h : Evaluates cx [id] s [v] s') (hv : s.value? id = none)
    (hnode : cx.graph.get? id = some node) (hkept : cx.isKept id node = false)
    (hnames : s'.Names named) : Becomes cx named id v.expr := by
  cases h with
  | known hv' _ =>
    rw [hv] at hv'
    cases hv'
  | @render _ node' _ _ s₁ _ _ _ _ _ _ hnode' hargs hv₁ hprod hrest =>
    obtain rfl := Option.some.inj (hnode'.symm.trans hnode)
    cases hrest
    obtain ⟨hargsSpelled, _⟩ := hargs.spelled (hnames.of_extends (hprod.extends hnode hv₁))
    cases hprod with
    | inline he _ => exact ⟨node', _, hnode, hargsSpelled, he⟩
    | kept _ hk | array _ hk =>
      rw [hkept] at hk
      cases hk

/-! ### Every event -/

theorem Binds.extends_names {unstable ids : List NodeId} (h : Binds cx unstable ids s s')
    (hnames : s'.Names named) : s.Names named := by
  induction h with
  | nil => exact hnames
  | known _ _ ih => exact ih hnames
  | now _ _ heval _ ih => exact (ih hnames).of_extends heval.extends
  | pin _ _ ih => exact ih hnames

theorem Binds.spelled {unstable ids : List NodeId} (h : Binds cx unstable ids s s')
    (hnames : s'.Names named) : Emitter.Adds (Line.KeepSpelled cx named) s s' := by
  induction h with
  | nil => exact .of_lines rfl
  | known _ _ ih => exact ih hnames
  | now _ _ heval hrest ih => exact (heval.spelled (hrest.extends_names hnames)).2.trans (ih hnames)
  | pin _ _ ih => exact ih hnames

theorem Hoists.spelled {anchor : Anchor} (h : Hoists cx anchor s s') (hnames : s'.Names named) :
    Emitter.Adds (Line.KeepSpelled cx named) s s' ∧ s.Names named := by
  cases h with
  | nothing _ h =>
    subst h
    exact ⟨.of_lines rfl, hnames⟩
  | planned _ h => exact ⟨h.spelled hnames, h.extends_names hnames⟩

theorem FlowsIn.extends_names {staged : Bool} {moves : List (NodeId × NodeId)}
    {assignments : List (NodeId × Expr)} (h : FlowsIn cx staged moves s assignments s')
    (hnames : s'.Names named) : s.Names named := by
  induction h with
  | nil => exact hnames
  | direct heval _ _ _ ih => exact (ih hnames).of_extends heval.extends
  | @stage _ _ _ s s₁ _ _ _ _ heval _ ih =>
    have hnames₁ : s₁.Names named := ih hnames
    exact hnames₁.of_extends heval.extends

/-- The values that flow into phis are spelled, or they are staged first. -/
theorem FlowsIn.spelled {staged : Bool} {moves : List (NodeId × NodeId)}
    {assignments : List (NodeId × Expr)} {roots : List NodeId} {temps : List Temp}
    (h : FlowsIn cx staged moves s assignments s') (hnames : s'.Names named)
    (hroots : ∀ m ∈ moves, m.2 ∈ roots)
    (htemps : ∀ {type t e}, .stage type t e ∈ s'.lines → t ∈ temps) :
    Emitter.Adds (Line.Spelled cx named roots temps) s s' ∧
      ∀ a ∈ assignments, (∃ id ∈ roots, Spells cx named [id] [a.2]) ∨ ∃ t ∈ temps, a.2 = .temp t := by
  induction h with
  | nil => exact ⟨.of_lines rfl, by simp⟩
  | @direct phi value rest s s₁ s' v node assignments heval _ _ hrest ih =>
    obtain ⟨hlines, hassigned⟩ :=
      ih hnames (fun m hm => hroots m (List.mem_cons_of_mem _ hm)) htemps
    obtain ⟨hspells, hkeeps⟩ := heval.spelled (hrest.extends_names hnames)
    refine ⟨(hkeeps.mono fun l hl => hl.spelled _ _).trans hlines, fun a ha => ?_⟩
    rcases List.mem_cons.1 ha with rfl | ha
    · exact .inl ⟨value, hroots _ List.mem_cons_self, hspells⟩
    · exact hassigned a ha
  | @stage phi value rest s s₁ s' v assignments _ heval hrest ih =>
    obtain ⟨hlines, hassigned⟩ :=
      ih hnames (fun m hm => hroots m (List.mem_cons_of_mem _ hm)) htemps
    obtain ⟨hspells, hkeeps⟩ := heval.spelled (hrest.extends_names hnames)
    have hstage : Line.Spelled cx named roots temps
        (.stage (cx.metadata.declaredType v.ty) (s₁.nextTemp .var) v.expr) :=
      ⟨value, hroots _ List.mem_cons_self, hspells⟩
    refine ⟨((hkeeps.mono fun l hl => hl.spelled _ _).trans
      ((Emitter.Adds.of_lines rfl).write hstage)).trans hlines, fun a ha => ?_⟩
    rcases List.mem_cons.1 ha with rfl | ha
    · refine .inr ⟨_, @htemps (cx.metadata.declaredType v.ty) _ v.expr ?_, rfl⟩
      obtain ⟨new, hnew, _⟩ := hlines
      rw [hnew, Emitter.lines_write]
      simp
    · exact hassigned a ha

theorem Feeds.spelled {assignments : List (NodeId × Expr)} {roots : List NodeId}
    {temps : List Temp} (h : Feeds assignments s s')
    (hassigned : ∀ a ∈ assignments,
      (∃ id ∈ roots, Spells cx named [id] [a.2]) ∨ ∃ t ∈ temps, a.2 = .temp t) :
    Emitter.Adds (Line.Spelled cx named roots temps) s s' := by
  induction h with
  | nil => exact .of_lines rfl
  | @cons phi e rest s s' ty t hv hrest ih =>
    have hfeed : Line.Spelled cx named roots temps (.feed phi t e) :=
      hassigned _ List.mem_cons_self
    exact ((Emitter.Adds.of_lines rfl).write hfeed).trans
      (ih fun a ha => hassigned a (List.mem_cons_of_mem _ ha))

theorem Feeds.lines_subset {assignments : List (NodeId × Expr)} (h : Feeds assignments s s') :
    s.lines ⊆ s'.lines := by
  induction h with
  | nil => exact List.Subset.refl _
  | cons _ _ ih =>
    intro l hl
    refine ih ?_
    rw [Emitter.lines_write]
    exact List.mem_append_left _ hl

theorem Assigns.spelled {source : NodeId} {temps : List Temp} (h : Assigns cx source s s')
    (hnames : s'.Names named) (htemps : ∀ {type t e}, .stage type t e ∈ s'.lines → t ∈ temps) :
    Emitter.Adds (Line.Spelled cx named (Survey.phiInputs cx.graph source) temps) s s' := by
  obtain ⟨hmoves, hin, hfeed⟩ := h
  have hnames₁ : Emitter.Names named _ := fun id v hv =>
    hnames id v ((hfeed.sameMemory.value? id).trans hv)
  obtain ⟨hlines, hassigned⟩ := hin.spelled hnames₁
    (fun m hm => (mem_phiInputs_of_move hmoves hm).1) fun hl => htemps (hfeed.lines_subset hl)
  exact hlines.trans (hfeed.spelled hassigned)

/-- Every line that an event writes is spelled. -/
theorem Emitted.spelled {e : Event} {temps : List Temp} (h : Emitted cx e s s')
    (hnames : s'.Names named) (htemps : ∀ {type t e}, .stage type t e ∈ s'.lines → t ∈ temps) :
    Emitter.Adds (Line.Spelled cx named (e.roots cx) temps) s s' := by
  have hkeep : ∀ {s s' : Emitter}, Emitter.Adds (Line.KeepSpelled cx named) s s' →
      Emitter.Adds (Line.Spelled cx named (e.roots cx) temps) s s' :=
    fun h => h.mono fun l hl => hl.spelled _ _
  have hwritten : ∀ {s : Emitter} {l : Line} {type : String} {t : Temp} {e : Expr},
      .stage type t e ∈ s.lines → .stage type t e ∈ (s.write l).lines := by
    intro s l type t e hl
    rw [Emitter.lines_write]
    exact List.mem_append_left _ hl
  cases h with
  | effectKnown => exact .of_lines rfl
  | @effectVoid id node s s₁ v hv hnode hvoid heval =>
    have hnames₁ : s₁.Names named := hnames
    have hkept : cx.isKept id node = false := by simp [Context.isKept, hvoid]
    exact (hkeep (heval.spelled hnames₁).2).write
      (heval.becomes hv hnode hkept hnames₁ : Becomes cx named id v.expr)
  | effectKept _ _ _ heval => exact hkeep (heval.spelled hnames).2
  | @effectFresh id node s s₁ v hv hnode hvoid heval hv₁ =>
    have hextends : ∀ {j w}, s₁.value? j = some w →
        (s₁.materialize cx id node.ty v.expr false).value? j = some w := by
      intro j w hj
      rw [Emitter.value?_materialize, if_neg, hj]
      rintro rfl
      rw [hv₁] at hj
      cases hj
    have hnames₁ : s₁.Names named := fun j w hj => hnames j w (hextends hj)
    have hbecomes := heval.becomes hv hnode (heval.isKept_of_value? hnode hv₁) hnames₁
    exact (hkeep (heval.spelled hnames₁).2).trans (hkeep (adds_materialize hbecomes _ _ _))
  | ret => exact (Emitter.Adds.of_lines rfl).write trivial
  | @retValue id value s s₁ v hops heval =>
    have hnames₁ : s₁.Names named := hnames
    obtain ⟨hspells, hlines⟩ := heval.spelled hnames₁
    refine (hkeep hlines).write ⟨value, ?_, hspells⟩
    simp [Event.roots, hops]
  | @startBlock b s s₁ _ hhoist =>
    have hnames₁ : s₁.Names named := hnames
    have hlines := hkeep (hhoist.spelled hnames₁).1
    exact ((Emitter.Adds.of_lines rfl).trans hlines).trans
      ((Emitter.Adds.of_lines rfl).write (l := .openBlock b) trivial)
  | @finishBlock b open_ used rest s _ _ =>
    have hclosed : Emitter.Adds (Line.Spelled cx named [] temps) s (s.closed rest) :=
      ⟨[.close], s.lines_closed rest, by simp [Line.Spelled]⟩
    cases used with
    | true => exact hclosed.write trivial
    | false => exact hclosed
  | @startIf id c s s₁ s₂ v hops heval hhoist =>
    have hnames₂ : s₂.Names named := hnames
    obtain ⟨hhoisted, hnames₁⟩ := hhoist.spelled hnames₂
    obtain ⟨hspells, hlines⟩ := heval.spelled hnames₁
    have hif : Line.Spelled cx named ((Event.startIf id).roots cx) temps (.openIf v.expr) :=
      ⟨c, by simp [Event.roots, hops], hspells⟩
    exact ((hkeep hlines).trans (hkeep hhoisted)).trans ((Emitter.Adds.of_lines rfl).write hif)
  | startElse =>
    refine ⟨[.otherwise], ?_, by simp [Line.Spelled]⟩
    rw [Emitter.lines_openScope, Emitter.lines_write, Emitter.lines_closeScope]
    rfl
  | @finishIf id inElse rest s _ => exact ⟨[.close], s.lines_closed rest, by simp [Line.Spelled]⟩
  | @startSwitch id c s s₁ s₂ v hops heval hhoist =>
    have hnames₂ : s₂.Names named := hnames
    obtain ⟨hhoisted, hnames₁⟩ := hhoist.spelled hnames₂
    obtain ⟨hspells, hlines⟩ := heval.spelled hnames₁
    have hswitch : Line.Spelled cx named ((Event.startSwitch id).roots cx) temps
        (.openSwitch v.expr) := ⟨c, by simp [Event.roots, hops], hspells⟩
    exact ((hkeep hlines).trans (hkeep hhoisted)).trans
      ((Emitter.Adds.of_lines rfl).write hswitch)
  | @startCase id key _ _ s _ =>
    exact ⟨[.openCase key], s.lines_write (.openCase key), by simp [Line.Spelled]⟩
  | @finishCase id rest s _ =>
    exact ⟨[.endCase, .close], by simp, by simp [Line.Spelled]⟩
  | @finishSwitch id hasDefault rest s s₁ _ hdefault =>
    have hlines : Emitter.Adds (Line.Spelled cx named [] temps) s s₁ := by
      subst hdefault
      cases hasDefault with
      | true => exact .of_lines rfl
      | false => exact ⟨_, lines_writeDefault s, by simp [Line.Spelled]⟩
    exact hlines.trans ⟨[.close], by simp [Emitter.lines, Emitter.write], by simp [Line.Spelled]⟩
  | @leave source label s s₁ _ hassign =>
    have hspelled : Emitter.Adds _ s s₁ := (Emitter.Adds.of_lines rfl).trans
      (hassign.spelled hnames fun hl => htemps (hwritten hl))
    exact hspelled.write trivial
  | again _ _ hassign =>
    exact (hassign.spelled hnames fun hl => htemps (hwritten hl)).write trivial
  | edge hassign => exact hassign.spelled hnames htemps

end events

/-! ### One name for the whole replay -/

/-- Of the nodes that are kept, a later state names only those that an earlier one named alike and
those rendered in between. -/
structure Follows (cx : Context) (s s' : Emitter) : Prop where
  rendered : ∀ id, s.rendered.count id ≤ s'.rendered.count id
  named : ∀ id v, cx.keeps id → s'.value? id = some v →
    s.value? id = some v ∨ s.rendered.count id < s'.rendered.count id

namespace Follows

variable {s s' s₁ s₂ : Emitter}

theorem of_values (hrendered : s'.rendered = s.rendered)
    (h : ∀ id v, cx.keeps id → s'.value? id = some v → s.value? id = some v) : Follows cx s s' :=
  ⟨fun _ => Nat.le_of_eq (by rw [hrendered]), fun id v hid hv => .inl (h id v hid hv)⟩

theorem refl (s : Emitter) : Follows cx s s :=
  .of_values rfl fun _ _ _ hv => hv

theorem trans (h₁ : Follows cx s s₁) (h₂ : Follows cx s₁ s₂) : Follows cx s s₂ := by
  refine ⟨fun id => Nat.le_trans (h₁.rendered id) (h₂.rendered id), fun id v hid hv => ?_⟩
  rcases h₂.named id v hid hv with hv₁ | hlt
  · exact (h₁.named id v hid hv₁).imp_right fun hlt => Nat.lt_of_lt_of_le hlt (h₂.rendered id)
  · exact .inr (Nat.lt_of_le_of_lt (h₁.rendered id) hlt)

theorem of_sameMemory (h : SameMemory s s') : Follows cx s s' :=
  .of_values h.rendered fun id _ _ hv => (h.value? id).symm.trans hv

theorem of_evaluates {ids : List NodeId} {vs : List Value} (h : Evaluates cx ids s vs s') :
    Follows cx s s' := by
  obtain ⟨new, hnew⟩ := h.renders
  refine ⟨fun id => by rw [hnew.rendered, List.count_append]; omega, fun id v _ hv => ?_⟩
  cases hs : s.value? id with
  | some w => exact .inl ((h.value?_of_some hs).symm.trans hv)
  | none =>
    right
    have hpos : 0 < new.count id := List.count_pos_iff.2 (hnew.fresh id v hs hv).1
    rw [hnew.rendered, List.count_append]
    omega

theorem of_act {plan : Plan} {e : Event} (h : Act cx plan e s s') : Follows cx s s' := by
  cases h with
  | evaluate _ heval => exact of_evaluates heval
  | bind _ _ _ heval => exact of_evaluates heval
  | @pin id _ _ _ _ hsame =>
    have hpinned : Follows cx s { s with pinned := id :: s.pinned } :=
      .of_values rfl fun _ _ _ hv => hv
    exact hpinned.trans (of_sameMemory hsame)
  | @fresh id node _ _ _ hnode hkept _ hv =>
    refine .of_values (by rw [Emitter.materialize_eq]) fun j w hj hw => ?_
    rw [Emitter.value?_materialize, if_neg] at hw
    · exact hw
    · rintro rfl
      rw [Context.keeps, hnode, Option.any_some, hkept] at hj
      cases hj
  | note hsame => exact of_sameMemory hsame

theorem closeScope (s : Emitter) : Follows cx s s.closeScope := by
  refine .of_values ?_ fun _ _ _ hv => s.value?_of_closeScope hv
  unfold Emitter.closeScope
  split <;> rfl

theorem change (s : Emitter) (c : ScopeChange) : Follows cx s (s.change c) := by
  have hopen : ∀ s : Emitter, Follows cx s s.openScope := fun s => .of_values rfl fun _ _ _ hv => hv
  cases c with
  | keep => exact .refl s
  | enter => exact hopen s
  | leave => exact closeScope s
  | swap => exact (closeScope s).trans (hopen _)

theorem of_emitted {e : Event} (h : Emitted cx e s s') : Follows cx s s' := by
  obtain ⟨m, hacts, -, hsame⟩ := h.acts
  have hm : Follows cx s m := by
    clear hsame
    induction hacts with
    | refl => exact .refl s
    | tail _ hact ih => exact ih.trans (of_act hact)
  exact (hm.trans (change m _)).trans (of_sameMemory hsame)

end Follows

theorem Reached.follows {done mid rest rest' : List Event} {s s' : Emitter}
    (h : Reached cx done rest s) (h' : Reached cx (done ++ mid) rest' s') : Follows cx s s' := by
  induction mid using List.reverseRecOn generalizing rest' s' with
  | nil =>
    have hrun := h'.run
    rw [List.append_nil, h.run] at hrun
    cases hrun
    exact .refl s
  | append_singleton mid e ih =>
    rw [← List.append_assoc] at h'
    obtain ⟨s₁, h₁, hevent⟩ := h'.of_concat
    exact (ih h₁).trans (.of_emitted hevent)

/-- At some point of the replay the value of a node goes by a temporary. -/
def Named (cx : Context) (id : NodeId) (t : Temp) : Prop :=
  ∃ done rest s ty, Reached cx done rest s ∧ s.value? id = some ⟨ty, .temp t⟩

theorem Reached.names {done rest : List Event} {s : Emitter} (h : Reached cx done rest s) :
    s.Names (Named cx) := by
  rintro id ⟨ty, e⟩ hv
  obtain ⟨bs, hs⟩ := h.scopedBy
  obtain ⟨t, ht, _⟩ := hs.bound hv
  obtain rfl : e = .temp t := ht
  exact ⟨t, rfl, done, rest, s, ty, h, hv⟩

/-- At every point of a replay every line is spelled. -/
theorem Reached.spelled {done rest : List Event} {s : Emitter} (h : Reached cx done rest s) :
    ∀ l ∈ s.lines, l.Spelled cx (Named cx) (done.flatMap (Event.roots cx))
      (s.lines.filterMap Line.staged?) := by
  induction done using List.reverseRecOn generalizing rest s with
  | nil =>
    obtain rfl := forM_nil_ok.1 h.run
    rw [Emitter.lines_start]
    simp
  | append_singleton done e ih =>
    obtain ⟨s₀, h₀, hevent⟩ := h.of_concat
    have hadds : Emitter.Adds (Line.Spelled cx (Named cx) (e.roots cx)
        (s.lines.filterMap Line.staged?)) s₀ s :=
      hevent.spelled h.names fun hl => List.mem_filterMap.2 ⟨_, hl, rfl⟩
    have hsubset : s₀.lines ⊆ s.lines := by
      obtain ⟨new, hlines, _⟩ := hadds
      rw [hlines]
      exact List.subset_append_left _ _
    intro l hl
    rcases hadds.of_mem hl with hl | hl
    · refine (ih h₀ l hl).mono ?_ (List.filterMap_subset _ hsubset)
      rw [List.flatMap_append]
      exact List.subset_append_left _ _
    · refine hl.mono ?_ (List.Subset.refl _)
      rw [List.flatMap_append, List.flatMap_singleton]
      exact List.subset_append_right _ _

/-- A single value that has a name was rendered. -/
theorem Reached.mem_rendered {done rest : List Event} {s : Emitter} (h : Reached cx done rest s)
    {id : NodeId} {v : Value} (hsingle : cx.isSingle id) (hv : s.value? id = some v) :
    0 < s.rendered.count id := by
  have hstart : Reached cx [] (bodyEvents cx.method.body) (Emitter.start cx) := ⟨rfl, rfl⟩
  rcases (hstart.follows h).named id v (keeps_of_isSingle hsingle) hv with hv | hlt
  · obtain ⟨phi, hphi, rfl, _⟩ := Emitter.value?_start hv
    have hnode := get?_of_mem_phis hphi
    have hpure := isEffect_of_mem_phis hphi
    simp [Context.isSingle, Context.isShared, hpure, hnode, NodeKind.isPhi,
      Node.hasSideEffects, NodeKind.hasSideEffects] at hsingle
  · exact Nat.lt_of_le_of_lt (Nat.zero_le _) hlt

/-- Two points of a replay follow each other. -/
theorem Reached.prefix_or {done rest done' rest' : List Event} {s s' : Emitter}
    (h : Reached cx done rest s) (h' : Reached cx done' rest' s') :
    (∃ mid, done' = done ++ mid) ∨ ∃ mid, done = done' ++ mid := by
  have hsame : done ++ rest = done' ++ rest' := h.events.trans h'.events.symm
  rcases List.append_eq_append_iff.1 hsame with ⟨mid, hmid, _⟩ | ⟨mid, hmid, _⟩
  · exact .inl ⟨mid, hmid⟩
  · exact .inr ⟨mid, hmid⟩

/-- A single value has the same name at two points of a replay. -/
theorem Reached.value?_unique (hdistinct : Distinct cx.method.body)
    {done mid rest rest' : List Event} {s s' : Emitter} (h : Reached cx done rest s)
    (h' : Reached cx (done ++ mid) rest' s') {id : NodeId} {v v' : Value}
    (hsingle : cx.isSingle id) (hv : s.value? id = some v) (hv' : s'.value? id = some v') :
    v = v' := by
  rcases (h.follows h').named id v' (keeps_of_isSingle hsingle) hv' with hsame | hlt
  · exact Option.some.inj (hv.symm.trans hsame)
  · -- a second name would go with a second rendering
    obtain ⟨_, levels, _, honce⟩ := h'.renderedOnce hdistinct
    have hpos := h.mem_rendered hsingle hv
    have hle := honce.once id hsingle
    omega

theorem named_unique (hdistinct : Distinct cx.method.body) {id : NodeId} {t t' : Temp}
    (hsingle : cx.isSingle id) (h : Named cx id t) (h' : Named cx id t') : t = t' := by
  obtain ⟨done, rest, s, ty, hs, hv⟩ := h
  obtain ⟨done', rest', s', ty', hs', hv'⟩ := h'
  rcases hs.prefix_or hs' with ⟨mid, rfl⟩ | ⟨mid, rfl⟩
  · exact Expr.temp.inj (Value.mk.inj (hs.value?_unique hdistinct hs' hsingle hv hv')).2
  · exact (Expr.temp.inj (Value.mk.inj (hs'.value?_unique hdistinct hs hsingle hv' hv)).2).symm

theorem Spells.name_of_isSingle {named : NodeId → Temp → Prop} {id : NodeId} {e : Expr}
    (h : Spells cx named [id] [e]) (hsingle : cx.isSingle id) : ∃ t, e = .temp t ∧ named id t := by
  cases h with
  | name hname _ => exact ⟨_, rfl, hname⟩
  | inline hnode hkept _ _ _ =>
    have hkeeps := keeps_of_isSingle hsingle
    rw [Context.keeps, hnode, Option.any_some, hkept] at hkeeps
    cases hkeeps

/-- The labels of a body are distinct, or its replay succeeds. -/
def Labelled (cx : Context) : Prop :=
  ((bodyEvents cx.method.body).filterMap Event.label?).Nodup ∨
    ∃ s, (replay (emitEvent cx) cx.method.body).run (Emitter.start cx) = .ok () s

/-- A replay that meets a label twice stops there. -/
theorem Labelled.distinct (h : Labelled cx)
    (hchoices : ((bodyEvents cx.method.body).filterMap Event.choice?).Nodup) :
    Distinct cx.method.body := by
  refine nodup_anchors ?_ hchoices
  rcases h with hlabels | ⟨s, hrun⟩
  · exact hlabels
  · obtain ⟨hlabels, hnodup⟩ := (replay_ok_iff.1 hrun).labels
    rw [hlabels, List.nodup_reverse] at hnodup
    exact hnodup

/-- If no control node of a branch or switch occurs twice and the labels are distinct or the replay
succeeds, single values are rendered once at most at every point of the replay and kept by one line at
most; over the whole replay such a value goes by one temporary; and every line spells it by that
temporary. -/
theorem single_values_rendered_once
    (hchoices : ((bodyEvents cx.method.body).filterMap Event.choice?).Nodup)
    (hlabelled : Labelled cx) {done rest : List Event} {s : Emitter}
    (h : Reached cx done rest s) :
    (∀ id, cx.isSingle id → s.rendered.count id ≤ 1 ∧ s.kept.count id ≤ 1) ∧
      (∀ id t t', cx.isSingle id → Named cx id t → Named cx id t' → t = t') ∧
      (∀ l ∈ s.lines, l.Spelled cx (Named cx) (done.flatMap (Event.roots cx))
        (s.lines.filterMap Line.staged?)) ∧
      ∀ id e, cx.isSingle id → Spells cx (Named cx) [id] [e] → ∃ t, e = .temp t ∧ Named cx id t := by
  have hdistinct := hlabelled.distinct hchoices
  obtain ⟨_, levels, _, honce⟩ := h.renderedOnce hdistinct
  refine ⟨fun id hid => ⟨honce.once id hid, ?_⟩, fun id t t' hid => named_unique hdistinct hid,
    h.spelled, fun id e hid hspells => hspells.name_of_isSingle hid⟩
  exact Nat.le_trans (honce.kept id hid) (honce.once id hid)

/-- A sum that both arms of a branch and the statement after it use. -/
def sharedInArms : Context where
  cls := { name := ⟨"Kernel"⟩ }
  method :=
    { name := "run"
      params := [⟨"n", .int⟩, ⟨"xs", .array .int⟩]
      graph := ⟨#[.param 0 .int, .param 1 (.array .int), .int 0, ⟨.binary .add, .int, [0, 0]⟩,
        .arrayStore 1 2 3, .arrayStore 1 3 2, .arrayStore 1 0 3, .compare .lt 0 2, .branch 7]⟩
      body := [.branch 8 [.effect 4] [.effect 5], .effect 6] }

theorem single_values_rendered_once_sharedInArms :
    sharedInArms.isSingle 3 ∧ ∃ s, Reached sharedInArms
      (bodyEvents sharedInArms.method.body) [] s ∧ s.rendered.count 3 ≤ 1 ∧ s.kept.count 3 ≤ 1 := by
  have hsingle : sharedInArms.isSingle 3 = true := by cbv
  have hchoices : ((bodyEvents sharedInArms.method.body).filterMap Event.choice?).Nodup := by decide
  obtain ⟨_, s, hrun⟩ := Emit.exists_ok (replay (emitEvent sharedInArms) sharedInArms.method.body)
    (Emitter.start sharedInArms) (by cbv)
  have hreached : Reached sharedInArms (bodyEvents sharedInArms.method.body) [] s :=
    replay_ok_iff.1 hrun
  obtain ⟨honce, -⟩ := single_values_rendered_once hchoices (.inr ⟨s, hrun⟩) hreached
  exact ⟨hsingle, s, hreached, honce 3 hsingle⟩

/-- Two blocks with one label. The plan keeps what the second one needs, so the sum that is used in and
after the first one is bound inside. -/
def repeatedLabel : Context where
  cls := { name := ⟨"Kernel"⟩ }
  method :=
    { name := "run"
      params := [⟨"n", .int⟩, ⟨"xs", .array .int⟩]
      graph := ⟨#[.param 0 .int, .param 1 (.array .int), ⟨.binary .add, .int, [0, 0]⟩,
        .arrayStore 1 0 2, .arrayStore 1 0 2, ⟨.binary .mul, .int, [0, 0]⟩, .arrayStore 1 0 5,
        .arrayStore 1 0 5]⟩
      body := [.block ⟨"L", false⟩ [.effect 3], .effect 4, .block ⟨"L", false⟩ [.effect 6],
        .effect 7] }

/-- With a repeated label a shared value is rendered twice before the replay stops, although every
operand comes before its user and no control node occurs twice. -/
theorem shared_rendered_twice_repeatedLabel :
    (∀ id < repeatedLabel.graph.size, ∀ operand ∈ repeatedLabel.graph.operands id, operand < id) ∧
      ((bodyEvents repeatedLabel.method.body).filterMap Event.choice?).Nodup ∧
      repeatedLabel.isShared 2 ∧
      ∃ done rest s, Reached repeatedLabel done rest s ∧ s.rendered.count 2 = 2 := by
  have hcount : (Emit.done? (((bodyEvents repeatedLabel.method.body).take 4).forM
      (emitEvent repeatedLabel)) (Emitter.start repeatedLabel)).map
        (fun r => r.2.rendered.count 2) = some 2 := by cbv
  refine ⟨by decide, by decide, by cbv, (bodyEvents repeatedLabel.method.body).take 4,
    (bodyEvents repeatedLabel.method.body).drop 4, ?_⟩
  obtain ⟨_, s, hrun⟩ := Emit.exists_ok (((bodyEvents repeatedLabel.method.body).take 4).forM
    (emitEvent repeatedLabel)) (Emitter.start repeatedLabel) (by cbv)
  rw [Emit.done?_of_ok hrun] at hcount
  exact ⟨s, ⟨List.take_append_drop _ _, hrun⟩, Option.some.inj hcount⟩

end KernelForge.Source
