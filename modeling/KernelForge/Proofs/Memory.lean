import KernelForge.Proofs.Reachability
import KernelForge.Proofs.Replay

/-!
# What an event does to the memory of the emitter

The memory of the emitter is what decides later renderings: the names of values, the scopes they
belong to, the pinned values and the nodes rendered and kept so far. An event first works on it in small acts
(it evaluates a node, pins one, keeps one) and then changes the scopes in a way that depends on the
event alone. An invariant of the memory is shown for one act and for one change of scopes.
-/

namespace KernelForge

open Source in
/-- The nodes that an event evaluates itself. -/
def Event.roots (cx : Context) : Event → List NodeId
  | .effect id => [id]
  | .ret id | .startIf id | .startSwitch id => cx.graph.operands id
  | .leave source _ | .again source _ | .edge source => Survey.phiInputs cx.graph source
  | _ => []

open Source in
/-- The construct that an event opens, if values may be bound before it. -/
def Event.anchor? : Event → Option Anchor
  | .startBlock b => some (.block b.label)
  | .startIf id | .startSwitch id => some (.choice id)
  | _ => none

/-- The control node of the branch or switch that an event opens. -/
def Event.choice? : Event → Option NodeId
  | .startIf id | .startSwitch id => some id
  | _ => none

/-- The label of the block that an event opens. -/
def Event.label? : Event → Option String
  | .startBlock b => some b.label
  | _ => none

/-- A change of the open scopes. -/
inductive ScopeChange
  | keep
  | enter
  | leave
  | swap
deriving DecidableEq

/-- How an event changes the open scopes. -/
def Event.scopeChange : Event → ScopeChange
  | .startBlock _ | .startIf _ | .startCase _ _ => .enter
  | .finishBlock _ | .finishIf _ | .finishCase _ => .leave
  | .startElse _ => .swap
  | _ => .keep

namespace Source

open Relation

variable {cx : Context}

/-! ### The memory -/

/-- Two emitters have the same memory. -/
structure SameMemory (s s' : Emitter) : Prop where
  bound : s'.bound = s.bound
  scopes : s'.scopes = s.scopes
  pinned : s'.pinned = s.pinned
  rendered : s'.rendered = s.rendered
  kept : s'.kept = s.kept

namespace SameMemory

variable {s s' s₁ s₂ : Emitter}

@[refl] theorem refl (s : Emitter) : SameMemory s s :=
  ⟨rfl, rfl, rfl, rfl, rfl⟩

theorem trans (h₁ : SameMemory s s₁) (h₂ : SameMemory s₁ s₂) : SameMemory s s₂ :=
  ⟨h₂.bound.trans h₁.bound, h₂.scopes.trans h₁.scopes, h₂.pinned.trans h₁.pinned,
    h₂.rendered.trans h₁.rendered, h₂.kept.trans h₁.kept⟩

theorem value? (h : SameMemory s s') (id : NodeId) : s'.value? id = s.value? id := by
  rw [Emitter.value?, Emitter.value?, h.bound]

theorem write (s : Emitter) (l : Line) (hl : l.kept? = none) : SameMemory s (s.write l) :=
  ⟨rfl, rfl, rfl, rfl, s.kept_write hl⟩

theorem closeScope (h : SameMemory s s') : SameMemory s.closeScope s'.closeScope := by
  have hscopes := h.scopes
  cases hs : s.scopes with
  | nil =>
    rw [hs] at hscopes
    simp only [Emitter.closeScope, hs, hscopes]
    exact ⟨h.bound, rfl, h.pinned, h.rendered, h.kept⟩
  | cons scope rest =>
    rw [hs] at hscopes
    rw [s.closeScope_eq hs, s'.closeScope_eq hscopes]
    exact ⟨by simp only [h.bound], rfl, h.pinned, h.rendered, h.kept⟩

theorem closed (s : Emitter) (rest : List Open) : SameMemory s.closeScope (s.closed rest) := by
  have hopened : SameMemory s { s with opened := rest } := ⟨rfl, rfl, rfl, rfl, rfl⟩
  exact hopened.closeScope.trans (write _ _ rfl)

theorem openScope (h : SameMemory s s') : SameMemory s.openScope s'.openScope :=
  ⟨h.bound, by simp only [Emitter.openScope, h.scopes], h.pinned, h.rendered, h.kept⟩

end SameMemory

/-- The emitter after a change of scopes. -/
def Emitter.change (s : Emitter) : ScopeChange → Emitter
  | .keep => s
  | .enter => s.openScope
  | .leave => s.closeScope
  | .swap => s.closeScope.openScope

/-- The innermost scope may grow by pure values. -/
theorem pure_of_modifyHead {scopes : List (List NodeId)} {new : List NodeId}
    (h : ∀ scope ∈ scopes, ∀ id ∈ scope, cx.isEffect id = false)
    (hnew : ∀ id ∈ new, cx.isEffect id = false) :
    ∀ scope ∈ scopes.modifyHead (· ++ new), ∀ id ∈ scope, cx.isEffect id = false := by
  intro scope hscope id hid
  cases scopes with
  | nil => cases hscope
  | cons head rest =>
    rcases List.mem_cons.1 hscope with rfl | hscope
    · rcases List.mem_append.1 hid with hid | hid
      · exact h head List.mem_cons_self id hid
      · exact hnew id hid
    · exact h scope (List.mem_cons_of_mem _ hscope) id hid

/-! ### Settled values -/

theorem Produced.isKept_of_value? {id : NodeId} {node : Node} {args : List Value} {s s' : Emitter}
    {v : Value} (h : Produced cx id node args s v s') (hid : s'.value? id = none) :
    cx.isKept id node = false := by
  cases hk : cx.isKept id node with
  | false => rfl
  | true =>
    rw [h.value?, if_pos ⟨rfl, hk⟩] at hid
    cases hid

theorem Evaluates.isKept_of_value? {id : NodeId} {node : Node} {s s' : Emitter} {v : Value}
    (h : Evaluates cx [id] s [v] s') (hnode : cx.graph.get? id = some node)
    (hid : s'.value? id = none) : cx.isKept id node = false := by
  cases h with
  | known hv hrest =>
    rw [hrest.value?_of_some hv] at hid
    cases hid
  | render _ hnode' _ _ hprod hrest =>
    cases hrest
    obtain rfl := Option.some.inj (hnode'.symm.trans hnode)
    exact hprod.isKept_of_value? hid

/-- A node without a name is rendered when it is evaluated. -/
theorem Evaluates.mem_rendered {id : NodeId} {s s' : Emitter} {v : Value}
    (h : Evaluates cx [id] s [v] s') (hid : s.value? id = none) : id ∈ s'.rendered := by
  obtain ⟨new, hnew, _⟩ := h.renders_root hid
  rw [hnew.rendered]
  simp

/-- A value is settled if it is pinned or has a name. -/
def Emitter.Settled (s : Emitter) (id : NodeId) : Prop :=
  id ∈ s.pinned ∨ ∃ v, s.value? id = some v

theorem Extends.settled {s s' : Emitter} (h : Extends cx s s') {id : NodeId}
    (hid : s.Settled id) : s'.Settled id := by
  rcases hid with hid | ⟨v, hv⟩
  · exact .inl (h.pinned ▸ hid)
  · exact .inr ⟨v, h.names hv⟩

theorem SameMemory.settled {s s' : Emitter} (h : SameMemory s s') {id : NodeId} :
    s'.Settled id ↔ s.Settled id := by
  rw [Emitter.Settled, Emitter.Settled, h.pinned, h.value?]

theorem Evaluates.settled {id : NodeId} {s s' : Emitter} {v : Value}
    (h : Evaluates cx [id] s [v] s') (hid : cx.keeps id) : s'.Settled id := by
  cases hv : s'.value? id with
  | some w => exact .inr ⟨w, hv⟩
  | none =>
    cases hnode : cx.graph.get? id with
    | none => simp [Context.keeps, hnode] at hid
    | some node =>
      rw [Context.keeps, hnode, Option.any_some, h.isKept_of_value? hnode hv] at hid
      cases hid

/-- Binding settles every value that is kept, and no settled value is forgotten. -/
theorem Binds.settled {unstable ids : List NodeId} {s s' : Emitter}
    (h : Binds cx unstable ids s s') {id : NodeId}
    (hid : s.Settled id ∨ id ∈ ids ∧ cx.keeps id) : s'.Settled id := by
  induction h with
  | nil => exact hid.resolve_right fun h => by cases h.1
  | @known other rest s _ _ hv _ ih =>
    apply ih
    rcases hid with hid | ⟨hid, hkeeps⟩
    · exact .inl hid
    · rcases List.mem_cons.1 hid with rfl | hid
      · exact .inl (.inr ⟨_, hv⟩)
      · exact .inr ⟨hid, hkeeps⟩
  | now _ _ heval _ ih =>
    apply ih
    rcases hid with hid | ⟨hid, hkeeps⟩
    · exact .inl (heval.extends.settled hid)
    · rcases List.mem_cons.1 hid with rfl | hid
      · exact .inl (heval.settled hkeeps)
      · exact .inr ⟨hid, hkeeps⟩
  | pin _ _ ih =>
    apply ih
    rcases hid with hid | ⟨hid, hkeeps⟩
    · exact .inl (hid.imp_left (List.mem_cons_of_mem _))
    · rcases List.mem_cons.1 hid with rfl | hid
      · exact .inl (.inl List.mem_cons_self)
      · exact .inr ⟨hid, hkeeps⟩

/-! ### Acts -/

/-- A value that the plan lists for the construct that an event opens. -/
def Planned (plan : Plan) (e : Event) (id : NodeId) : Prop :=
  ∃ anchor hoist, e.anchor? = some anchor ∧ plan.hoist? anchor = some hoist ∧ id ∈ hoist.nodes

/-- One act of an event on the memory. -/
inductive Act (cx : Context) (plan : Plan) (e : Event) : Emitter → Emitter → Prop
  /-- Evaluate a node that the event is about. -/
  | evaluate {id : NodeId} {v : Value} {s s' : Emitter} (hid : id ∈ e.roots cx)
      (h : Evaluates cx [id] s [v] s') : Act cx plan e s s'
  /-- Evaluate a planned value before its construct. -/
  | bind {id : NodeId} {v : Value} {unstable : List NodeId} {s s' : Emitter}
      (hid : Planned plan e id) (hv : s.value? id = none)
      (havail : isAvailable cx s unstable id = .ok true) (h : Evaluates cx [id] s [v] s') :
      Act cx plan e s s'
  /-- Pin a planned value that cannot be evaluated yet. -/
  | pin {id : NodeId} {s s' : Emitter} (hid : Planned plan e id) (hv : s.value? id = none)
      (h : SameMemory { s with pinned := id :: s.pinned } s') : Act cx plan e s s'
  /-- Keep the value of a statement that would not be kept otherwise. -/
  | fresh {id : NodeId} {node : Node} {e' : Expr} {s : Emitter} (he : e = .effect id)
      (hnode : cx.graph.get? id = some node) (hkept : cx.isKept id node = false)
      (hvoid : node.ty.isVoid = false) (hv : s.value? id = none) (hrendered : id ∈ s.rendered) :
      Act cx plan e s (s.materialize cx id node.ty e' false)
  /-- Anything that leaves the memory alone. -/
  | note {s s' : Emitter} (h : SameMemory s s') : Act cx plan e s s'

/-- A sequence of acts. -/
abbrev Acts (cx : Context) (plan : Plan) (e : Event) : Emitter → Emitter → Prop :=
  ReflTransGen (Act cx plan e)

theorem Acts.after {plan : Plan} {e : Event} {s s₁ s' : Emitter} (h : Acts cx plan e s₁ s')
    (hs : SameMemory s s₁) : Acts cx plan e s s' :=
  .head (.note hs) h

theorem Acts.evaluate {plan : Plan} {e : Event} {id : NodeId} {v : Value} {s s' : Emitter}
    (hid : id ∈ e.roots cx) (h : Evaluates cx [id] s [v] s') : Acts cx plan e s s' :=
  .single (.evaluate hid h)

theorem Binds.acts {plan : Plan} {e : Event} {unstable ids : List NodeId} {s s' : Emitter}
    (h : Binds cx unstable ids s s') (hids : ∀ id ∈ ids, Planned plan e id) :
    Acts cx plan e s s' := by
  induction h with
  | nil => exact .refl
  | known _ _ ih => exact ih fun id hid => hids id (List.mem_cons_of_mem _ hid)
  | now hv havail heval _ ih =>
    exact .head (.bind (hids _ List.mem_cons_self) hv havail heval)
      (ih fun id hid => hids id (List.mem_cons_of_mem _ hid))
  | pin hv _ ih =>
    exact .head (.pin (hids _ List.mem_cons_self) hv (.refl _))
      (ih fun id hid => hids id (List.mem_cons_of_mem _ hid))

theorem Hoists.acts {e : Event} {anchor : Anchor} {s s' : Emitter} {plan : Plan}
    (h : Hoists cx anchor s s') (he : e.anchor? = some anchor) (hplan : s.plan = plan) :
    Acts cx plan e s s' := by
  cases h with
  | nothing _ h => exact h ▸ .refl
  | planned hhoist h =>
    have hplanned := h.acts fun id hid => ⟨anchor, _, he, hplan ▸ hhoist, hid⟩
    exact hplanned.after ⟨rfl, rfl, rfl, rfl, rfl⟩

theorem Hoists.settled {e : Event} {anchor : Anchor} {s s' : Emitter} {plan : Plan}
    (h : Hoists cx anchor s s') (he : e.anchor? = some anchor) (hplan : s.plan = plan)
    {id : NodeId} (hid : Planned plan e id) (hkeeps : cx.keeps id) : s'.Settled id := by
  obtain ⟨other, hoist, hother, hfound, hmem⟩ := hid
  obtain rfl := Option.some.inj (he.symm.trans hother)
  subst hplan
  cases h with
  | nothing hnone _ =>
    rw [hnone] at hfound
    cases hfound
  | planned hsome hbinds =>
    obtain rfl := Option.some.inj (hsome.symm.trans hfound)
    exact hbinds.settled (.inr ⟨hmem, hkeeps⟩)

/-! ### Acts of an edge -/

/-- A traversal that succeeds has a result for every element, in order. -/
theorem forall₂_of_mapM_ok {α β ε : Type} {f : α → Except ε β} :
    ∀ {xs : List α} {ys : List β}, xs.mapM f = .ok ys → List.Forall₂ (f · = .ok ·) xs ys
  | [], ys, h => by
    simp only [List.mapM_nil, pure, Except.pure, Except.ok.injEq] at h
    exact h ▸ .nil
  | x :: xs, ys, h => by
    rw [List.mapM_cons] at h
    cases hx : f x with
    | error e => simp [hx, bind, Except.bind] at h
    | ok y =>
      cases hxs : xs.mapM f with
      | error e => simp [hx, hxs, bind, Except.bind] at h
      | ok ys' =>
        simp only [hx, hxs, bind, Except.bind, pure, Except.pure, Except.ok.injEq] at h
        exact h ▸ .cons hx (forall₂_of_mapM_ok hxs)

section mapM

variable {α β ε : Type} {f : α → Except ε β} {xs : List α} {ys : List β}
  (h : xs.mapM f = .ok ys)

include h

/-- Every result of a traversal that succeeds is that of some element. -/
theorem exists_of_mapM_ok {y : β} (hy : y ∈ ys) : ∃ x ∈ xs, f x = .ok y := by
  have hall := forall₂_of_mapM_ok h
  clear h
  induction hall with
  | nil => cases hy
  | cons hfirst _ ih =>
    rcases List.mem_cons.1 hy with rfl | hy
    · exact ⟨_, List.mem_cons_self, hfirst⟩
    · obtain ⟨x, hx, hfx⟩ := ih hy
      exact ⟨x, List.mem_cons_of_mem _ hx, hfx⟩

/-- Every element of a traversal that succeeds has a result. -/
theorem exists_mem_of_mapM_ok {x : α} (hx : x ∈ xs) : ∃ y ∈ ys, f x = .ok y := by
  have hall := forall₂_of_mapM_ok h
  clear h
  induction hall with
  | nil => cases hx
  | cons hfirst _ ih =>
    rcases List.mem_cons.1 hx with rfl | hx
    · exact ⟨_, List.mem_cons_self, hfirst⟩
    · obtain ⟨y, hy, hfx⟩ := ih hx
      exact ⟨y, List.mem_cons_of_mem _ hy, hfx⟩

end mapM

/-- What an edge assigns flows in along it. -/
theorem mem_phiInputs_of_move {source : NodeId} {moves : List (NodeId × NodeId)}
    {move : NodeId × NodeId} (h : phiMoves cx source = .ok moves) (hmove : move ∈ moves) :
    move.2 ∈ Survey.phiInputs cx.graph source ∧ ∃ phi ∈ cx.graph.phis, phi.id = move.1 := by
  simp only [phiMoves, bind, Except.bind] at h
  split at h
  · cases h
  · rename_i lists hlists
    obtain rfl := Except.ok.inj h
    obtain ⟨entries, hentries, hmem⟩ := List.mem_flatten.1 (List.mem_filter.1 hmove).1
    obtain ⟨phi, hphi, hentry⟩ := exists_of_mapM_ok hlists hentries
    obtain ⟨input, hinput, hvalue⟩ := exists_of_mapM_ok hentry hmem
    cases input with
    | none => cases hvalue
    | some value =>
      obtain rfl := Except.ok.inj hvalue
      refine ⟨?_, phi, hphi, rfl⟩
      exact List.mem_flatMap.2 ⟨phi, hphi, List.mem_filterMap.2 ⟨some value, hinput, rfl⟩⟩

/-- What flows in along an edge is assigned there, unless a phi keeps its own value. -/
theorem move_of_mem_phiInputs {source : NodeId} {moves : List (NodeId × NodeId)} {value : NodeId}
    (h : phiMoves cx source = .ok moves) (hvalue : value ∈ Survey.phiInputs cx.graph source) :
    (∃ phi ∈ cx.graph.phis, phi.id = value) ∨ ∃ move ∈ moves, move.2 = value := by
  simp only [phiMoves, bind, Except.bind] at h
  split at h
  · cases h
  · rename_i lists hlists
    obtain rfl := Except.ok.inj h
    obtain ⟨phi, hphi, hinput⟩ := List.mem_flatMap.1 hvalue
    obtain ⟨_, hinput, rfl⟩ := List.mem_filterMap.1 hinput
    obtain ⟨entries, hentries, hentry⟩ := exists_mem_of_mapM_ok hlists hphi
    obtain ⟨move, hmove, heq⟩ := exists_mem_of_mapM_ok hentry hinput
    obtain rfl := Except.ok.inj heq
    by_cases hself : value = phi.id
    · exact .inl ⟨phi, hphi, hself.symm⟩
    · refine .inr ⟨_, List.mem_filter.2 ⟨List.mem_flatten.2 ⟨entries, hentries, hmove⟩, ?_⟩, rfl⟩
      simpa using hself

theorem FlowsIn.acts {plan : Plan} {e : Event} {staged : Bool} {moves : List (NodeId × NodeId)}
    {assignments : List (NodeId × Expr)} {s s' : Emitter}
    (h : FlowsIn cx staged moves s assignments s') (hmoves : ∀ m ∈ moves, m.2 ∈ e.roots cx) :
    Acts cx plan e s s' := by
  induction h with
  | nil => exact .refl
  | direct heval _ _ _ ih =>
    exact .head (.evaluate (hmoves _ List.mem_cons_self) heval)
      (ih fun m hm => hmoves m (List.mem_cons_of_mem _ hm))
  | stage _ heval _ ih =>
    refine .head (.evaluate (hmoves _ List.mem_cons_self) heval) (.head (.note ?_)
      (ih fun m hm => hmoves m (List.mem_cons_of_mem _ hm)))
    exact ⟨rfl, rfl, rfl, rfl, Emitter.kept_write _ rfl⟩

theorem Feeds.sameMemory {assignments : List (NodeId × Expr)} {s s' : Emitter}
    (h : Feeds assignments s s') : SameMemory s s' := by
  induction h with
  | nil s => exact .refl s
  | cons _ _ ih => exact (SameMemory.write _ _ rfl).trans ih

theorem Assigns.acts {plan : Plan} {e : Event} {source : NodeId} {s s' : Emitter}
    (h : Assigns cx source s s') (he : e.roots cx = Survey.phiInputs cx.graph source) :
    Acts cx plan e s s' := by
  obtain ⟨hmoves, hin, hfeed⟩ := h
  exact (hin.acts fun m hm => he ▸ (mem_phiInputs_of_move hmoves hm).1).tail
    (.note hfeed.sameMemory)

/-! ### Every event -/

theorem not_planned {plan : Plan} {e : Event} (he : e.anchor? = none) {id : NodeId} :
    ¬ Planned plan e id := by
  rintro ⟨anchor, _, hanchor, _⟩
  rw [he] at hanchor
  cases hanchor

/-- An event acts on the memory, which settles what is planned for its construct, and then changes
the scopes. -/
theorem Emitted.acts {e : Event} {s s' : Emitter} (h : Emitted cx e s s') :
    ∃ m, Acts cx s.plan e s m ∧ (∀ {id}, Planned s.plan e id → cx.keeps id → m.Settled id) ∧
      SameMemory (m.change e.scopeChange) s' := by
  have hnone : e.anchor? = none → ∀ {m : Emitter} {id : NodeId}, Planned s.plan e id →
      cx.keeps id → m.Settled id := fun he {_ _} hid _ => absurd hid (not_planned he)
  cases h with
  | effectKnown hv => exact ⟨_, .refl, hnone rfl, .refl _⟩
  | effectVoid hv hnode hvoid heval =>
    exact ⟨_, .evaluate List.mem_cons_self heval, hnone rfl, .write _ _ rfl⟩
  | effectKept hv hnode hvoid heval hv₁ =>
    exact ⟨_, .evaluate List.mem_cons_self heval, hnone rfl, .refl _⟩
  | effectFresh hv hnode hvoid heval hv₁ =>
    have hkept := heval.isKept_of_value? hnode hv₁
    exact ⟨_, (Acts.evaluate List.mem_cons_self heval).tail
      (.fresh rfl hnode hkept hvoid hv₁ (heval.mem_rendered hv)), hnone rfl, .refl _⟩
  | ret hops => exact ⟨_, .refl, hnone rfl, .write _ _ rfl⟩
  | retValue hops heval =>
    exact ⟨_, .evaluate (by simp [Event.roots, hops]) heval, hnone rfl, .write _ _ rfl⟩
  | @startBlock b s s₁ hlabel hhoist =>
    have hacts : Acts cx s.plan (.startBlock b) _ s₁ := hhoist.acts rfl rfl
    exact ⟨s₁, hacts.after ⟨rfl, rfl, rfl, rfl, rfl⟩, hhoist.settled rfl rfl,
      ⟨rfl, rfl, rfl, rfl, s₁.kept_write (l := .openBlock b) rfl⟩⟩
  | @finishBlock b open_ used rest s hopened hlabel =>
    refine ⟨s, .refl, hnone rfl, ?_⟩
    cases used with
    | true => exact (SameMemory.closed s rest).trans (.write _ _ rfl)
    | false => exact .closed s rest
  | @startIf id c s s₁ s₂ v hops heval hhoist =>
    have hacts : Acts cx s.plan (.startIf id) s₁ s₂ := hhoist.acts rfl heval.extends.plan
    refine ⟨s₂, (Acts.evaluate ?_ heval).trans hacts, hhoist.settled rfl heval.extends.plan,
      ⟨rfl, rfl, rfl, rfl, s₂.kept_write (l := .openIf v.expr) rfl⟩⟩
    simp [Event.roots, hops]
  | @startElse id rest s hopened =>
    have hopened : SameMemory s { s with opened := .branch id true :: rest } :=
      ⟨rfl, rfl, rfl, rfl, rfl⟩
    exact ⟨s, .refl, hnone rfl, (hopened.closeScope.trans (.write _ _ rfl)).openScope⟩
  | @finishIf id inElse rest s hopened => exact ⟨s, .refl, hnone rfl, .closed s rest⟩
  | @startSwitch id c s s₁ s₂ v hops heval hhoist =>
    have hacts : Acts cx s.plan (.startSwitch id) s₁ s₂ := hhoist.acts rfl heval.extends.plan
    refine ⟨s₂, (Acts.evaluate ?_ heval).trans hacts, hhoist.settled rfl heval.extends.plan,
      ⟨rfl, rfl, rfl, rfl, s₂.kept_write (l := .openSwitch v.expr) rfl⟩⟩
    simp [Event.roots, hops]
  | @startCase id key hasDefault rest s hopened =>
    exact ⟨s, .refl, hnone rfl, ⟨rfl, rfl, rfl, rfl, s.kept_write (l := .openCase key) rfl⟩⟩
  | @finishCase id rest s hopened =>
    exact ⟨s, .refl, hnone rfl, (SameMemory.write s .endCase rfl).closeScope.trans (.closed _ rest)⟩
  | @finishSwitch id hasDefault rest s s₁ hopened hdefault =>
    have hadded : SameMemory s s₁ := by
      rw [hdefault]
      split
      · exact .refl s
      · refine ⟨rfl, rfl, rfl, rfl, ?_⟩
        rw [Emitter.kept, lines_writeDefault, List.filterMap_append]
        exact List.append_nil _
    have hopened : SameMemory s₁ { s₁ with indent := s₁.indent - 1, opened := rest } :=
      ⟨rfl, rfl, rfl, rfl, rfl⟩
    exact ⟨s, .refl, hnone rfl, (hadded.trans hopened).trans (.write _ _ rfl)⟩
  | leave hblock hassign =>
    exact ⟨_, (hassign.acts rfl).after ⟨rfl, rfl, rfl, rfl, rfl⟩, hnone rfl, .write _ _ rfl⟩
  | again hblock hloop hassign => exact ⟨_, hassign.acts rfl, hnone rfl, .write _ _ rfl⟩
  | edge hassign => exact ⟨_, hassign.acts rfl, hnone rfl, .refl _⟩

end Source

end KernelForge
