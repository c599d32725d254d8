import KernelForge.Proofs.Acceptance
import KernelForge.Proofs.Listing
import KernelForge.Proofs.Naming

/-!
# Which construct pins a value

A value is pinned by an event that opens a construct, because the plan lists it there
(`Reached.exists_pinnedAt`). When the construct has closed, one of its arms has used the value, so the
value was rendered, and a value that is still to be used then has a name. A pinned value without a name
thus belongs to a construct that is still open (`Reached.encloses`).
-/

namespace KernelForge

/-! ### The construct that an event opens -/

open Source in
/-- Wherever an event among these opens a construct, the events of a construct stand. -/
structure Whole (events : List Event) : Prop where
  exists_stmt : ∀ {outer rest : List Event} {e : Event} {anchor : Anchor},
    events = outer ++ e :: rest → e.anchor? = some anchor →
      ∃ (stmt : Stmt) (after : List Event), e :: rest = stmt.events ++ after ∧
        stmt.anchor? = some anchor

namespace Whole

theorem nil : Whole [] :=
  ⟨fun h => by simp at h⟩

/-- An event may come before if it opens no construct, or the construct that all of them are. -/
theorem cons {e : Event} {events : List Event} (h : Whole events)
    (he : ∀ {anchor}, e.anchor? = some anchor → ∀ after,
      ∃ (stmt : Stmt) (after' : List Event), e :: (events ++ after) = stmt.events ++ after' ∧
        stmt.anchor? = some anchor) : Whole (e :: events) := by
  refine ⟨fun {outer rest e' anchor} heq hanchor => ?_⟩
  cases outer with
  | nil =>
    obtain ⟨rfl, rfl⟩ := List.cons.inj heq
    simpa using he hanchor []
  | cons first outer =>
    exact h.exists_stmt (List.cons.inj heq).2 hanchor

theorem append {xs ys : List Event} (hxs : Whole xs) (hys : Whole ys) : Whole (xs ++ ys) := by
  refine ⟨fun {outer rest e anchor} heq hanchor => ?_⟩
  rcases List.append_eq_append_iff.1 heq with ⟨outer', -, hys'⟩ | ⟨rest', hxs', hrest⟩
  · exact hys.exists_stmt hys' hanchor
  · cases rest' with
    | nil => exact hys.exists_stmt (show ys = [] ++ e :: rest from hrest.symm) hanchor
    | cons first rest' =>
      obtain ⟨rfl, rfl⟩ := List.cons.inj hrest
      obtain ⟨stmt, after, hevents, hstmt⟩ := hxs.exists_stmt hxs' hanchor
      exact ⟨stmt, after ++ ys, by rw [← List.append_assoc, ← hevents]; rfl, hstmt⟩

/-- An event that opens nothing. -/
theorem cons_of_none {e : Event} {events : List Event} (he : e.anchor? = none)
    (h : Whole events) : Whole (e :: events) :=
  h.cons fun hanchor => by rw [he] at hanchor; cases hanchor

/-- A construct, if its inner events are. -/
theorem construct {stmt : Stmt} {e : Event} {inner : List Event}
    (hevents : stmt.events = e :: inner) (hanchor : e.anchor? = stmt.anchor?) (h : Whole inner) :
    Whole stmt.events := by
  rw [hevents]
  exact h.cons fun hsome after => ⟨stmt, after, by rw [hevents]; rfl, hanchor ▸ hsome⟩

end Whole

mutual

theorem whole_stmt : ∀ stmt : Stmt, Whole stmt.events
  | .effect _ | .ret _ | .leave _ _ | .again _ _ | .edge _ => .cons_of_none rfl .nil
  | .block b body =>
    .construct (by rw [Stmt.events]) rfl ((whole_body body).append (.cons_of_none rfl .nil))
  | .branch node thenBody elseBody =>
    .construct (by rw [Stmt.events]) rfl <| (whole_body thenBody).append <| .cons_of_none rfl <|
      (whole_body elseBody).append <| .cons_of_none rfl .nil
  | .switch node arms fallback =>
    .construct (by rw [Stmt.events]) rfl <| (whole_arms node arms).append <| .cons_of_none rfl <|
      (whole_body fallback).append <| .cons_of_none rfl <| .cons_of_none rfl .nil

theorem whole_body : ∀ body : List Stmt, Whole (bodyEvents body)
  | [] => .nil
  | stmt :: body => (whole_stmt stmt).append (whole_body body)

theorem whole_arms (node : NodeId) : ∀ arms : List (Int32 × List Stmt), Whole (armEvents node arms)
  | [] => .nil
  | (_, body) :: arms =>
    .cons_of_none rfl <| (whole_body body).append <| .cons_of_none rfl (whole_arms node arms)

end

namespace Source

open Relation

variable {cx : Context}

/-! ### What was used was rendered -/

/-- The kernel object takes no operands. The survey counts what it would take among the uses, but the
emitter never renders it. -/
def PlainReceivers (g : Graph) : Prop :=
  ∀ node ∈ g.nodes.toList, node.kind = .receiver → node.operands = []

instance (g : Graph) : Decidable (PlainReceivers g) :=
  inferInstanceAs (Decidable (∀ node ∈ g.nodes.toList, _ → _))

/-- An operand that is not evaluated is the kernel object. -/
theorem receiver_of_notMem_evaluated {node : Node} {id : NodeId} (hphi : node.kind.isPhi = false)
    (hid : id ∈ node.operands) (hskipped : id ∉ cx.evaluated node) :
    ∃ operand, cx.graph.get? id = some operand ∧ operand.kind = .receiver := by
  unfold Context.evaluated at hskipped
  simp only [hphi, Bool.false_eq_true, if_false] at hskipped
  split_ifs at hskipped with hskips
  · -- the first operand is the only one that is left out
    obtain ⟨first, rest, hoperands⟩ := List.exists_cons_of_ne_nil (List.ne_nil_of_mem hid)
    rw [hoperands, List.drop_one, List.tail_cons] at hskipped
    rw [hoperands] at hid
    obtain rfl := (List.mem_cons.1 hid).resolve_right hskipped
    have hreceiver : cx.onReceiver node = true := by
      unfold Context.skipsReceiver at hskips
      split at hskips <;> simp_all
    simp only [Context.onReceiver, hoperands, List.head?_cons, Option.bind_some] at hreceiver
    split at hreceiver
    · rename_i hget
      exact ⟨_, hget, rfl⟩
    · cases hreceiver
  · exact absurd hid hskipped

/-- A shared value that a node leads to is one that the node takes. -/
theorem takes_of_leadsTo (hplain : PlainReceivers cx.graph) {root id : NodeId}
    (hshared : cx.isShared id = true)
    (h : ReflTransGen (cx.graph.LeadsTo
      fun _ node => if node.kind.isPhi then [] else node.operands) root id) :
    ReflTransGen cx.Takes root id := by
  induction h using ReflTransGen.head_induction_on with
  | refl => exact .refl
  | @head a b hstep hrest ih =>
    obtain ⟨node, hnode, hb⟩ := hstep
    dsimp only at hb
    split_ifs at hb with hphi
    · cases hb
    · by_cases hevaluated : b ∈ cx.evaluated node
      · exact .head ⟨node, hnode, hevaluated⟩ ih
      · -- the kernel object is not shared and leads nowhere
        obtain ⟨receiver, hget, hkind⟩ :=
          receiver_of_notMem_evaluated (by simpa using hphi) hb hevaluated
        rcases ReflTransGen.cases_head hrest with rfl | ⟨c, ⟨node', hnode', hc⟩, -⟩
        · simp [Context.isShared, hget, Context.isTrivial, hkind] at hshared
        · obtain rfl := Option.some.inj (hget.symm.trans hnode')
          have hmem := Array.mem_toList_iff.2 (Array.mem_of_getElem? hget)
          simp [hplain receiver hmem hkind] at hc

/-- A shared value that the events done so far use was rendered. -/
theorem Reached.mem_rendered_of_used {done rest : List Event} {s : Emitter}
    (hplain : PlainReceivers cx.graph) (h : Reached cx done rest s) {id : NodeId}
    (hid : id ∈ usesOf cx done) : id ∈ s.rendered := by
  have hshared := isShared_of_mem_usesOf hid
  obtain ⟨e, he, hid⟩ := mem_usesOf.1 hid
  obtain ⟨root, hroot, hreach⟩ := Graph.mem_visit_iff.1 (List.mem_filter.1 hid).1
  obtain ⟨hchecked, hadmits⟩ := h.checked
  rcases hchecked.admits_of_takes (hadmits e he root hroot)
      (takes_of_leadsTo hplain hshared hreach) with ⟨phi, hphi, rfl⟩ | hmem
  · simp [Context.isShared, get?_of_mem_phis hphi, NodeKind.isPhi] at hshared
  · exact hmem

/-! ### What the plan still lists -/

/-- Plans are only ever used up. -/
theorem Reached.hoist?_of_some {done rest : List Event} {s : Emitter} (h : Reached cx done rest s)
    {anchor : Anchor} {planned : Hoist} (hplan : s.plan.hoist? anchor = some planned) :
    (Plan.ofBody cx.graph cx.isShared cx.method.body).hoist? anchor = some planned := by
  refine h.induct (motive := fun _ _ s => s.plan.hoist? anchor = some planned →
    (Plan.ofBody cx.graph cx.isShared cx.method.body).hoist? anchor = some planned) id ?_ hplan
  intro done rest e s s' _ hevent ih hs'
  exact ih (hevent.hoist?_of_some hs')

theorem Hoists.hoist?_self {anchor : Anchor} {s s' : Emitter} (h : Hoists cx anchor s s') :
    s'.plan.hoist? anchor = none := by
  cases h with
  | nothing hnone h => exact h ▸ hnone
  | planned _ hbinds => rw [hbinds.sameFrame.plan, Plan.hoist?_without, if_pos rfl]

/-- An event that opens a construct uses up what is planned for it. -/
theorem Emitted.hoist?_self {e : Event} {anchor : Anchor} {s s' : Emitter}
    (h : Emitted cx e s s') (he : e.anchor? = some anchor) : s'.plan.hoist? anchor = none := by
  cases h with
  | startBlock _ hhoist | startIf _ _ hhoist | startSwitch _ _ hhoist =>
    obtain rfl := Option.some.inj he
    exact hhoist.hoist?_self
  | _ => cases he

/-- What the plan still lists is for constructs to come. -/
theorem Reached.anchor_mem {done rest : List Event} {s : Emitter} (h : Reached cx done rest s)
    {anchor : Anchor} {planned : Hoist} (hplan : s.plan.hoist? anchor = some planned) :
    anchor ∈ rest.filterMap Event.anchor? := by
  refine h.induct (motive := fun _ rest s => s.plan.hoist? anchor = some planned →
    anchor ∈ rest.filterMap Event.anchor?) (fun hstart => ?_) ?_ hplan
  · by_contra hmem
    rw [← anchors_ofBody] at hmem
    have hnone := Survey.hoist?_plan_of_notMem (g := cx.graph) hmem
    cases hnone.symm.trans hstart
  · intro done rest e s s' _ hevent ih hs'
    have hmem := ih (hevent.hoist?_of_some hs')
    cases he : e.anchor? with
    | none => rwa [List.filterMap_cons_none he] at hmem
    | some other =>
      rw [List.filterMap_cons_some he] at hmem
      refine (List.mem_cons.1 hmem).resolve_left fun heq => ?_
      rw [hevent.hoist?_self (heq ▸ he)] at hs'
      cases hs'

/-- A construct whose first event is at some point of a body. -/
theorem exists_construct {body : List Stmt} {outer rest : List Event} {e : Event} {anchor : Anchor}
    (hevents : bodyEvents body = outer ++ e :: rest) (he : e.anchor? = some anchor) :
    ∃ (stmt : Stmt) (after : List Event), bodyEvents body = outer ++ stmt.events ++ after ∧
      e :: rest = stmt.events ++ after ∧ stmt.anchor? = some anchor := by
  obtain ⟨stmt, after, hstmt, hanchor⟩ := (whole_body body).exists_stmt hevents he
  exact ⟨stmt, after, by rw [hevents, hstmt, List.append_assoc], hstmt, hanchor⟩

/-- What is listed for a construct is used inside it. -/
theorem mem_usesOf_of_listed {stmt : Stmt} {done after : List Event} {anchor : Anchor}
    (hdistinct : Distinct cx.method.body)
    (hevents : bodyEvents cx.method.body = done ++ stmt.events ++ after)
    (hanchor : stmt.anchor? = some anchor) {planned : Hoist}
    (hplan : (Plan.ofBody cx.graph cx.isShared cx.method.body).hoist? anchor = some planned)
    {id : NodeId} (hid : id ∈ planned.nodes) : id ∈ usesOf cx stmt.events := by
  have hnodes : id ∈ (Plan.ofBody cx.graph cx.isShared cx.method.body).nodes anchor := by
    simpa [Plan.nodes, hplan] using hid
  obtain ⟨⟨body, hbody, hused⟩, -⟩ := (mem_nodes_plan hdistinct hevents hanchor).1 hnodes
  have htail := mem_usesOf_tail hbody hused
  obtain ⟨e, he, hid⟩ := mem_usesOf.1 htail
  exact mem_usesOf.2 ⟨e, List.mem_of_mem_tail he, hid⟩

/-- What the plan still lists is still to be used. -/
theorem Reached.mem_usesOf_of_planned {done rest : List Event} {s : Emitter}
    (hdistinct : Distinct cx.method.body) (h : Reached cx done rest s) {anchor : Anchor}
    {planned : Hoist} (hplan : s.plan.hoist? anchor = some planned) {id : NodeId}
    (hid : id ∈ planned.nodes) : id ∈ usesOf cx rest := by
  obtain ⟨e, he, hanchor⟩ := List.mem_filterMap.1 (h.anchor_mem hplan)
  obtain ⟨mid, rest', rfl⟩ := List.append_of_mem he
  have hevents : bodyEvents cx.method.body = (done ++ mid) ++ e :: rest' := by
    rw [← h.events, List.append_assoc]
  obtain ⟨stmt, after, hbody, hstmt, hstmtanchor⟩ := exists_construct hevents hanchor
  have hused := mem_usesOf_of_listed hdistinct hbody hstmtanchor (h.hoist?_of_some hplan) hid
  rw [usesOf_append, hstmt, usesOf_append]
  exact List.mem_append_right _ (List.mem_append_left _ hused)

/-! ### Where a value was pinned -/

/-- The event after `outer` pins a value, which is listed for the construct that the event opens. -/
def PinnedAt (cx : Context) (outer : List Event) (e : Event) (id : NodeId) : Prop :=
  ∃ rest s s', Reached cx outer (e :: rest) s ∧ Reached cx (outer ++ [e]) rest s' ∧
    Planned s.plan e id ∧ id ∉ s.pinned ∧ id ∈ s'.pinned

/-- The construct whose events begin after `outer` is still open after `done`. -/
def Encloses (cx : Context) (outer done : List Event) : Prop :=
  ∃ (stmt : Stmt) (after : List Event), bodyEvents cx.method.body = outer ++ stmt.events ++ after ∧
    outer.length < done.length ∧ done.length < (outer ++ stmt.events).length

theorem Emitter.pinned_start (cx : Context) : (start cx).pinned = [] :=
  declarePhis_induct (P := fun s => s.pinned = []) rfl fun _ h => h

theorem Acts.pinned {plan : Plan} {e : Event} {s s' : Emitter} (h : Acts cx plan e s s')
    {id : NodeId} (hid : id ∈ s'.pinned) : id ∈ s.pinned ∨ Planned plan e id := by
  induction h with
  | refl => exact .inl hid
  | tail _ hact ih =>
    cases hact with
    | evaluate _ heval | bind _ _ _ heval => exact ih (heval.extends.pinned ▸ hid)
    | pin hplanned _ hsame =>
      rw [hsame.pinned] at hid
      rcases List.mem_cons.1 hid with rfl | hid
      · exact .inr hplanned
      · exact ih hid
    | fresh =>
      rw [Emitter.materialize_eq] at hid
      exact ih hid
    | note hsame => exact ih (hsame.pinned ▸ hid)

theorem Emitter.pinned_closeScope (s : Emitter) : s.closeScope.pinned = s.pinned := by
  unfold closeScope
  split <;> rfl

theorem Emitter.pinned_change (s : Emitter) (c : ScopeChange) : (s.change c).pinned = s.pinned := by
  cases c with
  | keep | enter => rfl
  | leave | swap => exact s.pinned_closeScope

/-- An event pins nothing but what is listed for the construct that it opens. -/
theorem Emitted.pinned {e : Event} {s s' : Emitter} (h : Emitted cx e s s') {id : NodeId}
    (hid : id ∈ s'.pinned) : id ∈ s.pinned ∨ Planned s.plan e id := by
  obtain ⟨m, hacts, -, hsame⟩ := h.acts
  rw [hsame.pinned, m.pinned_change] at hid
  exact hacts.pinned hid

/-- Every pinned value was pinned by an event of the replay. -/
theorem Reached.exists_pinnedAt {done rest : List Event} {s : Emitter} (h : Reached cx done rest s)
    {id : NodeId} (hid : id ∈ s.pinned) :
    ∃ outer e mid, done = outer ++ e :: mid ∧ PinnedAt cx outer e id := by
  induction done using List.reverseRecOn generalizing rest s with
  | nil =>
    obtain rfl := forM_nil_ok.1 h.run
    rw [Emitter.pinned_start] at hid
    cases hid
  | append_singleton done e ih =>
    obtain ⟨s₀, h₀, hevent⟩ := h.of_concat
    by_cases hbefore : id ∈ s₀.pinned
    · obtain ⟨outer, e', mid, rfl, hpinned⟩ := ih h₀ hbefore
      exact ⟨outer, e', mid ++ [e], by simp, hpinned⟩
    · have hplanned := (hevent.pinned hid).resolve_left hbefore
      exact ⟨done, e, [], rfl, rest, s₀, s, h₀, h, hplanned, hbefore, hid⟩

/-- A pinned value that has no name and is still to be used was pinned for a construct that is still
open: if the construct had closed, one of its arms would have had the value rendered, and a rendered
value that is still to be used has a name. -/
theorem Reached.encloses (hdistinct : Distinct cx.method.body) (hplain : PlainReceivers cx.graph)
    {outer mid rest : List Event} {e : Event} {s : Emitter}
    (h : Reached cx (outer ++ e :: mid) rest s) {id : NodeId} (hid : s.value? id = none)
    (hused : id ∈ usesOf cx rest) (hpinned : PinnedAt cx outer e id) :
    Encloses cx outer (outer ++ e :: mid) := by
  obtain ⟨_, s₀, _, h₀, -, ⟨anchor, planned, he, hplan, hmem⟩, -, -⟩ := hpinned
  have hevents : bodyEvents cx.method.body = outer ++ e :: (mid ++ rest) := by
    rw [← h.events, List.append_assoc, List.cons_append]
  obtain ⟨stmt, after, hbody, hstmt, hanchor⟩ := exists_construct hevents he
  refine ⟨stmt, after, hbody, by simp, ?_⟩
  by_contra hlong
  have hover : stmt.events <+: e :: mid := by
    refine List.prefix_of_prefix_length_le ⟨after, hstmt.symm⟩ ⟨rest, rfl⟩ ?_
    simpa using hlong
  have hdone : id ∈ usesOf cx (outer ++ e :: mid) := by
    have hinside := mem_usesOf_of_listed hdistinct hbody hanchor (h₀.hoist?_of_some hplan) hmem
    obtain ⟨e', he', hid'⟩ := mem_usesOf.1 hinside
    exact mem_usesOf.2 ⟨e', List.mem_append_right _ (hover.subset he'), hid'⟩
  have hsingle : cx.isSingle id = true := by
    simp [Context.isSingle, isShared_of_mem_usesOf hused]
  obtain ⟨-, levels, -, honce⟩ := h.renderedOnce hdistinct
  rcases honce.known id (h.mem_rendered_of_used hplain hdone) hsingle with ⟨v, hv⟩ | ⟨-, hunused⟩
  · rw [hid] at hv
    cases hv
  · exact hunused hused

end Source

end KernelForge
