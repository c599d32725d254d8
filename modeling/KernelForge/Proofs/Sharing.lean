import KernelForge.Proofs.Nesting
import KernelForge.Proofs.Planning

/-!
# Shared values are rendered once

A shared value forgets its name when the scope that it was rendered in closes. It is rendered once all
the same: a value that is used again after its scope closes was listed before the construct of that
scope, so it had a name outside the scope already or was pinned, and then it belongs to no scope.
-/

namespace KernelForge.Source

open Relation

/-- A value to render once: a shared pure value, or a side effect that has a value. -/
def Context.isSingle (cx : Context) (id : NodeId) : Bool :=
  cx.isShared id || cx.isEffect id && !cx.isVoid id

variable {cx : Context}

theorem keeps_of_isShared {id : NodeId} (h : cx.isShared id) : cx.keeps id := by
  unfold Context.isShared at h
  cases hnode : cx.graph.get? id with
  | none => simp [hnode] at h
  | some node => simp_all [Context.keeps, Context.isKept]

theorem keeps_of_isSingle {id : NodeId} (h : cx.isSingle id) : cx.keeps id := by
  rcases Bool.or_eq_true_iff.1 h with h | h
  · exact keeps_of_isShared h
  · rw [Bool.and_eq_true, Bool.not_eq_true'] at h
    exact (keeps_iff_of_isEffect h.1).2 h.2

/-! ### Uses and demands -/

theorem isShared_of_mem_usesOf {events : List Event} {id : NodeId}
    (h : id ∈ usesOf cx events) : cx.isShared id := by
  obtain ⟨e, _, hid⟩ := mem_usesOf.1 h
  exact (List.mem_filter.1 hid).2

theorem leadsTo_of_demands {s : Emitter} {a b : NodeId} (h : ReflTransGen (Demands cx s) a b) :
    ReflTransGen (cx.graph.LeadsTo
      fun _ node => if node.kind.isPhi then [] else node.operands) a b := by
  refine ReflTransGen.mono ?_ a b h
  rintro a b ⟨_, node, hnode, hb⟩
  refine ⟨node, hnode, ?_⟩
  dsimp only
  unfold Context.evaluated at hb
  split_ifs at hb ⊢
  · cases hb
  · exact List.mem_of_mem_drop hb
  · exact hb

theorem mem_uses_of_root {e : Event} {s : Emitter} {root id : NodeId} (hroot : root ∈ e.roots cx)
    (h : ReflTransGen (Demands cx s) root id) (hid : cx.isShared id) : id ∈ e.uses cx :=
  List.mem_filter.2 ⟨Graph.mem_visit_iff.2 ⟨root, hroot, leadsTo_of_demands h⟩, hid⟩

/-- An event that uses a value uses whatever the value asks for. -/
theorem mem_usesOf_of_demands {events : List Event} {s : Emitter} {a b : NodeId}
    (ha : a ∈ usesOf cx events) (h : ReflTransGen (Demands cx s) a b) (hb : cx.isShared b) :
    b ∈ usesOf cx events := by
  obtain ⟨e, he, hae⟩ := mem_usesOf.1 ha
  obtain ⟨root, hroot, hreach⟩ := Graph.mem_visit_iff.1 (List.mem_filter.1 hae).1
  refine mem_usesOf.2 ⟨e, he, List.mem_filter.2 ⟨Graph.mem_visit_iff.2 ⟨root, hroot, ?_⟩, hb⟩⟩
  exact hreach.trans (leadsTo_of_demands h)

/-! ### Guarded scopes -/

/-- A shared value that is settled and belongs to no scope inside. -/
structure Outside (cx : Context) (s : Emitter) (inner : List NodeId) (id : NodeId) : Prop where
  shared : cx.isShared id
  outside : id ∉ inner
  settled : s.Settled id

/-- The values listed before an open construct are settled outside it, and the shared values of a
scope are used in the arm of that scope. The values of the scopes further inside are `inner`. -/
def Guarded (cx : Context) (s : Emitter) : List NodeId → List Level → List (List NodeId) → Prop
  | _, [], _ => True
  | inner, ⟨safe, none⟩ :: levels, scopes =>
    (∀ id ∈ safe, Outside cx s inner id) ∧ Guarded cx s inner levels scopes
  | _, ⟨_, some _⟩ :: _, [] => False
  | inner, ⟨safe, some arm⟩ :: levels, scope :: scopes =>
    (∀ id ∈ scope, cx.isShared id → id ∈ usesOf cx arm) ∧
      (∀ id ∈ safe, Outside cx s (scope ++ inner) id) ∧
        Guarded cx s (scope ++ inner) levels scopes

section guarded

variable {s s' : Emitter}

/-- What matters is that settled values stay settled and do not move into a scope. -/
theorem Guarded.mono {levels : List Level} {inner inner' : List NodeId}
    {scopes : List (List NodeId)}
    (hinner : ∀ id ∈ inner', cx.isShared id → s.Settled id → id ∈ inner)
    (hsettled : ∀ id ∉ inner, s.Settled id → s'.Settled id)
    (h : Guarded cx s inner levels scopes) : Guarded cx s' inner' levels scopes := by
  have houtside : ∀ (scope : List NodeId) {id : NodeId}, Outside cx s (scope ++ inner) id →
      Outside cx s' (scope ++ inner') id := by
    intro scope id hid
    have hout := hid.outside
    rw [List.mem_append, not_or] at hout
    refine ⟨hid.shared, fun hmem => ?_, hsettled id hout.2 hid.settled⟩
    rcases List.mem_append.1 hmem with hmem | hmem
    · exact hout.1 hmem
    · exact hout.2 (hinner id hmem hid.shared hid.settled)
  induction levels generalizing inner inner' scopes with
  | nil => trivial
  | cons level levels ih =>
    obtain ⟨safe, arm?⟩ := level
    cases arm? with
    | none =>
      obtain ⟨hsafe, hrest⟩ := h
      exact ⟨fun id hid => houtside [] (hsafe id hid),
        ih hinner hsettled hrest houtside⟩
    | some arm =>
      cases scopes with
      | nil => exact h
      | cons scope scopes =>
        obtain ⟨hscope, hsafe, hrest⟩ := h
        refine ⟨hscope, fun id hid => houtside scope (hsafe id hid), ih ?_ ?_ hrest ?_⟩
        · intro id hid hshared hsettled
          rcases List.mem_append.1 hid with hid | hid
          · exact List.mem_append_left _ hid
          · exact List.mem_append_right _ (hinner id hid hshared hsettled)
        · intro id hid
          exact hsettled id fun hmem => hid (List.mem_append_right _ hmem)
        · intro scope' id hid
          rw [← List.append_assoc] at hid ⊢
          exact houtside _ hid

/-- The innermost scope may grow by values that were not settled and that its arm uses. -/
theorem Guarded.grow {levels : List Level} {scopes : List (List NodeId)} {new : List NodeId}
    (harm : ∀ level ∈ levels.head?, ∃ arm, level.arm? = some arm ∧
      ∀ id ∈ new, cx.isShared id → id ∈ usesOf cx arm)
    (hnew : ∀ id ∈ new, cx.isShared id → ¬ s.Settled id)
    (hsettled : ∀ id, s.Settled id → s'.Settled id) (h : Guarded cx s [] levels scopes) :
    Guarded cx s' [] levels (scopes.modifyHead (· ++ new)) := by
  cases levels with
  | nil => trivial
  | cons level levels =>
    obtain ⟨safe, arm?⟩ := level
    obtain ⟨arm, rfl, hused⟩ := harm _ rfl
    cases scopes with
    | nil => exact h
    | cons scope scopes =>
      obtain ⟨hscope, hsafe, hrest⟩ := h
      rw [List.append_nil] at hsafe hrest
      rw [List.modifyHead_cons]
      refine ⟨fun id hid hshared => ?_, fun id hid => ⟨(hsafe id hid).shared, fun hmem => ?_,
        hsettled id (hsafe id hid).settled⟩, ?_⟩
      · rcases List.mem_append.1 hid with hid | hid
        · exact hscope id hid hshared
        · exact hused id hid hshared
      · rw [List.append_nil] at hmem
        rcases List.mem_append.1 hmem with hmem | hmem
        · exact (hsafe id hid).outside hmem
        · exact hnew id hmem (hsafe id hid).shared (hsafe id hid).settled
      · refine hrest.mono (fun id hid hshared hset => ?_) fun id _ => hsettled id
        rw [List.append_nil] at hid
        exact (List.mem_append.1 hid).resolve_right fun hmem => hnew id hmem hshared hset

theorem Guarded.sameScopes {levels : List Level} {scopes : List (List NodeId)}
    (h : Guarded cx s [] levels scopes) (hsettled : ∀ id, s.Settled id → s'.Settled id) :
    Guarded cx s' [] levels scopes :=
  h.mono (fun _ hid => by cases hid) fun id _ => hsettled id

end guarded

/-! ### The invariant -/

/-- Single values were rendered once at most, and kept no more often. One that was rendered has a name,
or it is a shared value that the events still to come do not use. -/
structure RenderedOnce (cx : Context) (levels : List Level) (events : List Event) (s : Emitter) :
    Prop where
  guarded : Guarded cx s [] levels s.scopes
  pure : ∀ scope ∈ s.scopes, ∀ id ∈ scope, cx.isEffect id = false
  once : ∀ id, cx.isSingle id → s.rendered.count id ≤ 1
  known : ∀ id ∈ s.rendered, cx.isSingle id →
    (∃ v, s.value? id = some v) ∨ cx.isShared id ∧ id ∉ usesOf cx events
  kept : ∀ id, cx.isSingle id → s.kept.count id ≤ s.rendered.count id

namespace RenderedOnce

variable {levels : List Level} {events : List Event} {s s' : Emitter}

theorem sameMemory (h : RenderedOnce cx levels events s) (hs : SameMemory s s') :
    RenderedOnce cx levels events s' := by
  refine ⟨?_, hs.scopes ▸ h.pure, hs.rendered ▸ h.once, ?_, hs.rendered ▸ hs.kept ▸ h.kept⟩
  · rw [hs.scopes]
    exact h.guarded.sameScopes fun id hid => hs.settled.2 hid
  · intro id hid hsingle
    rw [hs.value?]
    exact h.known id (hs.rendered ▸ hid) hsingle

/-- An evaluation renders no single value again: whatever it asks for has a name, or was not rendered
yet, since it is used. -/
theorem evaluates {root : NodeId} {v : Value} (h : RenderedOnce cx levels events s)
    (heval : Evaluates cx [root] s [v] s')
    (hused : ∀ id, cx.isShared id → ReflTransGen (Demands cx s) root id →
      id ∈ usesOf cx events)
    (harm : ∀ level ∈ levels.head?, ∃ arm, level.arm? = some arm ∧ ∀ id, cx.isShared id →
      ReflTransGen (Demands cx s) root id → id ∈ usesOf cx arm) :
    RenderedOnce cx levels events s' := by
  obtain ⟨new, hnew⟩ := heval.renders
  obtain ⟨scope, hscope, hlocal⟩ := heval.extends.scopes
  have hdemanded : ∀ id ∈ new, ReflTransGen (Demands cx s) root id := by
    intro id hid
    obtain ⟨_, hmem, hreach⟩ := hnew.demanded id hid
    exact List.mem_singleton.1 hmem ▸ hreach
  have hunseen : ∀ id ∈ new, cx.isSingle id → id ∉ s.rendered := by
    intro id hid hsingle hmem
    rcases h.known id hmem hsingle with ⟨w, hw⟩ | ⟨hshared, hunused⟩
    · rw [hnew.unbound id hid] at hw
      cases hw
    · exact hunused (hused id hshared (hdemanded id hid))
  refine ⟨?_, ?_, fun id hsingle => ?_, fun id hid hsingle => ?_,
    fun id hsingle => heval.count_kept_le (h.kept id hsingle)⟩
  · rw [hscope]
    refine h.guarded.grow (fun level hlevel => ?_) (fun id hid _ hset => ?_)
      fun id => heval.extends.settled
    · obtain ⟨arm, harm, hin⟩ := harm level hlevel
      refine ⟨arm, harm, fun id hid hshared => hin id hshared (hdemanded id ?_)⟩
      obtain ⟨w, hw⟩ := (hlocal id hid).bound
      exact (hnew.fresh id w (hlocal id hid).unbound hw).1
    · rcases hset with hset | ⟨w, hw⟩
      · exact (hlocal id hid).unpinned hset
      · rw [(hlocal id hid).unbound] at hw
        cases hw
  · rw [hscope]
    exact pure_of_modifyHead h.pure fun id hid => (hlocal id hid).pure
  · have hkeeps := hnew.once id (keeps_of_isSingle hsingle)
    rw [hnew.rendered, List.count_append]
    by_cases hid : id ∈ new
    · rw [List.count_eq_zero_of_not_mem (hunseen id hid hsingle)]
      omega
    · rw [List.count_eq_zero_of_not_mem hid]
      exact h.once id hsingle
  · rw [hnew.rendered, List.mem_append] at hid
    rcases hid with hid | hid
    · exact (h.known id hid hsingle).imp_left fun ⟨w, hw⟩ => ⟨w, heval.value?_of_some hw⟩
    · exact .inl (hnew.bound id hid (keeps_of_isSingle hsingle))

/-- Keeping a value that is not kept otherwise concerns no single value. -/
theorem fresh {id : NodeId} {node : Node} {e : Expr} (h : RenderedOnce cx levels events s)
    (hopen : UsedInArm cx levels []) (hnode : cx.graph.get? id = some node)
    (hkept : cx.isKept id node = false) (hvoid : node.ty.isVoid = false)
    (hid : s.value? id = none) :
    RenderedOnce cx levels events (s.materialize cx id node.ty e false) := by
  have hkeeps : cx.keeps id = false := by rw [Context.keeps, hnode, Option.any_some, hkept]
  have hshared : cx.isShared id = false :=
    Bool.eq_false_iff.2 fun hshared => by simp [keeps_of_isShared hshared] at hkeeps
  have hnames : ∀ {j v}, s.value? j = some v →
      (s.materialize cx id node.ty e false).value? j = some v := by
    intro j v hj
    rw [Emitter.value?_materialize, if_neg, hj]
    rintro rfl
    rw [hid] at hj
    cases hj
  have hscopes : (s.materialize cx id node.ty e false).scopes =
      s.scopes.modifyHead (· ++ [id]) := by
    rw [Emitter.materialize_eq]
    rfl
  have hrendered : (s.materialize cx id node.ty e false).rendered = s.rendered := by
    rw [Emitter.materialize_eq]
  have hpinned : (s.materialize cx id node.ty e false).pinned = s.pinned := by
    rw [Emitter.materialize_eq]
  refine ⟨?_, ?_, hrendered ▸ h.once, fun j hj hsingle => ?_, fun j hsingle => ?_⟩
  · rw [hscopes]
    refine h.guarded.grow (fun level hlevel => ?_) (fun j hj hj' => ?_) fun j hj => ?_
    · obtain ⟨arm, harm, _⟩ := hopen level hlevel
      refine ⟨arm, harm, fun j hj hj' => ?_⟩
      rw [List.mem_singleton.1 hj, hshared] at hj'
      cases hj'
    · rw [List.mem_singleton.1 hj, hshared] at hj'
      cases hj'
    · exact hj.imp (fun hj => hpinned ▸ hj) (Exists.imp fun v => hnames)
  · rw [hscopes]
    refine pure_of_modifyHead h.pure fun j hj => ?_
    rw [List.mem_singleton.1 hj]
    refine Bool.eq_false_iff.2 fun heffect => ?_
    have hvoid' : cx.isVoid id = false := by
      rw [Context.isVoid, hnode, Option.any_some, hvoid]
    rw [(keeps_iff_of_isEffect heffect).2 hvoid'] at hkeeps
    cases hkeeps
  · exact (h.known j (hrendered ▸ hj) hsingle).imp_left (Exists.imp fun v => hnames)
  · have hne : j ≠ id := by
      rintro rfl
      rw [keeps_of_isSingle hsingle] at hkeeps
      cases hkeeps
    have hzero : [id].count j = 0 := List.count_eq_zero_of_not_mem (by simpa using hne)
    rw [Emitter.kept_materialize, hrendered, List.count_append, hzero]
    exact h.kept j hsingle

theorem planned_iff {plan : Plan} {e : Event} {anchor : Anchor} {id : NodeId}
    (h : e.anchor? = some anchor) : Planned plan e id ↔ id ∈ plan.nodes anchor := by
  constructor
  · rintro ⟨other, hoist, hother, hfound, hid⟩
    obtain rfl := Option.some.inj (h.symm.trans hother)
    rw [Plan.nodes, hfound]
    exact hid
  · intro hid
    cases hfound : plan.hoist? anchor with
    | none => simp [Plan.nodes, hfound] at hid
    | some hoist => exact ⟨anchor, hoist, h, hfound, by simpa [Plan.nodes, hfound] using hid⟩

/-- An act of an event keeps the invariant if what the event uses, itself or before its construct, is
used in the current arm. -/
theorem act {plan : Plan} {e : Event} {rest : List Event}
    (hused : UsedInArm cx levels (e.uses cx))
    (hplanned : ∀ {id}, Planned plan e id → id ∈ usesOf cx rest ∧ UsedInArm cx levels [id])
    (hact : Act cx plan e s s') (h : RenderedOnce cx levels (e :: rest) s) :
    RenderedOnce cx levels (e :: rest) s' := by
  cases hact with
  | @evaluate root v _ _ hroot heval =>
    refine h.evaluates heval (fun id hshared hreach => ?_) fun level hlevel => ?_
    · rw [usesOf_cons]
      exact List.mem_append_left _ (mem_uses_of_root hroot hreach hshared)
    · obtain ⟨arm, harm, hin⟩ := hused level hlevel
      exact ⟨arm, harm, fun id hshared hreach => hin (mem_uses_of_root hroot hreach hshared)⟩
  | bind hid _ _ heval =>
    obtain ⟨hlater, harm⟩ := hplanned hid
    refine h.evaluates heval (fun id hshared hreach => ?_) fun level hlevel => ?_
    · rw [usesOf_cons]
      exact List.mem_append_right _ (mem_usesOf_of_demands hlater hreach hshared)
    · obtain ⟨arm, harm, hin⟩ := harm level hlevel
      exact ⟨arm, harm, fun id hshared hreach =>
        mem_usesOf_of_demands (hin List.mem_cons_self) hreach hshared⟩
  | @pin id _ _ _ _ hsame =>
    have hpinned : RenderedOnce cx levels (e :: rest) { s with pinned := id :: s.pinned } := by
      refine ⟨h.guarded.sameScopes fun j hj => ?_, h.pure, h.once, h.known, h.kept⟩
      exact hj.imp_left (List.mem_cons_of_mem _)
    exact hpinned.sameMemory hsame
  | fresh _ hnode hkept hvoid hv _ =>
    exact h.fresh (hused.mono (List.nil_subset _)) hnode hkept hvoid hv
  | note hsame => exact h.sameMemory hsame

/-! ### Arms and constructs -/

theorem tail {e : Event} {rest : List Event} (h : RenderedOnce cx levels (e :: rest) s) :
    RenderedOnce cx levels rest s := by
  refine ⟨h.guarded, h.pure, h.once, fun id hid hsingle => ?_, h.kept⟩
  refine (h.known id hid hsingle).imp_right fun ⟨hshared, hunused⟩ => ⟨hshared, fun hmem => ?_⟩
  rw [usesOf_cons] at hunused
  exact hunused (List.mem_append_right _ hmem)

/-- A construct opens after what is listed for it was settled. -/
theorem push {safe : List NodeId} (h : RenderedOnce cx levels events s)
    (hsafe : ∀ id ∈ safe, cx.isShared id ∧ s.Settled id) :
    RenderedOnce cx (⟨safe, none⟩ :: levels) events s :=
  ⟨⟨fun id hid => ⟨(hsafe id hid).1, List.not_mem_nil, (hsafe id hid).2⟩, h.guarded⟩, h.pure,
    h.once, h.known, h.kept⟩

theorem pop {safe : List NodeId} (h : RenderedOnce cx (⟨safe, none⟩ :: levels) events s) :
    RenderedOnce cx levels events s :=
  ⟨h.guarded.2, h.pure, h.once, h.known, h.kept⟩

theorem startArm {safe : List NodeId} (arm : List Event)
    (h : RenderedOnce cx (⟨safe, none⟩ :: levels) events s) :
    RenderedOnce cx (⟨safe, some arm⟩ :: levels) events s.openScope := by
  have hguarded : Guarded cx s.openScope [] (⟨safe, none⟩ :: levels) s.scopes :=
    h.guarded.sameScopes fun _ hid => hid
  refine ⟨⟨by simp, hguarded.1, hguarded.2⟩, fun scope hscope => ?_, h.once, h.known, h.kept⟩
  rcases List.mem_cons.1 hscope with rfl | hscope
  · simp
  · exact h.pure scope hscope

/-- When an arm ends, what its scope holds is not used any more: it would have been settled outside
the scope. -/
theorem endArm {safe : List NodeId} {arm : List Event}
    (h : RenderedOnce cx (⟨safe, some arm⟩ :: levels) events s)
    (hend : MayEnd cx safe (some arm) events) :
    RenderedOnce cx (⟨safe, none⟩ :: levels) events s.closeScope := by
  have hguarded := h.guarded
  cases hs : s.scopes with
  | nil =>
    rw [hs] at hguarded
    cases hguarded
  | cons scope scopes =>
    rw [hs] at hguarded
    obtain ⟨hscope, hsafe, hrest⟩ := hguarded
    rw [List.append_nil] at hsafe hrest
    have hsettled : ∀ id ∉ scope, s.Settled id → s.closeScope.Settled id := by
      intro id hid hset
      rw [Emitter.Settled, s.value?_closeScope hs, if_neg hid, s.closeScope_eq hs]
      exact hset
    refine ⟨⟨fun id hid => ?_, ?_⟩, fun other hother => ?_, ?_, fun id hid hsingle => ?_, ?_⟩
    · have hout := hsafe id hid
      exact ⟨hout.shared, List.not_mem_nil, hsettled id hout.outside hout.settled⟩
    · rw [s.closeScope_eq hs]
      refine hrest.mono (fun id hid => by cases hid) fun id hid hset => ?_
      exact s.closeScope_eq hs ▸ hsettled id hid hset
    · rw [s.closeScope_eq hs] at hother
      exact h.pure other (hs ▸ List.mem_cons_of_mem _ hother)
    · rw [s.closeScope_eq hs]
      exact h.once
    · rw [s.closeScope_eq hs] at hid
      rw [s.value?_closeScope hs]
      split_ifs with hmem
      · -- a value of the scope that is used later was settled outside
        have hpure := h.pure scope (hs ▸ List.mem_cons_self) id hmem
        have hshared : cx.isShared id := by simpa [Context.isSingle, hpure] using hsingle
        refine .inr ⟨hshared, fun hlater => ?_⟩
        have hin := hend arm rfl id (hscope id hmem hshared) hlater
        exact (hsafe id hin).outside hmem
      · exact h.known id hid hsingle
    · rw [Emitter.kept_closeScope, s.closeScope_eq hs]
      exact h.kept

/-- One arm of a construct gives way to another one. -/
theorem turn {safe : List NodeId} {arm? : Option (List Event)} (arm'? : Option (List Event))
    (h : RenderedOnce cx (⟨safe, arm?⟩ :: levels) events s) (hend : MayEnd cx safe arm? events) :
    RenderedOnce cx (⟨safe, arm'?⟩ :: levels) events (s.change (Source.turn arm? arm'?)) := by
  cases arm? with
  | none =>
    cases arm'? with
    | none => exact h
    | some arm => exact h.startArm arm
  | some arm =>
    cases arm'? with
    | none => exact h.endArm hend
    | some arm' => exact (h.endArm hend).startArm arm'

end RenderedOnce

/-! ### Along a replay -/

/-- An event without roots that opens nothing leaves the memory alone until it changes the scopes. -/
theorem Acts.sameMemory {plan : Plan} {e : Event} {s s' : Emitter} (hroots : e.roots cx = [])
    (hanchor : e.anchor? = none) (h : Acts cx plan e s s') : SameMemory s s' := by
  induction h with
  | refl => exact .refl s
  | tail _ hact ih =>
    refine ih.trans ?_
    cases hact with
    | evaluate hid _ =>
      rw [hroots] at hid
      cases hid
    | bind hid => exact absurd hid (not_planned hanchor)
    | pin hid => exact absurd hid (not_planned hanchor)
    | fresh he =>
      rw [he] at hroots
      cases hroots
    | note hsame => exact hsame

/-- One event: the events to come fit the constructs open afterwards, and no single value is rendered
again. -/
theorem RenderedOnce.emitted {plan : Plan} {levels : List Level} {e : Event} {rest : List Event}
    {s s' : Emitter} (hfits : Fits cx plan levels (e :: rest))
    (hplan : ∀ {anchor}, e.anchor? = some anchor → s.plan.nodes anchor = plan.nodes anchor)
    (h : RenderedOnce cx levels (e :: rest) s) (he : Emitted cx e s s') :
    ∃ levels', Fits cx plan levels' rest ∧ RenderedOnce cx levels' rest s' := by
  obtain ⟨m, hacts, hsettled, hsame⟩ := he.acts
  have hrun : UsedInArm cx levels (e.uses cx) →
      (∀ {id}, Planned s.plan e id → id ∈ usesOf cx rest ∧ UsedInArm cx levels [id]) →
      RenderedOnce cx levels rest m := by
    intro hused hplanned
    suffices hm : RenderedOnce cx levels (e :: rest) m from hm.tail
    clear hsame hsettled
    induction hacts with
    | refl => exact h
    | tail _ hact ih => exact ih.act hused hplanned hact
  cases hfits with
  | leaf hanchor hchange hused hrest =>
    have hm := hrun hused fun hid => absurd hid (not_planned hanchor)
    rw [hchange] at hsame
    exact ⟨levels, hrest, hm.sameMemory hsame⟩
  | @start _ _ _ anchor arm? hanchor hchange hused hlater hrest =>
    have hplanned : ∀ {id}, Planned s.plan e id ↔ id ∈ plan.nodes anchor := by
      intro id
      rw [planned_iff hanchor, hplan hanchor]
    have hm := hrun (hused.mono (List.subset_append_left _ _)) fun hid =>
      ⟨hlater (hplanned.1 hid), hused.mono (List.cons_subset.2
        ⟨List.mem_append_right _ (hplanned.1 hid), List.nil_subset _⟩)⟩
    have hpush : RenderedOnce cx (⟨plan.nodes anchor, none⟩ :: levels) rest m := by
      refine hm.push fun id hid => ?_
      have hshared := isShared_of_mem_usesOf (hlater hid)
      exact ⟨hshared, hsettled (hplanned.2 hid) (keeps_of_isShared hshared)⟩
    rw [hchange] at hsame
    exact ⟨_, hrest, (hpush.turn arm? (mayEnd_none _ _)).sameMemory hsame⟩
  | @next _ _ levels _ _ arm'? hanchor hroots hchange hend hrest =>
    have hm := (h.sameMemory (hacts.sameMemory hroots hanchor)).tail
    rw [hchange] at hsame
    exact ⟨_, hrest, (hm.turn arm'? hend).sameMemory hsame⟩
  | finish hanchor hroots hchange hend hrest =>
    have hm := (h.sameMemory (hacts.sameMemory hroots hanchor)).tail
    rw [hchange] at hsame
    exact ⟨_, hrest, ((hm.turn none hend).sameMemory hsame).pop⟩

theorem renderedOnce_start (events : List Event) :
    RenderedOnce cx [] events (Emitter.start cx) := by
  refine ⟨trivial, ?_, ?_, ?_, ?_⟩
  · rw [Emitter.scopes_start]
    simp
  · rw [Emitter.rendered_start]
    simp
  · rw [Emitter.rendered_start]
    simp
  · rw [Emitter.kept, Emitter.lines_start]
    simp

/-- At every point of a replay the invariant holds, and the plan still has its entries for the
constructs to come. -/
theorem Reached.renderedOnce (hdistinct : Distinct cx.method.body) {done rest : List Event}
    {s : Emitter} (h : Reached cx done rest s) :
    (∀ anchor ∈ rest.filterMap Event.anchor?, s.plan.hoist? anchor =
      (Plan.ofBody cx.graph cx.isShared cx.method.body).hoist? anchor) ∧
      ∃ levels, Fits cx (Plan.ofBody cx.graph cx.isShared cx.method.body) levels rest ∧
        RenderedOnce cx levels rest s := by
  refine h.induct (motive := fun _ rest s => (∀ anchor ∈ rest.filterMap Event.anchor?,
    s.plan.hoist? anchor = (Plan.ofBody cx.graph cx.isShared cx.method.body).hoist? anchor) ∧
      ∃ levels, Fits cx (Plan.ofBody cx.graph cx.isShared cx.method.body) levels rest ∧
        RenderedOnce cx levels rest s) ?_ ?_
  · exact ⟨fun _ _ => rfl, [], fits_plan hdistinct, renderedOnce_start _⟩
  rintro done rest e s s' hreached hevent ⟨hplan, levels, hfits, honce⟩
  have hnodup : ((e :: rest).filterMap Event.anchor?).Nodup := by
    have hall : Distinct cx.method.body := hdistinct
    rw [Distinct, ← hreached.events, List.filterMap_append, List.nodup_append] at hall
    exact hall.2.1
  refine ⟨fun anchor hanchor => ?_, honce.emitted hfits (fun {anchor} hanchor => ?_) hevent⟩
  · have hother : e.anchor? ≠ some anchor := by
      intro he
      rw [List.filterMap_cons_some he] at hnodup
      exact (List.nodup_cons.1 hnodup).1 hanchor
    rw [hevent.frames.plan hother]
    refine hplan anchor ?_
    rw [List.mem_filterMap] at hanchor ⊢
    obtain ⟨e', he', hanchor⟩ := hanchor
    exact ⟨e', List.mem_cons_of_mem _ he', hanchor⟩
  · rw [Plan.nodes, hplan anchor (List.mem_filterMap.2 ⟨e, List.mem_cons_self, hanchor⟩)]
    rfl

end KernelForge.Source
