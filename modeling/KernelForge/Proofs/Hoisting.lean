import KernelForge.Proofs.Availability
import KernelForge.Proofs.Pinning

/-!
# What binding planned values does

Before a construct opens, each value listed for it is taken in turn (`Outcome`): one that has a name is
left alone, one that is blocked is pinned, and any other is evaluated. Evaluating renders no side
effect and nothing that reads a phi that is still to be assigned, since the check before it has looked
at everything that the evaluation asks for.
-/

namespace KernelForge.Source

open Relation

variable {cx : Context} {unstable : List NodeId} {id : NodeId} {s s' : Emitter}

/-! ### One value -/

/-- A value belongs to the innermost open scope. -/
def Emitter.InCurrentScope (s : Emitter) (id : NodeId) : Prop :=
  ∃ scope outer, s.scopes = scope :: outer ∧ id ∈ scope

/-- What binding one listed value can do to the emitter. -/
inductive Outcome (cx : Context) (unstable : List NodeId) (id : NodeId) (s : Emitter) :
    Emitter → Prop
  /-- It has a name already. -/
  | known {v : Value} (hv : s.value? id = some v) : Outcome cx unstable id s s
  /-- It is pinned. -/
  | pinned (hv : s.value? id = none) :
      Outcome cx unstable id s { s with pinned := id :: s.pinned }
  /-- It is evaluated, which renders the nodes `new`, and has a name afterwards. -/
  | evaluated {s' : Emitter} {v : Value} {new : List NodeId} (hv : s.value? id = none)
      (heval : evaluate cx id s = .ok v s') (hrendered : s'.rendered = s.rendered ++ new)
      (hpure : ∀ m ∈ new, cx.isEffect m = false)
      (hstable : ∀ m ∈ new, ∀ operand, cx.Takes m operand → operand ∉ unstable)
      (hbound : s'.value? id = some v) (hpinned : s'.pinned = s.pinned)
      (hscope : id ∉ s.pinned → s'.InCurrentScope id) : Outcome cx unstable id s s'

/-- An evaluation of a value that is not blocked renders nothing that stands in the way. -/
theorem Renders.not_hinders {new : List NodeId} (h : Renders cx [id] s s' new)
    (hfree : ¬ Blocked cx unstable s id) :
    (∀ m ∈ new, cx.isEffect m = false) ∧
      ∀ m ∈ new, ∀ operand, cx.Takes m operand → operand ∉ unstable := by
  have hdemanded : ∀ m ∈ new, ReflTransGen (Demands cx s) id m := by
    intro m hm
    obtain ⟨_, hmem, hreach⟩ := h.demanded m hm
    exact List.mem_singleton.1 hmem ▸ hreach
  refine ⟨fun m hm => Bool.eq_false_iff.2 fun heffect => ?_, fun m hm operand htakes hmem => ?_⟩
  · exact hfree ⟨m, hdemanded m hm, .inr ⟨h.unbound m hm, heffect⟩⟩
  · have hdemand : Demands cx s m operand := ⟨h.unbound m hm, htakes⟩
    exact hfree ⟨operand, (hdemanded m hm).tail hdemand, .inl hmem⟩

/-- A shared value that is rendered is kept, in the current scope unless it was pinned. -/
theorem Evaluates.keeps_shared {v : Value} (h : Evaluates cx [id] s [v] s')
    (hv : s.value? id = none) (hshared : cx.isShared id = true) (hscopes : s.scopes ≠ []) :
    s'.value? id = some v ∧ (id ∉ s.pinned → s'.InCurrentScope id) := by
  cases h with
  | known hv' _ =>
    rw [hv] at hv'
    cases hv'
  | @render _ node _ _ s₁ s₂ _ args _ _ _ hnode hargs hv₁ hprod hrest =>
    cases hrest
    have hkept : cx.isKept id node = true := by
      have hkeeps := keeps_of_isShared hshared
      rwa [Context.keeps, hnode, Option.any_some] at hkeeps
    have hpure : node.hasSideEffects = false := by
      simp only [Context.isShared, hnode] at hshared
      simp_all
    refine ⟨by rw [hprod.value?, if_pos ⟨rfl, hkept⟩], fun hpinned => ?_⟩
    cases hprod with
    | inline _ hk =>
      rw [hkept] at hk
      cases hk
    | kept =>
      obtain ⟨new, hnew, -⟩ := hargs.extends.scopes
      obtain ⟨scope, outer, hscope⟩ := List.exists_cons_of_ne_nil hscopes
      have hrender : (s₁.render id).scopes = (scope ++ new) :: outer := by
        rw [Emitter.render, hnew, hscope, List.modifyHead_cons]
      have hunpinned : s₁.pinned.contains id = false := by
        rw [hargs.extends.pinned]
        simpa using hpinned
      refine ⟨scope ++ new ++ [id], outer, ?_, by simp⟩
      rw [hpure, hunpinned, Emitter.materialize_eq, hrender]
      rfl
    | array hkind =>
      simp [Node.hasSideEffects, NodeKind.hasSideEffects, hkind] at hpure

/-- Binding a listed value that is shared, in a state with an open scope: it is looked up, pinned or
evaluated, and it is pinned exactly if it is blocked. -/
theorem outcome_of_ok (hshared : cx.isShared id = true) (hscopes : s.scopes ≠ [])
    (h : hoistNode cx unstable id s = .ok () s') :
    Outcome cx unstable id s s' ∧
      (s.value? id = none → (s'.pinned = id :: s.pinned ↔ Blocked cx unstable s id)) := by
  simp only [hoistNode, Emit.bind_ok, Emit.get_ok] at h
  obtain ⟨_, _, ⟨rfl, rfl⟩, h⟩ := h
  split_ifs at h with hbound
  · obtain ⟨-, rfl⟩ := Emit.pure_ok.1 h
    obtain ⟨v, hv⟩ := s.isBound_iff.1 hbound
    exact ⟨.known hv, fun hnone => by rw [hv] at hnone; cases hnone⟩
  · have hv : s.value? id = none := s.not_isBound_iff.1 (by simpa using hbound)
    simp only [Emit.bind_ok, Emit.lift_ok] at h
    obtain ⟨available, _, ⟨havailable, rfl⟩, h⟩ := h
    have hblocked := blocked_iff havailable
    split_ifs at h with hnow
    · obtain ⟨v, s₁, heval, hpure⟩ := Emit.bind_ok.1 h
      obtain ⟨-, rfl⟩ := Emit.pure_ok.1 hpure
      have hfree : ¬ Blocked cx unstable s id := by rw [hblocked, hnow]; simp
      have hevaluates := evaluates_of_ok heval
      obtain ⟨new, hnew⟩ := hevaluates.renders
      obtain ⟨hpure, hstable⟩ := hnew.not_hinders hfree
      obtain ⟨hvalue, hscope⟩ := hevaluates.keeps_shared hv hshared hscopes
      have hpinned := hevaluates.extends.pinned
      refine ⟨.evaluated hv heval hnew.rendered hpure hstable hvalue hpinned hscope, fun _ => ?_⟩
      rw [hpinned]
      exact iff_of_false (fun heq => by simpa using congrArg List.length heq) hfree
    · obtain rfl := Emit.modify_ok.1 h
      exact ⟨.pinned hv, fun _ => iff_of_true rfl (hblocked.2 (by simpa using hnow))⟩

/-! ### A list of values -/

/-- What is bound stays bound, and in its scope, while more values are bound. -/
theorem Binds.keeps {ids : List NodeId} (h : Binds cx unstable ids s s') :
    (∀ {j v}, s.value? j = some v → s'.value? j = some v) ∧
      ∀ {j}, s.InCurrentScope j → s'.InCurrentScope j := by
  induction h with
  | nil => exact ⟨fun hv => hv, fun hj => hj⟩
  | known _ _ ih => exact ih
  | now _ _ heval _ ih =>
    refine ⟨fun hv => ih.1 (heval.value?_of_some hv), fun hj => ih.2 ?_⟩
    obtain ⟨scope, outer, hscopes, hmem⟩ := hj
    obtain ⟨new, hnew, -⟩ := heval.extends.scopes
    refine ⟨scope ++ new, outer, ?_, List.mem_append_left _ hmem⟩
    rw [hnew, hscopes, List.modifyHead_cons]
  | pin _ _ ih => exact ⟨fun hv => ih.1 hv, fun hj => ih.2 hj⟩

/-- Binding values pins some of them. -/
theorem Binds.pinned {ids : List NodeId} (h : Binds cx unstable ids s s') {j : NodeId}
    (hj : j ∈ s'.pinned) : j ∈ s.pinned ∨ j ∈ ids := by
  induction h with
  | nil => exact .inl hj
  | known _ _ ih => exact (ih hj).imp_right (List.mem_cons_of_mem _)
  | now _ _ heval _ ih =>
    rw [heval.extends.pinned] at ih
    exact (ih hj).imp_right (List.mem_cons_of_mem _)
  | @pin first _ _ _ _ _ ih =>
    rcases ih hj with hj | hj
    · rcases List.mem_cons.1 hj with rfl | hj
      · exact .inr List.mem_cons_self
      · exact .inl hj
    · exact .inr (List.mem_cons_of_mem _ hj)

theorem Binds.length_scopes {ids : List NodeId} (h : Binds cx unstable ids s s') :
    s'.scopes.length = s.scopes.length := by
  induction h with
  | nil => rfl
  | known _ _ ih | pin _ _ ih => exact ih
  | now _ _ heval _ ih =>
    obtain ⟨new, hnew, -⟩ := heval.extends.scopes
    rw [ih, hnew, List.length_modifyHead]

/-- Binding what is planned for a construct takes the listed values one after the other. -/
theorem exists_hoistNode {anchor : Anchor} {planned : Hoist}
    (hplan : s.plan.hoist? anchor = some planned) (h : hoist cx anchor s = .ok () s')
    {before after : List NodeId} (hnodes : planned.nodes = before ++ id :: after) :
    ∃ s₁ s₂, before.forM (hoistNode cx planned.unstable)
        { s with plan := s.plan.without anchor } = .ok () s₁ ∧
      hoistNode cx planned.unstable id s₁ = .ok () s₂ ∧
      after.forM (hoistNode cx planned.unstable) s₂ = .ok () s' := by
  simp only [hoist, Emit.bind_ok, Emit.get_ok] at h
  obtain ⟨_, _, ⟨rfl, rfl⟩, h⟩ := h
  rw [hplan] at h
  simp only [Emit.bind_ok, Emit.modify_ok] at h
  obtain ⟨_, _, rfl, h⟩ := h
  rw [hnodes, List.forM_eq_forM, List.forM_append, Emit.bind_ok] at h
  obtain ⟨_, s₁, hbefore, h⟩ := h
  rw [← List.forM_eq_forM, forM_cons_ok] at h
  obtain ⟨s₂, hid, hafter⟩ := h
  exact ⟨s₁, s₂, hbefore, hid, hafter⟩

/-! ### What is listed -/

theorem nodup_eraseDups (ids : List NodeId) : ids.eraseDups.Nodup := by
  induction hn : ids.length using Nat.strong_induction_on generalizing ids with
  | _ n ih =>
  cases ids with
  | nil => simp
  | cons first rest =>
    rw [List.eraseDups_cons, List.nodup_cons, List.mem_eraseDups]
    refine ⟨by simp, ih _ ?_ _ rfl⟩
    rw [← hn, List.length_cons]
    exact Nat.lt_succ_of_le (List.length_filter_le _ _)

/-- Every entry of a plan lists what the survey says of some span. -/
theorem Survey.exists_of_hoist?_plan {survey : Survey} {anchor : Anchor} {planned : Hoist}
    (h : (survey.plan cx.graph).hoist? anchor = some planned) :
    ∃ span c, planned = ⟨survey.hoisted span, survey.unstable cx.graph c span⟩ := by
  rw [Survey.plan_eq] at h
  revert h
  apply List.foldlRecOn (motive := fun plan : Plan => plan.hoist? anchor = some planned →
    ∃ span c, planned = ⟨survey.hoisted span, survey.unstable cx.graph c span⟩)
  · intro h
    cases h
  · intro plan hplan entry _ h
    unfold Survey.enterSpan at h
    split_ifs at h
    · exact hplan h
    · rw [Plan.hoist?_enter] at h
      split_ifs at h
      · exact ⟨entry.1, entry.2, (Option.some.inj h).symm⟩
      · exact hplan h

/-- A value is listed once for a construct. -/
theorem nodup_of_planned {body : List Stmt} {anchor : Anchor} {planned : Hoist}
    (h : (Plan.ofBody cx.graph cx.isShared body).hoist? anchor = some planned) :
    planned.nodes.Nodup := by
  obtain ⟨span, c, rfl⟩ := Survey.exists_of_hoist?_plan h
  exact (nodup_eraseDups _).filter _

/-! ### In a replay -/

/-- The emitter when an event turns to what is planned for the construct that it opens. -/
inductive Arrives (cx : Context) : Event → Emitter → Emitter → Prop
  | startBlock {b : Block} {s : Emitter} (hlabel : b.label ∉ s.labels) :
      Arrives cx (.startBlock b) s { s with labels := b.label :: s.labels }
  | startIf {choice operand : NodeId} {s s₁ : Emitter} {v : Value}
      (hoperand : choiceOperand cx .branch choice = .ok operand)
      (heval : evaluate cx operand s = .ok v s₁) : Arrives cx (.startIf choice) s s₁
  | startSwitch {choice operand : NodeId} {s s₁ : Emitter} {v : Value}
      (hoperand : choiceOperand cx .switch choice = .ok operand)
      (heval : evaluate cx operand s = .ok v s₁) : Arrives cx (.startSwitch choice) s s₁

/-- An event that opens a construct binds what is planned for it when it has arrived there. -/
theorem exists_arrives {e : Event} {anchor : Anchor} (h : emitEvent cx e s = .ok () s')
    (he : e.anchor? = some anchor) :
    ∃ s₁ s₂, Arrives cx e s s₁ ∧ hoist cx anchor s₁ = .ok () s₂ := by
  cases e with
  | startBlock b =>
    obtain rfl := Option.some.inj he
    simp only [emitEvent, startBlock, Emit.bind_ok, Emit.get_ok] at h
    obtain ⟨_, _, ⟨rfl, rfl⟩, h⟩ := h
    split_ifs at h with hlabel
    · simp [Emit.bind_ok] at h
    · simp only [Emit.bind_ok, Emit.modify_ok] at h
      obtain ⟨_, _, rfl, _, s₂, hhoist, -⟩ := h
      exact ⟨_, s₂, .startBlock (by simpa using hlabel), hhoist⟩
  | startIf choice =>
    obtain rfl := Option.some.inj he
    simp only [emitEvent, startIf, Emit.bind_ok, Emit.lift_ok] at h
    obtain ⟨operand, _, ⟨hoperand, rfl⟩, v, s₁, heval, _, s₂, hhoist, -⟩ := h
    exact ⟨s₁, s₂, .startIf hoperand heval, hhoist⟩
  | startSwitch choice =>
    obtain rfl := Option.some.inj he
    simp only [emitEvent, startSwitch, Emit.bind_ok, Emit.lift_ok] at h
    obtain ⟨operand, _, ⟨hoperand, rfl⟩, v, s₁, heval, _, s₂, hhoist, -⟩ := h
    exact ⟨s₁, s₂, .startSwitch hoperand heval, hhoist⟩
  | _ => cases he

/-- An emitter that a replay comes across when the events `done` are over and `rest` is to come: between
two events, or when the next one turns to what is planned for its construct. -/
inductive Met (cx : Context) : List Event → List Event → Emitter → Prop
  | between {done rest : List Event} {s : Emitter} (h : Reached cx done rest s) :
      Met cx done rest s
  | opening {done rest : List Event} {e : Event} {s s₁ : Emitter}
      (h : Reached cx done (e :: rest) s) (harrives : Arrives cx e s s₁) :
      Met cx done (e :: rest) s₁

/-- An emitter inside an event is like that before the event, but for a label or some more values. -/
theorem Met.exists_reached {done rest : List Event} (h : Met cx done rest s) :
    ∃ s₀, Reached cx done rest s₀ ∧ s.plan = s₀.plan ∧ s.pinned = s₀.pinned ∧
      s.scopes.length = s₀.scopes.length ∧ ∀ {j}, s.value? j = none → s₀.value? j = none := by
  cases h with
  | between h => exact ⟨s, h, rfl, rfl, rfl, fun hj => hj⟩
  | opening h harrives =>
    refine ⟨_, h, ?_⟩
    cases harrives with
    | startBlock => exact ⟨rfl, rfl, rfl, fun hj => hj⟩
    | startIf _ heval | startSwitch _ heval =>
      have hextends := (evaluates_of_ok heval).extends
      obtain ⟨new, hnew, -⟩ := hextends.scopes
      exact ⟨hextends.plan, hextends.pinned, by rw [hnew, List.length_modifyHead],
        fun hj => hextends.value?_none hj⟩

/-- Some event of the replay so far pinned a value. The construct that it opened is still open, if no
control node of a branch or switch occurs twice, the labels are distinct or the replay succeeds, and
the kernel object takes no operands. -/
def PinnedBefore (cx : Context) (done : List Event) (id : NodeId) : Prop :=
  ∃ outer e mid, done = outer ++ e :: mid ∧ PinnedAt cx outer e id ∧
    (((bodyEvents cx.method.body).filterMap Event.choice?).Nodup → Labelled cx →
      PlainReceivers cx.graph → Encloses cx outer done)

/-- A value that is listed for a construct to come, has no name and is pinned was pinned before. -/
theorem Met.pinnedBefore {done rest : List Event} (h : Met cx done rest s) {anchor : Anchor}
    {planned : Hoist} (hplan : s.plan.hoist? anchor = some planned) (hlisted : id ∈ planned.nodes)
    (hid : s.value? id = none) (hpinned : id ∈ s.pinned) : PinnedBefore cx done id := by
  obtain ⟨s₀, hreached, hplan₀, hpinned₀, -, hnames⟩ := h.exists_reached
  obtain ⟨outer, e, mid, rfl, hat⟩ := hreached.exists_pinnedAt (hpinned₀ ▸ hpinned)
  refine ⟨outer, e, mid, rfl, hat, fun hchoices hlabelled hplain => ?_⟩
  have hdistinct := hlabelled.distinct hchoices
  have hused := hreached.mem_usesOf_of_planned hdistinct (hplan₀ ▸ hplan) hlisted
  exact hreached.encloses hdistinct hplain (hnames hid) hused hat

/-- The availability check ends on every graph. Whenever binding what is planned for a construct
succeeds at some point of a replay, every listed value is left alone, pinned or evaluated; one without
a name is pinned exactly if it is blocked; what is bound stays bound; and only a value that was pinned
before can be evaluated into another scope than the current one. -/
theorem hoist_binds_or_pins (cx : Context) :
    (∀ (s : Emitter) (unstable : List NodeId) (id : NodeId),
      Check.answer? cx s unstable (cx.graph.slots + 2) { pending := [id] } =
        some (isAvailable cx s unstable id)) ∧
    ∀ {done rest : List Event} {s s' : Emitter} {anchor : Anchor} {planned : Hoist},
      Met cx done rest s → s.plan.hoist? anchor = some planned →
      hoist cx anchor s = .ok () s' →
      ∀ {before after : List NodeId} {id : NodeId}, planned.nodes = before ++ id :: after →
        ∃ s₁ s₂, before.forM (hoistNode cx planned.unstable)
            { s with plan := s.plan.without anchor } = .ok () s₁ ∧
          hoistNode cx planned.unstable id s₁ = .ok () s₂ ∧
          after.forM (hoistNode cx planned.unstable) s₂ = .ok () s' ∧
          Outcome cx planned.unstable id s₁ s₂ ∧
          (s₁.value? id = none →
            (s₂.pinned = id :: s₁.pinned ↔ Blocked cx planned.unstable s₁ id)) ∧
          (∀ v, s₂.value? id = some v → s'.value? id = some v) ∧
          (s₂.InCurrentScope id → s'.InCurrentScope id) ∧
          (s₁.value? id = none → id ∈ s₁.pinned → PinnedBefore cx done id) := by
  refine ⟨answer?_isAvailable, ?_⟩
  intro done rest s s' anchor planned hmet hplan hhoist before after id hnodes
  obtain ⟨s₁, s₂, hbefore, hid, hafter⟩ := exists_hoistNode hplan hhoist hnodes
  have hbinds := binds_of_ok hbefore
  obtain ⟨s₀, hreached, hplan₀, -, hlength, -⟩ := hmet.exists_reached
  have hstart := hreached.hoist?_of_some (hplan₀ ▸ hplan)
  have hlisted : id ∈ planned.nodes := by simp [hnodes]
  have hscopes : s₁.scopes ≠ [] := by
    have hopen := hreached.leveled.scopes
    apply List.ne_nil_of_length_pos
    rw [hbinds.length_scopes]
    change 0 < s.scopes.length
    omega
  obtain ⟨houtcome, hblocked⟩ := outcome_of_ok (plansShared_start hstart id hlisted) hscopes hid
  obtain ⟨hnames, hscope⟩ := (binds_of_ok hafter).keeps
  refine ⟨s₁, s₂, hbefore, hid, hafter, houtcome, hblocked, fun v => hnames, hscope, ?_⟩
  intro hunbound hpinned
  refine hmet.pinnedBefore hplan hlisted ?_ ((hbinds.pinned hpinned).resolve_right ?_)
  · cases hv : s.value? id with
    | none => rfl
    | some v =>
      rw [hbinds.keeps.1 hv] at hunbound
      cases hunbound
  · -- a value is listed once, so it was not pinned by the same hoist
    have hnodup := nodup_of_planned hstart
    rw [hnodes, List.nodup_append] at hnodup
    exact fun hmem => hnodup.2.2 id hmem id List.mem_cons_self rfl

/-- A loop that computes a sum and a product. The sum reads a phi that the loop assigns, so it is pinned
before the loop; the block inside assigns nothing, so the sum is evaluated before that block. -/
def sumInLoop : Context where
  cls := { name := ⟨"Kernel"⟩ }
  method :=
    { name := "run"
      params := [⟨"n", .int⟩, ⟨"xs", .array .int⟩]
      graph := ⟨#[.param 0 .int, .param 1 (.array .int), .marker .goto, .phi .int [(2, 0)],
        ⟨.binary .add, .int, [3, 0]⟩, ⟨.binary .mul, .int, [0, 0]⟩, .arrayStore 1 0 4,
        .arrayStore 1 4 5, .arrayStore 1 5 4]⟩
      body := [.block ⟨"L", true⟩ [.block ⟨"D", false⟩ [.effect 6], .effect 7, .again 2 "L"],
        .effect 8] }

theorem hoist_binds_or_pins_sumInLoop :
    ∃ done rest s s' s₁ s₂, Met sumInLoop done rest s ∧
      hoist sumInLoop (.block "D") s = .ok () s' ∧ Outcome sumInLoop [] 4 s₁ s₂ ∧
      s₁.value? 4 = none ∧
      ∃ outer e, PinnedAt sumInLoop outer e 4 ∧ Encloses sumInLoop outer done := by
  have hstart : (Emit.done? (emitEvent sumInLoop (.startBlock ⟨"L", true⟩))
      (Emitter.start sumInLoop)).map (fun r => (r.2.labels, r.2.pinned, r.2.isBound 4,
        r.2.plan.hoist? (.block "D"))) = some (["L"], [4], false, some ⟨[4], []⟩) := by cbv
  have hbind : (Emit.done? (emitEvent sumInLoop (.startBlock ⟨"L", true⟩))
      (Emitter.start sumInLoop)).any (fun r => (Emit.done? (hoist sumInLoop (.block "D"))
        { r.2 with labels := "D" :: r.2.labels }).isSome) = true := by cbv
  obtain ⟨_, s, hrun⟩ := Emit.exists_ok (emitEvent sumInLoop (.startBlock ⟨"L", true⟩))
    (Emitter.start sumInLoop) (by cbv)
  rw [Emit.done?_of_ok hrun] at hstart hbind
  simp only [Option.map_some, Option.some.injEq, Prod.mk.injEq] at hstart
  obtain ⟨hlabels, hpinned, hbound, hplan⟩ := hstart
  have hreached : Reached sumInLoop [.startBlock ⟨"L", true⟩] _ s :=
    ⟨rfl, forM_cons_ok.2 ⟨s, hrun, forM_nil_ok.2 rfl⟩⟩
  have hmet := Met.opening hreached (.startBlock (by simp [hlabels]))
  obtain ⟨_, s', hhoist⟩ := Emit.exists_ok (hoist sumInLoop (.block "D"))
    { s with labels := "D" :: s.labels } hbind
  obtain ⟨s₁, s₂, hbefore, -, -, houtcome, -, -, -, hbefore'⟩ :=
    (hoist_binds_or_pins sumInLoop).2 hmet hplan hhoist (show [4] = [] ++ 4 :: [] from rfl)
  obtain rfl := forM_nil_ok.1 hbefore
  have hunbound := (Emitter.not_isBound_iff _).1 hbound
  obtain ⟨outer, e, _, _, hat, hencloses⟩ := hbefore' hunbound (by simp [hpinned])
  exact ⟨_, _, _, _, _, _, hmet, hhoist, houtcome, hunbound, outer, e, hat,
    hencloses (by decide) (.inl (by decide)) (by decide)⟩

/-- A branch node that occurs twice. -/
def branchTwice : Context where
  cls := { name := ⟨"Kernel"⟩ }
  method :=
    { name := "run"
      params := [⟨"n", .int⟩, ⟨"xs", .array .int⟩]
      graph := ⟨#[.param 0 .int, .param 1 (.array .int), .marker .goto, .phi .int [(2, 0)],
        ⟨.binary .add, .int, [3, 0]⟩, .arrayStore 1 0 4, .arrayStore 1 4 0, .arrayStore 1 4 4,
        .compare .lt 0 0, .branch 8]⟩
      body := [.block ⟨"W", false⟩ [.branch 9 [] [], .block ⟨"D", false⟩ [.effect 5],
        .branch 9 [.block ⟨"M", false⟩ [.leave 2 "M"], .effect 6] [], .effect 7]] }

/-- Before the inner block nothing but the outer block is open. -/
theorem eq_nil_of_encloses_branchTwice {outer : List Event}
    (h : Encloses branchTwice outer ((bodyEvents branchTwice.method.body).take 4)) :
    outer = [] := by
  obtain ⟨stmt, after, hbody, hbefore, hlong⟩ := h
  have hevents : Event.startBlock ⟨"W", false⟩ :: .startIf 9 :: .startElse 9 :: .finishIf 9 ::
      (bodyEvents branchTwice.method.body).drop 4 = outer ++ stmt.events ++ after := hbody
  change outer.length < 4 at hbefore
  change 4 < _ at hlong
  obtain _ | ⟨e₁, _ | ⟨e₂, _ | ⟨e₃, _ | ⟨e₄, _⟩⟩⟩⟩ := outer
  · rfl
  · -- the arms of the first branch are empty, since no statement begins with an event that ends an arm
    have hbranch := (List.cons.inj hevents).2
    cases stmt with
    | branch node thenBody elseBody =>
      obtain _ | ⟨first, _⟩ := thenBody
      · obtain _ | ⟨first, _⟩ := elseBody
        · simp [Stmt.events, bodyEvents] at hlong
        · cases first <;> simp [Stmt.events, bodyEvents] at hbranch
      · cases first <;> simp [Stmt.events, bodyEvents] at hbranch
    | _ => simp [Stmt.events] at hbranch
  · cases stmt <;> simp [Stmt.events] at hevents
  · cases stmt <;> simp [Stmt.events] at hevents
  · simp only [List.length_cons] at hbefore
    omega

/-- If a control node occurs twice, its first construct takes what is planned for the second one. The sum
is pinned there, but evaluated before a block that comes after that construct, so it lands in no scope,
although no open construct pinned it. -/
theorem evaluated_outside_scope_branchTwice :
    ∃ done rest s s', Met branchTwice done rest s ∧
      (s.plan.hoist? (.block "D")).map Hoist.nodes = some [4] ∧
      hoist branchTwice (.block "D") s = .ok () s' ∧ s.value? 4 = none ∧
      (∃ v, s'.value? 4 = some v) ∧ ¬ s'.InCurrentScope 4 ∧
      ∀ outer e, PinnedAt branchTwice outer e 4 → ¬ Encloses branchTwice outer done := by
  have hstart : (Emit.done? (((bodyEvents branchTwice.method.body).take 4).forM
      (emitEvent branchTwice)) (Emitter.start branchTwice)).map (fun r => (r.2.labels, r.2.isBound 4,
        (r.2.plan.hoist? (.block "D")).map Hoist.nodes)) = some (["W"], false, some [4]) := by cbv
  have hbind : (Emit.done? (((bodyEvents branchTwice.method.body).take 4).forM
      (emitEvent branchTwice)) (Emitter.start branchTwice)).bind (fun r =>
        (Emit.done? (hoist branchTwice (.block "D")) { r.2 with labels := "D" :: r.2.labels }).map
          fun r => (r.2.scopes, r.2.isBound 4)) = some ([[], []], true) := by cbv
  obtain ⟨_, s, hrun⟩ := Emit.exists_ok (((bodyEvents branchTwice.method.body).take 4).forM
    (emitEvent branchTwice)) (Emitter.start branchTwice) (by cbv)
  rw [Emit.done?_of_ok hrun] at hstart hbind
  simp only [Option.map_some, Option.bind_some, Option.some.injEq, Prod.mk.injEq] at hstart hbind
  obtain ⟨hlabels, hunbound, hlisted⟩ := hstart
  have hreached : Reached branchTwice ((bodyEvents branchTwice.method.body).take 4)
      ((bodyEvents branchTwice.method.body).drop 4) s := ⟨List.take_append_drop _ _, hrun⟩
  have hmet := Met.opening hreached (.startBlock (b := ⟨"D", false⟩) (by simp [hlabels]))
  obtain ⟨_, s', hhoist⟩ := Emit.exists_ok (hoist branchTwice (.block "D"))
    { s with labels := "D" :: s.labels } (by
      rw [← Option.isSome_map, hbind]
      rfl)
  rw [Emit.done?_of_ok hhoist] at hbind
  obtain ⟨hscopes, hbound⟩ := Prod.mk.inj (Option.some.inj hbind)
  refine ⟨_, _, _, s', hmet, hlisted, hhoist, (Emitter.not_isBound_iff _).1 hunbound,
    (Emitter.isBound_iff _).1 hbound, ?_, ?_⟩
  · rintro ⟨scope, outer, hscope, hmem⟩
    rw [hscopes] at hscope
    obtain ⟨rfl, -⟩ := List.cons.inj hscope
    cases hmem
  · rintro outer e ⟨rest, s₀, -, h₀, -, ⟨anchor, planned, he, hplan, -⟩, -, -⟩ hencloses
    obtain rfl := eq_nil_of_encloses_branchTwice hencloses
    obtain rfl : e = .startBlock ⟨"W", false⟩ := (List.cons.inj h₀.events).1
    obtain rfl := Option.some.inj he
    have hnone : ((Plan.ofBody branchTwice.graph branchTwice.isShared
        branchTwice.method.body).hoist? (.block "W")).isNone = true := by cbv
    rw [h₀.hoist?_of_some hplan] at hnone
    cases hnone

end KernelForge.Source
