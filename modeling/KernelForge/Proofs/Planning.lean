import KernelForge.Proofs.Survey

/-!
# What the plan promises

If no two constructs of a body share an anchor, the plan lists before every construct exactly the
values that one of its arms uses and that are used again in another arm or after it
(`mem_nodes_plan`). `Fits` says the same along the events of a body: whenever an arm ends, the values
that it uses and that are still to be used were listed before its construct.
-/

namespace KernelForge.Source

variable {cx : Context}

/-! ### Looking up a plan -/

namespace Plan

variable (plan : Plan) (anchor other : Anchor)

/-- The values to bind before a construct. -/
def nodes : List NodeId :=
  ((plan.hoist? anchor).map Hoist.nodes).getD []

theorem hoist?_enter (hoist : Hoist) : (plan.enter anchor hoist).hoist? other =
    if other = anchor then some hoist else plan.hoist? other := by
  rw [enter, hoist?, List.lookup_cons]
  by_cases h : other = anchor
  · rw [if_pos h, h, beq_self_eq_true]
  · rw [if_neg h, beq_eq_false_iff_ne.2 h]
    exact (plan.hoist?_without anchor other).trans (if_neg h)

end Plan

/-! ### The plan of a survey -/

namespace Survey

variable {s : Survey}

/-- The construct of every span, and the span around it. -/
def links (s : Survey) : List (Anchor × Option Nat) :=
  s.spans.toList.map fun span => (span.anchor, span.parent)

/-- The anchors of all spans, in order. -/
def anchors (s : Survey) : List Anchor :=
  s.spans.toList.map Span.anchor

theorem anchors_eq_links (s : Survey) : s.anchors = s.links.map Prod.fst := by
  rw [links, List.map_map]
  rfl

theorem links_modifyInnermost (f : Span → Span)
    (hf : ∀ span, (f span).anchor = span.anchor ∧ (f span).parent = span.parent) :
    (s.modifyInnermost f).links = s.links := by
  unfold modifyInnermost
  split
  · rfl
  · rw [links, Array.toList_modify]
    apply List.ext_getElem?
    intro j
    rw [links, List.getElem?_map, List.getElem?_map, List.getElem?_modify]
    cases s.spans.toList[j]? with
    | none => rfl
    | some span =>
      split_ifs
      · exact congrArg some (Prod.ext (hf span).1 (hf span).2)
      · rfl

theorem links_openSpan (anchor : Anchor) (withArm : Bool) :
    (s.openSpan anchor withArm).links = s.links ++ [(anchor, s.opened.head?)] := by
  simp [links, openSpan]

theorem links_startArm : s.startArm.links = s.links :=
  links_modifyInnermost _ fun _ => ⟨rfl, rfl⟩

theorem links_closeArm : s.closeArm.links = s.links :=
  links_modifyInnermost _ fun _ => ⟨rfl, rfl⟩

theorem links_closeSpan : s.closeSpan.links = s.links :=
  links_modifyInnermost _ fun _ => ⟨rfl, rfl⟩

theorem links_note (e : Event) : (note cx.graph cx.isShared s e).links =
    s.links ++ (e.anchor?.map fun anchor => (anchor, s.opened.head?)).toList := by
  cases e with
  | startBlock | startIf | startSwitch => exact links_openSpan _ _
  | finishBlock | finishIf =>
    rw [note, links_closeSpan, links_closeArm]
    exact (List.append_nil _).symm
  | startElse =>
    rw [note, links_startArm, links_closeArm]
    exact (List.append_nil _).symm
  | startCase => exact links_startArm.trans (List.append_nil _).symm
  | finishCase => exact links_closeArm.trans (List.append_nil _).symm
  | finishSwitch => exact links_closeSpan.trans (List.append_nil _).symm
  | _ => exact (List.append_nil _).symm

theorem anchors_note (e : Event) :
    (note cx.graph cx.isShared s e).anchors = s.anchors ++ e.anchor?.toList := by
  rw [anchors_eq_links, links_note, List.map_append, ← anchors_eq_links]
  cases e.anchor? <;> rfl

/-- Every construct has one span, in the order in which the constructs open. -/
theorem anchors_surveyed (events : List Event) :
    (surveyed cx s events).anchors = s.anchors ++ events.filterMap Event.anchor? := by
  induction events generalizing s with
  | nil => simp [surveyed]
  | cons e rest ih =>
    rw [surveyed_cons, ih, anchors_note, List.append_assoc]
    cases he : e.anchor? <;> simp [he]

variable (g : Graph) (s)

/-- Enter what a span leads to in a plan. -/
def enterSpan (plan : Plan) (entry : Span × Nat) : Plan :=
  if (s.hoisted entry.1).isEmpty then plan
  else plan.enter entry.1.anchor ⟨s.hoisted entry.1, s.unstable g entry.2 entry.1⟩

theorem plan_eq : s.plan g = s.spans.toList.zipIdx.foldl (s.enterSpan g) [] :=
  rfl

theorem hoist?_enterSpan (plan : Plan) (entry : Span × Nat) {anchor : Anchor}
    (h : anchor ≠ entry.1.anchor) :
    (s.enterSpan g plan entry).hoist? anchor = plan.hoist? anchor := by
  unfold enterSpan
  split_ifs
  · rfl
  · rw [Plan.hoist?_enter, if_neg h]

theorem hoist?_foldl_of_notMem (entries : List (Span × Nat)) (plan : Plan) {anchor : Anchor}
    (h : anchor ∉ entries.map (·.1.anchor)) :
    (entries.foldl (s.enterSpan g) plan).hoist? anchor = plan.hoist? anchor := by
  induction entries generalizing plan with
  | nil => rfl
  | cons entry rest ih =>
    rw [List.map_cons, List.mem_cons, not_or] at h
    rw [List.foldl_cons, ih _ h.2, hoist?_enterSpan _ _ _ _ h.1]

theorem hoist?_foldl_of_mem (entries : List (Span × Nat)) (plan : Plan) {entry : Span × Nat}
    (hmem : entry ∈ entries) (hnodup : (entries.map (·.1.anchor)).Nodup)
    (hplan : plan.hoist? entry.1.anchor = none) :
    (entries.foldl (s.enterSpan g) plan).hoist? entry.1.anchor =
      if s.hoisted entry.1 = [] then none
      else some ⟨s.hoisted entry.1, s.unstable g entry.2 entry.1⟩ := by
  induction entries generalizing plan with
  | nil => cases hmem
  | cons first rest ih =>
    rw [List.map_cons, List.nodup_cons] at hnodup
    rw [List.foldl_cons]
    rcases List.mem_cons.1 hmem with rfl | hmem
    · rw [hoist?_foldl_of_notMem _ _ _ _ hnodup.1]
      simp only [enterSpan, List.isEmpty_iff]
      split_ifs
      · exact hplan
      · rw [Plan.hoist?_enter, if_pos rfl]
    · have hne : entry.1.anchor ≠ first.1.anchor := fun h =>
        hnodup.1 (h ▸ List.mem_map_of_mem hmem)
      exact ih _ hmem hnodup.2 (by rw [hoist?_enterSpan _ _ _ _ hne, hplan])

theorem anchors_zipIdx : s.spans.toList.zipIdx.map (·.1.anchor) = s.anchors := by
  rw [anchors, ← List.zipIdx_map_fst 0 s.spans.toList, List.map_map]
  simp [Function.comp_def]

variable {s g}

/-- If no two spans have the same anchor, each of them has its own entry. -/
theorem hoist?_plan (hnodup : s.anchors.Nodup) {c : Nat} {span : Span}
    (hspan : s.spans[c]? = some span) : (s.plan g).hoist? span.anchor =
      if s.hoisted span = [] then none else some ⟨s.hoisted span, s.unstable g c span⟩ := by
  have hmem : (span, c) ∈ s.spans.toList.zipIdx := by
    rw [List.mem_zipIdx_iff_getElem?, Array.getElem?_toList]
    exact hspan
  rw [plan_eq]
  exact hoist?_foldl_of_mem s g _ _ hmem (by rwa [anchors_zipIdx]) rfl

theorem hoist?_plan_of_notMem {anchor : Anchor} (h : anchor ∉ s.anchors) :
    (s.plan g).hoist? anchor = none := by
  rw [plan_eq, hoist?_foldl_of_notMem s g _ _ (by rwa [anchors_zipIdx])]
  rfl

end Survey

/-- No two constructs of a body have the same anchor: no label of a block and no control node of a
branch or switch occurs twice. -/
def Distinct (body : List Stmt) : Prop :=
  ((bodyEvents body).filterMap Event.anchor?).Nodup

instance (body : List Stmt) : Decidable (Distinct body) :=
  inferInstanceAs (Decidable (List.Nodup _))

theorem mem_anchors {events : List Event} {anchor : Anchor} :
    anchor ∈ events.filterMap Event.anchor? ↔ match anchor with
      | .block label => label ∈ events.filterMap Event.label?
      | .choice id => id ∈ events.filterMap Event.choice? := by
  have hevent : ∀ e : Event, e.anchor? = some anchor ↔ match anchor with
      | .block label => e.label? = some label
      | .choice id => e.choice? = some id := by
    intro e
    cases anchor <;> cases e <;> simp [Event.anchor?, Event.label?, Event.choice?]
  cases anchor <;> simp [List.mem_filterMap, hevent]

/-- Constructs are distinct if labels and control nodes are. -/
theorem nodup_anchors {events : List Event} (hlabels : (events.filterMap Event.label?).Nodup)
    (hchoices : (events.filterMap Event.choice?).Nodup) :
    (events.filterMap Event.anchor?).Nodup := by
  induction events with
  | nil => exact List.nodup_nil
  | cons e rest ih =>
    cases e with
    | startBlock b =>
      obtain ⟨hfresh, hlabels⟩ := List.nodup_cons.1 hlabels
      exact List.nodup_cons.2 ⟨fun hmem => hfresh (mem_anchors.1 hmem), ih hlabels hchoices⟩
    | startIf id | startSwitch id =>
      obtain ⟨hfresh, hchoices⟩ := List.nodup_cons.1 hchoices
      exact List.nodup_cons.2 ⟨fun hmem => hfresh (mem_anchors.1 hmem), ih hlabels hchoices⟩
    | _ => exact ih hlabels hchoices

/-- The spans of a body have the anchors of its constructs. -/
theorem anchors_ofBody (cx : Context) (body : List Stmt) :
    (Survey.ofBody cx.graph cx.isShared body).anchors =
      (bodyEvents body).filterMap Event.anchor? :=
  @Survey.anchors_surveyed cx {} (bodyEvents body)

/-- The plan lists before a construct what one of its arms uses and what is used again. -/
theorem mem_nodes_plan {body : List Stmt} {done rest : List Event} {stmt : Stmt} {anchor : Anchor}
    (hdistinct : Distinct body) (hevents : bodyEvents body = done ++ stmt.events ++ rest)
    (hanchor : stmt.anchor? = some anchor) {id : NodeId} :
    id ∈ (Plan.ofBody cx.graph cx.isShared body).nodes anchor ↔
      UsedAgain cx stmt.arms (usesOf cx rest) id := by
  obtain ⟨c, span, hspan, rfl, hhoisted⟩ := @exists_span cx _ _ _ _ _ hevents hanchor
  have hnodup : (Survey.ofBody cx.graph cx.isShared body).anchors.Nodup := by
    rw [anchors_ofBody]
    exact hdistinct
  rw [← hhoisted, Plan.nodes, Plan.ofBody, Survey.hoist?_plan hnodup hspan]
  split_ifs with hempty
  · rw [hempty]
    rfl
  · rfl

/-! ### Along the events of a body -/

/-- The change of scopes when an arm of a construct gives way to another one, if there is one. -/
def turn {α : Type} : Option α → Option α → ScopeChange
  | none, none => .keep
  | none, some _ => .enter
  | some _, none => .leave
  | some _, some _ => .swap

/-- A construct that is open: the values listed before it and, unless it is between two cases, the
events of its current arm. -/
structure Level where
  safe : List NodeId
  arm? : Option (List Event)

/-- Some values are used in the current arm of the innermost construct. -/
def UsedInArm (cx : Context) (levels : List Level) (ids : List NodeId) : Prop :=
  ∀ level ∈ levels.head?, ∃ arm, level.arm? = some arm ∧ ids ⊆ usesOf cx arm

/-- An arm may end before `rest`: whatever it uses and is still to be used is safe. -/
def MayEnd (cx : Context) (safe : List NodeId) (arm? : Option (List Event)) (rest : List Event) :
    Prop :=
  ∀ arm ∈ arm?, ∀ id ∈ usesOf cx arm, id ∈ usesOf cx rest → id ∈ safe

/-- Events that may follow while constructs are open, innermost first. -/
inductive Fits (cx : Context) (plan : Plan) : List Level → List Event → Prop
  | nil (levels : List Level) : Fits cx plan levels []
  /-- A statement that is no construct. -/
  | leaf {e : Event} {rest : List Event} {levels : List Level} (hanchor : e.anchor? = none)
      (hchange : e.scopeChange = .keep) (hused : UsedInArm cx levels (e.uses cx))
      (h : Fits cx plan levels rest) : Fits cx plan levels (e :: rest)
  /-- A construct opens. -/
  | start {e : Event} {rest : List Event} {levels : List Level} {anchor : Anchor}
      {arm? : Option (List Event)} (hanchor : e.anchor? = some anchor)
      (hchange : e.scopeChange = turn none arm?)
      (hused : UsedInArm cx levels (e.uses cx ++ plan.nodes anchor))
      (hlater : plan.nodes anchor ⊆ usesOf cx rest)
      (h : Fits cx plan (⟨plan.nodes anchor, arm?⟩ :: levels) rest) :
      Fits cx plan levels (e :: rest)
  /-- An arm begins or ends. -/
  | next {e : Event} {rest : List Event} {levels : List Level} {safe : List NodeId}
      {arm? arm'? : Option (List Event)} (hanchor : e.anchor? = none) (hroots : e.roots cx = [])
      (hchange : e.scopeChange = turn arm? arm'?) (hend : MayEnd cx safe arm? rest)
      (h : Fits cx plan (⟨safe, arm'?⟩ :: levels) rest) :
      Fits cx plan (⟨safe, arm?⟩ :: levels) (e :: rest)
  /-- A construct closes, and its last arm with it. -/
  | finish {e : Event} {rest : List Event} {levels : List Level} {safe : List NodeId}
      {arm? : Option (List Event)} (hanchor : e.anchor? = none) (hroots : e.roots cx = [])
      (hchange : e.scopeChange = turn arm? none) (hend : MayEnd cx safe arm? rest)
      (h : Fits cx plan levels rest) : Fits cx plan (⟨safe, arm?⟩ :: levels) (e :: rest)

/-- The lists of a plan are those of a body. -/
def Lists (cx : Context) (plan : Plan) (events : List Event) : Prop :=
  ∀ {done rest : List Event} {stmt : Stmt} {anchor : Anchor} {id : NodeId},
    events = done ++ stmt.events ++ rest → stmt.anchor? = some anchor →
      (id ∈ plan.nodes anchor ↔ UsedAgain cx stmt.arms (usesOf cx rest) id)

theorem UsedInArm.mono {levels : List Level} {ids ids' : List NodeId}
    (h : UsedInArm cx levels ids) (hids : ids' ⊆ ids) : UsedInArm cx levels ids' := by
  intro level hlevel
  obtain ⟨arm, harm, hused⟩ := h level hlevel
  exact ⟨arm, harm, fun id hid => hused (hids hid)⟩

theorem usedInArm_cons {safe : List NodeId} {arm events : List Event} {levels : List Level}
    (h : usesOf cx events ⊆ usesOf cx arm) :
    UsedInArm cx (⟨safe, some arm⟩ :: levels) (usesOf cx events) := by
  intro level hlevel
  obtain rfl := Option.some.inj hlevel
  exact ⟨arm, rfl, h⟩

@[simp] theorem usesOf_cons (e : Event) (events : List Event) :
    usesOf cx (e :: events) = e.uses cx ++ usesOf cx events :=
  List.flatMap_cons

theorem usesOf_cons_of_not_leaf {e : Event} (h : e.isLeaf = false) (events : List Event) :
    usesOf cx (e :: events) = usesOf cx events := by
  rw [usesOf_cons, uses_of_not_leaf h, List.nil_append]

@[simp] theorem usesOf_nil : usesOf cx [] = [] :=
  rfl

theorem mem_usesOf_arms {node id : NodeId} {arms : List (Int32 × List Stmt)} :
    id ∈ usesOf cx (armEvents node arms) ↔
      ∃ body ∈ arms.map Prod.snd, id ∈ usesOf cx (bodyEvents body) := by
  induction arms with
  | nil => simp [armEvents]
  | cons arm rest ih =>
    rw [armEvents, usesOf_cons_of_not_leaf rfl, usesOf_append, usesOf_cons_of_not_leaf rfl,
      List.mem_append, ih]
    simp

/-- What the arms of a construct use is used after its first event. -/
theorem mem_usesOf_tail {stmt : Stmt} {body : List Stmt} {id : NodeId} (hbody : body ∈ stmt.arms)
    (hid : id ∈ usesOf cx (bodyEvents body)) : id ∈ usesOf cx stmt.events.tail := by
  cases stmt with
  | block b inner =>
    obtain rfl := List.mem_singleton.1 hbody
    simp [Stmt.events, hid]
  | branch node thenBody elseBody =>
    rcases List.mem_cons.1 hbody with rfl | hbody
    · simp [Stmt.events, hid]
    · obtain rfl := List.mem_singleton.1 hbody
      simp [Stmt.events, hid]
  | switch node arms fallback =>
    rw [Stmt.events, List.tail_cons, usesOf_append, List.mem_append, mem_usesOf_arms]
    rcases List.mem_append.1 hbody with hbody | hbody
    · exact .inl ⟨body, hbody, hid⟩
    · obtain rfl := List.mem_singleton.1 hbody
      right
      simp [hid]
  | _ => cases hbody

/-- A value is used again if a later arm uses it or something after the construct does. -/
theorem usedAgain_of_later (before : List (List Stmt)) {later : List (List Stmt)}
    {body : List Stmt} {after : List NodeId} {id : NodeId}
    (hid : id ∈ usesOf cx (bodyEvents body))
    (h : (∃ other ∈ later, id ∈ usesOf cx (bodyEvents other)) ∨ id ∈ after) :
    UsedAgain cx (before ++ body :: later) after id := by
  refine ⟨⟨body, by simp, hid⟩, ?_⟩
  rcases h with ⟨other, hother, hlater⟩ | h
  · right
    have hpos : 0 < later.countP fun arm => decide (id ∈ usesOf cx (bodyEvents arm)) :=
      List.countP_pos_iff.2 ⟨other, hother, by simpa using hlater⟩
    rw [List.countP_append, List.countP_cons, if_pos (by simpa using hid)]
    omega
  · exact .inl h

section body

variable {plan : Plan} {all : List Event} {levels : List Level}

/-- What is listed before a construct is used inside it. -/
theorem Lists.subset_tail (hlists : Lists cx plan all) {stmt : Stmt} {done after : List Event}
    {anchor : Anchor} (hall : all = done ++ stmt.events ++ after)
    (hanchor : stmt.anchor? = some anchor) :
    plan.nodes anchor ⊆ usesOf cx stmt.events.tail := by
  intro id hid
  obtain ⟨⟨body, hbody, hused⟩, _⟩ := (hlists hall hanchor).1 hid
  exact mem_usesOf_tail hbody hused

/-- A construct may open if its arms fit. -/
theorem Fits.construct (hlists : Lists cx plan all) {stmt : Stmt} {done after rest : List Event}
    {e : Event} {anchor : Anchor} (arm? : Option (List Event))
    (hall : all = done ++ stmt.events ++ after) (hanchor : stmt.anchor? = some anchor)
    (hevents : stmt.events = e :: rest) (he : e.anchor? = some anchor)
    (hchange : e.scopeChange = turn none arm?) (hused : UsedInArm cx levels (usesOf cx stmt.events))
    (h : Fits cx plan (⟨plan.nodes anchor, arm?⟩ :: levels) (rest ++ after)) :
    Fits cx plan levels (stmt.events ++ after) := by
  have htail := hlists.subset_tail hall hanchor
  rw [hevents] at htail hused ⊢
  rw [List.cons_append]
  refine .start he hchange (hused.mono ?_) (fun id hid => ?_) h
  · rw [usesOf_cons]
    exact List.append_subset.2 ⟨List.subset_append_left _ _,
      fun id hid => List.mem_append_right _ (htail hid)⟩
  · rw [usesOf_append]
    exact List.mem_append_left _ (htail hid)

theorem mayEnd_none (safe : List NodeId) (rest : List Event) : MayEnd cx safe none rest := by
  intro arm harm
  cases harm

theorem mayEnd_some {safe : List NodeId} {arm rest : List Event}
    (h : ∀ id ∈ usesOf cx arm, id ∈ usesOf cx rest → id ∈ safe) :
    MayEnd cx safe (some arm) rest := by
  intro arm' harm
  rw [← Option.some.inj harm]
  exact h

/-- A case may follow if its body fits. -/
theorem Fits.case {node : NodeId} (key : Option Int32) {body : List Stmt} {rest : List Event}
    {safe : List NodeId}
    (hbody : Fits cx plan (⟨safe, some (bodyEvents body)⟩ :: levels) (.finishCase node :: rest) →
      Fits cx plan (⟨safe, some (bodyEvents body)⟩ :: levels)
        (bodyEvents body ++ .finishCase node :: rest))
    (hend : ∀ id ∈ usesOf cx (bodyEvents body), id ∈ usesOf cx rest → id ∈ safe)
    (h : Fits cx plan (⟨safe, none⟩ :: levels) rest) :
    Fits cx plan (⟨safe, none⟩ :: levels)
      (.startCase node key :: (bodyEvents body ++ .finishCase node :: rest)) :=
  .next rfl rfl rfl (mayEnd_none _ _) (hbody (.next rfl rfl rfl (mayEnd_some hend) h))

mutual

theorem fits_stmt (hlists : Lists cx plan all) : ∀ (stmt : Stmt) (done after : List Event)
    {levels : List Level}, all = done ++ stmt.events ++ after →
    UsedInArm cx levels (usesOf cx stmt.events) → Fits cx plan levels after →
      Fits cx plan levels (stmt.events ++ after)
  | .effect _, _, _, _, _, hused, h | .ret _, _, _, _, _, hused, h
  | .leave _ _, _, _, _, _, hused, h | .again _ _, _, _, _, _, hused, h
  | .edge _, _, _, _, _, hused, h => by
    rw [Stmt.events] at hused ⊢
    refine .leaf rfl rfl (hused.mono ?_) h
    rw [usesOf_cons]
    exact List.subset_append_left _ _
  | .block b body, done, after, levels, hall, hused, h => by
    have hfinish : Fits cx plan (⟨plan.nodes (.block b.label), some (bodyEvents body)⟩ :: levels)
        (.finishBlock b :: after) := by
      refine .finish rfl rfl rfl (mayEnd_some fun id hid hlater => ?_) h
      exact (hlists hall rfl).2 (usedAgain_of_later [] hid (.inr hlater))
    refine .construct hlists (some (bodyEvents body)) hall rfl (by rw [Stmt.events]) rfl rfl hused
      ?_
    rw [List.append_assoc]
    refine fits_body hlists body (done ++ [.startBlock b]) _ ?_ (usedInArm_cons (.refl _)) hfinish
    simp [hall, Stmt.events]
  | .branch node thenBody elseBody, done, after, levels, hall, hused, h => by
    have hfinish : Fits cx plan (⟨plan.nodes (.choice node), some (bodyEvents elseBody)⟩ :: levels)
        (.finishIf node :: after) := by
      refine .finish rfl rfl rfl (mayEnd_some fun id hid hlater => ?_) h
      exact (hlists hall rfl).2 (usedAgain_of_later [thenBody] hid (.inr hlater))
    have helse : Fits cx plan (⟨plan.nodes (.choice node), some (bodyEvents elseBody)⟩ :: levels)
        (bodyEvents elseBody ++ .finishIf node :: after) := by
      refine fits_body hlists elseBody
        (done ++ .startIf node :: (bodyEvents thenBody ++ [.startElse node])) _ ?_
        (usedInArm_cons (.refl _)) hfinish
      simp [hall, Stmt.events]
    have hturn : Fits cx plan (⟨plan.nodes (.choice node), some (bodyEvents thenBody)⟩ :: levels)
        (.startElse node :: (bodyEvents elseBody ++ .finishIf node :: after)) := by
      refine .next rfl rfl rfl (mayEnd_some fun id hid hlater => ?_) helse
      rw [usesOf_append, List.mem_append, usesOf_cons_of_not_leaf rfl] at hlater
      refine (hlists hall rfl).2 (usedAgain_of_later [] hid (hlater.imp_left fun hlater => ?_))
      exact ⟨elseBody, List.mem_singleton_self _, hlater⟩
    refine .construct hlists (some (bodyEvents thenBody)) hall rfl (by rw [Stmt.events]) rfl rfl
      hused ?_
    rw [List.append_assoc, List.cons_append, List.append_assoc]
    refine fits_body hlists thenBody (done ++ [.startIf node]) _ ?_ (usedInArm_cons (.refl _)) hturn
    simp [hall, Stmt.events]
  | .switch node arms fallback, done, after, levels, hall, hused, h => by
    have hfinish : Fits cx plan (⟨plan.nodes (.choice node), none⟩ :: levels)
        (.finishSwitch node :: after) := .finish rfl rfl rfl (mayEnd_none _ _) h
    have hfallback : Fits cx plan (⟨plan.nodes (.choice node), none⟩ :: levels)
        (.startCase node none ::
          (bodyEvents fallback ++ .finishCase node :: .finishSwitch node :: after)) := by
      refine .case none ?_ (fun id hid hlater => ?_) hfinish
      · refine fits_body hlists fallback
          (done ++ .startSwitch node :: (armEvents node arms ++ [.startCase node none])) _ ?_
          (usedInArm_cons (.refl _))
        simp [hall, Stmt.events]
      · rw [usesOf_cons_of_not_leaf rfl] at hlater
        exact (hlists hall rfl).2 (usedAgain_of_later (arms.map Prod.snd) hid (.inr hlater))
    refine .construct hlists none hall rfl (by rw [Stmt.events]) rfl rfl hused ?_
    rw [List.append_assoc, List.cons_append, List.append_assoc]
    refine fits_arms hlists node arms (done ++ [.startSwitch node]) _ ?_ [] [fallback]
      (usesOf cx after) ?_ ?_ hfallback
    · simp [hall, Stmt.events]
    · intro id hid
      exact (hlists hall rfl).2 hid
    · intro id hid
      rw [usesOf_cons_of_not_leaf rfl, usesOf_append, List.mem_append, List.cons_append,
        usesOf_cons_of_not_leaf rfl, List.cons_append, usesOf_cons_of_not_leaf rfl] at hid
      exact hid.imp_left fun hid => ⟨fallback, List.mem_singleton_self _, hid⟩

theorem fits_body (hlists : Lists cx plan all) : ∀ (body : List Stmt) (done after : List Event)
    {levels : List Level}, all = done ++ bodyEvents body ++ after →
    UsedInArm cx levels (usesOf cx (bodyEvents body)) → Fits cx plan levels after →
      Fits cx plan levels (bodyEvents body ++ after)
  | [], _, _, _, _, _, h => by
    rw [bodyEvents]
    exact h
  | stmt :: rest, done, after, levels, hall, hused, h => by
    rw [bodyEvents, usesOf_append] at hused
    rw [bodyEvents, List.append_assoc]
    refine fits_stmt hlists stmt done _ ?_ (hused.mono (List.subset_append_left _ _)) ?_
    · simp [hall, bodyEvents]
    refine fits_body hlists rest (done ++ stmt.events) _ ?_
      (hused.mono (List.subset_append_right _ _)) h
    simp [hall, bodyEvents]

/-- The cases of a switch may follow each other. `before` and `later` are its other arms. -/
theorem fits_arms (hlists : Lists cx plan all) (node : NodeId) :
    ∀ (arms : List (Int32 × List Stmt)) (done after : List Event) {levels : List Level}
      {safe : List NodeId}, all = done ++ armEvents node arms ++ after →
    ∀ (before later : List (List Stmt)) (outer : List NodeId),
      (∀ id, UsedAgain cx (before ++ (arms.map Prod.snd ++ later)) outer id → id ∈ safe) →
      (∀ id ∈ usesOf cx after,
        (∃ body ∈ later, id ∈ usesOf cx (bodyEvents body)) ∨ id ∈ outer) →
      Fits cx plan (⟨safe, none⟩ :: levels) after →
        Fits cx plan (⟨safe, none⟩ :: levels) (armEvents node arms ++ after)
  | [], _, _, _, _, _, _, _, _, _, _, h => by
    rw [armEvents]
    exact h
  | (key, body) :: arms, done, after, levels, safe, hall, before, later, outer, hsafe, hafter,
      h => by
    have hrest : Fits cx plan (⟨safe, none⟩ :: levels) (armEvents node arms ++ after) := by
      refine fits_arms hlists node arms
        (done ++ .startCase node (some key) :: (bodyEvents body ++ [.finishCase node])) after ?_
        (before ++ [body]) later outer ?_ hafter h
      · simp [hall, armEvents]
      · simpa using hsafe
    rw [armEvents, List.cons_append, List.append_assoc, List.cons_append]
    refine .case (some key) ?_ (fun id hid hlater => ?_) hrest
    · refine fits_body hlists body (done ++ [.startCase node (some key)]) _ ?_
        (usedInArm_cons (.refl _))
      simp [hall, armEvents]
    · refine hsafe id (usedAgain_of_later before hid ?_)
      rw [usesOf_append, List.mem_append, mem_usesOf_arms] at hlater
      rcases hlater with ⟨other, hother, hused⟩ | hlater
      · exact .inl ⟨other, List.mem_append_left _ hother, hused⟩
      · exact (hafter id hlater).imp_left fun ⟨other, hother, hused⟩ =>
          ⟨other, List.mem_append_right _ hother, hused⟩

end

end body

/-- The events of a body with distinct constructs fit its plan. -/
theorem fits_plan {body : List Stmt} (hdistinct : Distinct body) :
    Fits cx (Plan.ofBody cx.graph cx.isShared body) [] (bodyEvents body) := by
  have hlists : Lists cx (Plan.ofBody cx.graph cx.isShared body) (bodyEvents body) :=
    fun hevents hanchor => mem_nodes_plan hdistinct hevents hanchor
  rw [← List.append_nil (bodyEvents body)]
  exact fits_body hlists body [] [] (by simp) (fun level hlevel => by cases hlevel) (.nil [])

end KernelForge.Source
