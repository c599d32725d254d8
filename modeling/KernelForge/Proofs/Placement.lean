import KernelForge.Proofs.Planning
import KernelForge.Proofs.Reachability

/-!
# The plan by recursion on the tree

The survey knows a construct as a span of leaf positions and a link to the span around it, both
filled in while the events of the body pass by. The plan also has a definition that knows neither:
`bodySites` lists the constructs of a body by recursion on the tree, each with the constructs around
it, its arms, and what is used after it. What is to bind before a construct (`Site.nodes`) and which
phis it may change (`Site.unstable`) follow from that.

The two are the same plan (`plan_of_sites`). For the values this is what the survey says about leaf
positions. For the phis the links have to be followed: while a survey stands in some constructs, the
open spans are a chain of links with the anchors of these constructs (`StandsIn`), and links, once
made, stay. So the test of whether one span lies in another is membership in that chain
(`isWithin_iff`).
-/

namespace KernelForge.Source

open Relation

variable {cx : Context}

/-! ### Constructs by recursion on the tree -/

/-- An edge statement inside a construct. -/
structure Jump where
  source : NodeId
  kind : EdgeKind
  /-- Which constructs it may lead to; the innermost of them is its target. -/
  aims : Anchor → Bool
  /-- The constructs around it that lie in the construct, innermost first. -/
  inner : List Anchor

/-- A construct at its place in a body. -/
structure Site where
  anchor : Anchor
  /-- The constructs around it, innermost first. -/
  around : List Anchor
  arms : List (List Stmt)
  /-- The shared values that are used after it. -/
  later : List NodeId

def Anchor.isChoice : Anchor → Bool
  | .choice _ => true
  | .block _ => false

mutual

/-- The edge statements in a statement that stands in `inner`. -/
def jumps (inner : List Anchor) : Stmt → List Jump
  | .effect _ | .ret _ => []
  | .leave source label => [⟨source, .leave, (· == .block label), inner⟩]
  | .again source label => [⟨source, .again, (· == .block label), inner⟩]
  | .edge source => [⟨source, .fall, Anchor.isChoice, inner⟩]
  | .block b body => bodyJumps (.block b.label :: inner) body
  | .branch node thenBody elseBody =>
    bodyJumps (.choice node :: inner) thenBody ++ bodyJumps (.choice node :: inner) elseBody
  | .switch node arms fallback =>
    armJumps (.choice node :: inner) arms ++ bodyJumps (.choice node :: inner) fallback

/-- The edge statements in a body that stands in `inner`. -/
def bodyJumps (inner : List Anchor) : List Stmt → List Jump
  | [] => []
  | stmt :: rest => jumps inner stmt ++ bodyJumps inner rest

/-- The edge statements in the keyed cases of a switch. -/
def armJumps (inner : List Anchor) : List (Int32 × List Stmt) → List Jump
  | [] => []
  | (_, body) :: rest => bodyJumps inner body ++ armJumps inner rest

end

mutual

/-- The constructs in a statement that stands in `around`, with `later` used after it. -/
def sites (cx : Context) (around : List Anchor) (later : List NodeId) : Stmt → List Site
  | .effect _ | .ret _ | .leave _ _ | .again _ _ | .edge _ => []
  | .block b body =>
    ⟨.block b.label, around, [body], later⟩ ::
      bodySites cx (.block b.label :: around) later body
  | .branch node thenBody elseBody =>
    ⟨.choice node, around, [thenBody, elseBody], later⟩ ::
      (bodySites cx (.choice node :: around) (usesOf cx (bodyEvents elseBody) ++ later) thenBody ++
        bodySites cx (.choice node :: around) later elseBody)
  | .switch node arms fallback =>
    ⟨.choice node, around, arms.map Prod.snd ++ [fallback], later⟩ ::
      (armSites cx (.choice node :: around) (usesOf cx (bodyEvents fallback) ++ later) arms ++
        bodySites cx (.choice node :: around) later fallback)

/-- The constructs in a body, in the order in which they open. -/
def bodySites (cx : Context) (around : List Anchor) (later : List NodeId) : List Stmt → List Site
  | [] => []
  | stmt :: rest =>
    sites cx around (usesOf cx (bodyEvents rest) ++ later) stmt ++ bodySites cx around later rest

/-- The constructs in the keyed cases of a switch. -/
def armSites (cx : Context) (around : List Anchor) (later : List NodeId) :
    List (Int32 × List Stmt) → List Site
  | [] => []
  | (_, body) :: rest =>
    bodySites cx around ((rest.flatMap fun arm => usesOf cx (bodyEvents arm.2)) ++ later) body ++
      armSites cx around later rest

end

/-- Whether an edge statement in a construct lands inside it: its target lies in the construct, it
starts the construct again, or it has no target at all. -/
def Jump.landsIn (site : Site) (jump : Jump) : Bool :=
  if jump.inner.any jump.aims then true
  else if jump.aims site.anchor then jump.kind == .again
  else !site.around.any jump.aims

namespace Site

/-- The values to bind before a construct: those that one of its arms uses and that are used again,
in another arm or later, in order of first use. -/
def nodes (cx : Context) (site : Site) : List NodeId :=
  usedAgain cx site.arms site.later

/-- Where the edges come from that land inside a construct, among some that lie in it. -/
def landing (site : Site) (jumps : List Jump) : List NodeId :=
  (jumps.filter (Jump.landsIn site)).map Jump.source

/-- The phis that are assigned on an edge that lands inside a construct. -/
def unstable (cx : Context) (site : Site) : List NodeId :=
  let sources := site.landing (site.arms.flatMap (bodyJumps []))
  (cx.graph.phis.filter (·.predecessors.any sources.contains)).map Phi.id

@[simp] theorem landing_append (site : Site) (xs ys : List Jump) :
    site.landing (xs ++ ys) = site.landing xs ++ site.landing ys := by
  rw [landing, List.filter_append, List.map_append]
  rfl

end Site

theorem armJumps_eq (inner : List Anchor) (arms : List (Int32 × List Stmt)) :
    armJumps inner arms = (arms.map Prod.snd).flatMap (bodyJumps inner) := by
  induction arms with
  | nil => simp [armJumps]
  | cons arm rest ih =>
    obtain ⟨key, body⟩ := arm
    rw [armJumps, ih, List.map_cons, List.flatMap_cons]

theorem usesOf_armEvents (node : NodeId) (arms : List (Int32 × List Stmt)) :
    usesOf cx (armEvents node arms) = arms.flatMap fun arm => usesOf cx (bodyEvents arm.2) := by
  induction arms with
  | nil => simp [armEvents]
  | cons arm rest ih =>
    obtain ⟨key, body⟩ := arm
    rw [armEvents, usesOf_cons_of_not_leaf rfl, usesOf_append, usesOf_cons_of_not_leaf rfl, ih,
      List.flatMap_cons]

mutual

theorem anchors_sites : ∀ (stmt : Stmt) (around : List Anchor) (later : List NodeId),
    (sites cx around later stmt).map Site.anchor = stmt.events.filterMap Event.anchor?
  | .effect _, _, _ | .ret _, _, _ | .leave _ _, _, _ | .again _ _, _, _ | .edge _, _, _ => by
    simp [sites, Stmt.events, Event.anchor?]
  | .block b body, _, _ => by
    simp [sites, Stmt.events, Event.anchor?, anchors_bodySites body]
  | .branch node thenBody elseBody, _, _ => by
    simp [sites, Stmt.events, List.filterMap_cons, Event.anchor?, anchors_bodySites thenBody,
      anchors_bodySites elseBody]
  | .switch node arms fallback, _, _ => by
    simp [sites, Stmt.events, List.filterMap_cons, Event.anchor?, anchors_armSites node arms,
      anchors_bodySites fallback]

/-- The constructs in a body are those that its events open. -/
theorem anchors_bodySites : ∀ (body : List Stmt) (around : List Anchor) (later : List NodeId),
    (bodySites cx around later body).map Site.anchor = (bodyEvents body).filterMap Event.anchor?
  | [], _, _ => by simp [bodySites, bodyEvents]
  | stmt :: rest, _, _ => by
    simp [bodySites, bodyEvents, anchors_sites stmt, anchors_bodySites rest]

theorem anchors_armSites (node : NodeId) : ∀ (arms : List (Int32 × List Stmt))
    (around : List Anchor) (later : List NodeId),
    (armSites cx around later arms).map Site.anchor =
      (armEvents node arms).filterMap Event.anchor?
  | [], _, _ => by simp [armSites, armEvents]
  | (key, body) :: rest, _, _ => by
    simp [armSites, armEvents, List.filterMap_cons, Event.anchor?, anchors_bodySites body,
      anchors_armSites node rest]

end

/-! ### Positions and indices -/

/-- The numbers in a span are in range: the span around it comes before it, and all ranges are
ranges of leaves. -/
structure Span.InRange (span : Span) (index leaves : Nat) : Prop where
  parent : ∀ p ∈ span.parent, p < index
  start : span.start ≤ span.stop
  stop : span.stop ≤ leaves
  arms : ∀ arm ∈ span.arms, arm.1 ≤ arm.2 ∧ arm.2 ≤ leaves

theorem Span.InRange.mono {span : Span} {index leaves leaves' : Nat}
    (h : span.InRange index leaves) (hle : leaves ≤ leaves') : span.InRange index leaves' :=
  ⟨h.parent, h.start, h.stop.trans hle, fun arm harm =>
    ⟨(h.arms arm harm).1, (h.arms arm harm).2.trans hle⟩⟩

namespace Survey

/-- Every index in a survey is the index of a span, and every range is one of leaves. -/
structure InRange (s : Survey) : Prop where
  opened : s.OpenInRange
  spans : ∀ {i : Nat} {span : Span}, s.spans[i]? = some span → span.InRange i s.leaves.size
  targets : ∀ leaf ∈ s.leaves, ∀ edge ∈ leaf.edge, ∀ t ∈ edge.target, t < s.spans.size

theorem mem_endLast {stop : Nat} {arms : List (Nat × Nat)} {arm : Nat × Nat}
    (h : arm ∈ endLast stop arms) : arm ∈ arms ∨ ∃ first ∈ arms, arm = (first.1, stop) := by
  fun_induction endLast stop arms with
  | case1 => cases h
  | case2 last =>
    exact .inr ⟨last, List.mem_singleton_self _, List.mem_singleton.1 h⟩
  | case3 first rest _ ih =>
    rcases List.mem_cons.1 h with rfl | h
    · exact .inl List.mem_cons_self
    · exact (ih h).imp (List.mem_cons_of_mem _) fun ⟨other, hother, heq⟩ =>
        ⟨other, List.mem_cons_of_mem _ hother, heq⟩

variable {s : Survey}

namespace InRange

theorem start : ({} : Survey).InRange where
  opened := fun i hi => by cases hi
  spans := fun h => by cases h
  targets := by simp

theorem modifyInnermost (h : s.InRange) {f : Span → Span}
    (hf : ∀ {i span}, span.InRange i s.leaves.size → (f span).InRange i s.leaves.size) :
    (s.modifyInnermost f).InRange where
  opened := h.opened.modifyInnermost f
  spans {i span} hspan := by
    rw [leaves_modifyInnermost]
    cases ho : s.opened with
    | nil =>
      rw [Survey.modifyInnermost, ho] at hspan
      exact h.spans hspan
    | cons c os =>
      rw [s.spans_modifyInnermost f ho] at hspan
      split_ifs at hspan
      · obtain ⟨old, hold, rfl⟩ := Option.map_eq_some_iff.1 hspan
        exact hf (h.spans hold)
      · exact h.spans hspan
  targets := by
    rw [leaves_modifyInnermost, size_spans_modifyInnermost]
    exact h.targets

theorem startArm (h : s.InRange) : s.startArm.InRange := by
  refine h.modifyInnermost fun hspan => ⟨hspan.parent, hspan.start, hspan.stop, fun arm harm => ?_⟩
  rcases List.mem_append.1 harm with harm | harm
  · exact hspan.arms arm harm
  · obtain rfl := List.mem_singleton.1 harm
    exact ⟨Nat.le_refl _, Nat.le_refl _⟩

theorem closeArm (h : s.InRange) : s.closeArm.InRange := by
  refine h.modifyInnermost fun hspan => ⟨hspan.parent, hspan.start, hspan.stop, fun arm harm => ?_⟩
  rcases mem_endLast harm with harm | ⟨first, hfirst, rfl⟩
  · exact hspan.arms arm harm
  · exact ⟨(hspan.arms first hfirst).1.trans (hspan.arms first hfirst).2, Nat.le_refl _⟩

theorem closeSpan (h : s.InRange) : s.closeSpan.InRange := by
  have hmod := h.modifyInnermost (f := fun span => { span with stop := s.leaves.size })
    fun hspan => ⟨hspan.parent, hspan.start.trans hspan.stop, Nat.le_refl _, hspan.arms⟩
  exact ⟨h.opened.closeSpan, hmod.spans, hmod.targets⟩

theorem leaf (h : s.InRange) (roots : List NodeId) {edge : Option Edge}
    (hedge : ∀ e ∈ edge, ∀ t ∈ e.target, t < s.spans.size) :
    (s.leaf cx.graph cx.isShared roots edge).InRange where
  opened := h.opened
  spans hspan := (h.spans hspan).mono (by simp [Survey.leaf])
  targets new hnew := by
    rcases Array.mem_push.1 hnew with hnew | rfl
    · exact h.targets new hnew
    · exact hedge

theorem openSpan (h : s.InRange) (anchor : Anchor) (withArm : Bool) :
    (s.openSpan anchor withArm).InRange where
  opened := h.opened.openSpan anchor withArm
  spans {i span} hspan := by
    rw [Survey.openSpan, Array.getElem?_push] at hspan
    by_cases hi : i = s.spans.size
    · rw [if_pos hi] at hspan
      obtain rfl := Option.some.inj hspan
      refine ⟨fun p hp => hi ▸ h.opened p (List.mem_of_mem_head? hp), Nat.le_refl _, Nat.le_refl _,
        fun arm harm => ?_⟩
      cases withArm with
      | true =>
        obtain rfl := List.mem_singleton.1 harm
        exact ⟨Nat.le_refl _, Nat.le_refl _⟩
      | false => cases harm
    · rw [if_neg hi] at hspan
      exact h.spans hspan
  targets leaf hleaf edge hedge t ht := by
    rw [Survey.openSpan, Array.size_push]
    exact Nat.lt_succ_of_lt (h.targets leaf hleaf edge hedge t ht)

theorem surveyed (h : s.InRange) (events : List Event) : (surveyed cx s events).InRange := by
  have hkept : Kept cx InRange :=
    { leaf := fun h roots _ hedge => h.leaf roots fun e he t ht => h.opened t (hedge e he t ht)
      openSpan := openSpan
      startArm := startArm
      closeArm := closeArm
      closeSpan := closeSpan }
  exact hkept.surveyed h events

end InRange

/-! ### The constructs that a survey stands in -/

/-- Spans that lie in each other, each in the next one, and their anchors. -/
inductive Stacked (links : List (Anchor × Option Nat)) : List Nat → List Anchor → Prop
  | nil : Stacked links [] []
  | cons {i : Nat} {is : List Nat} {anchor : Anchor} {around : List Anchor}
      (hlink : links[i]? = some (anchor, is.head?)) (hlt : ∀ j ∈ is.head?, j < i)
      (h : Stacked links is around) : Stacked links (i :: is) (anchor :: around)

/-- The spans that are still open are those of `around`. -/
def StandsIn (s : Survey) (around : List Anchor) : Prop :=
  Stacked s.links s.opened around

/-- A survey has gone on: there are more leaves and more spans. -/
structure GoesOn (s s' : Survey) : Prop where
  leaves : s.leaves.toList <+: s'.leaves.toList
  links : s.links <+: s'.links

namespace GoesOn

variable {s₁ s₂ s₃ : Survey}

theorem refl (s : Survey) : GoesOn s s :=
  ⟨List.prefix_rfl, List.prefix_rfl⟩

theorem trans (h₁ : GoesOn s₁ s₂) (h₂ : GoesOn s₂ s₃) : GoesOn s₁ s₃ :=
  ⟨h₁.leaves.trans h₂.leaves, h₁.links.trans h₂.links⟩

theorem of_eq (hleaves : s₂.leaves = s₁.leaves) (hlinks : s₂.links = s₁.links) : GoesOn s₁ s₂ :=
  ⟨by rw [hleaves], by rw [hlinks]⟩

theorem leaf (s : Survey) (roots : List NodeId) (edge : Option Edge) :
    GoesOn s (s.leaf cx.graph cx.isShared roots edge) :=
  ⟨by simp [Survey.leaf], List.prefix_rfl⟩

theorem openSpan (s : Survey) (anchor : Anchor) (withArm : Bool) :
    GoesOn s (s.openSpan anchor withArm) :=
  ⟨List.prefix_rfl, by simp [links_openSpan]⟩

theorem startArm (s : Survey) : GoesOn s s.startArm :=
  of_eq s.leaves_startArm links_startArm

theorem closeArm (s : Survey) : GoesOn s s.closeArm :=
  of_eq s.leaves_closeArm links_closeArm

theorem closeSpan (s : Survey) : GoesOn s s.closeSpan :=
  of_eq s.leaves_closeSpan links_closeSpan

theorem surveyed (s : Survey) (events : List Event) : GoesOn s (surveyed cx s events) := by
  have hkept : Kept cx (GoesOn s) :=
    { leaf := fun h roots edge _ => h.trans (leaf _ roots edge)
      openSpan := fun h anchor withArm => h.trans (openSpan _ anchor withArm)
      startArm := fun h => h.trans (startArm _)
      closeArm := fun h => h.trans (closeArm _)
      closeSpan := fun h => h.trans (closeSpan _) }
  exact hkept.surveyed (refl s) events

theorem throughArm (s : Survey) (body : List Stmt) : GoesOn s (throughArm cx s body) :=
  (startArm s).trans ((surveyed _ _).trans (closeArm _))

theorem throughArms (s : Survey) (bodies : List (List Stmt)) :
    GoesOn s (bodies.foldl (Survey.throughArm cx) s) := by
  induction bodies generalizing s with
  | nil => exact refl s
  | cons body rest ih => exact (throughArm s body).trans (ih _)

theorem throughConstruct (s : Survey) (anchor : Anchor) (bodies : List (List Stmt)) :
    GoesOn s (throughConstruct cx s anchor bodies) :=
  (openSpan s anchor false).trans ((throughArms _ bodies).trans (closeSpan _))

end GoesOn

variable {i j : Nat} {is : List Nat} {anchor : Anchor} {around : List Anchor} {s' : Survey}

theorem exists_span_of_link {parent : Option Nat} (h : s.links[i]? = some (anchor, parent)) :
    ∃ span, s.spans[i]? = some span ∧ span.anchor = anchor ∧ span.parent = parent := by
  rw [links, List.getElem?_map, Array.getElem?_toList] at h
  obtain ⟨span, hspan, hlink⟩ := Option.map_eq_some_iff.1 h
  exact ⟨span, hspan, congrArg Prod.fst hlink, congrArg Prod.snd hlink⟩

theorem Stacked.mono {links links' : List (Anchor × Option Nat)} (h : Stacked links is around)
    (hlinks : links <+: links') : Stacked links' is around := by
  induction h with
  | nil => exact .nil
  | cons hlink hlt _ ih =>
    obtain ⟨more, rfl⟩ := hlinks
    exact .cons (List.getElem?_append_left (List.getElem?_eq_some_iff.1 hlink).1 ▸ hlink) hlt ih

/-- A span comes after those that it lies in. -/
theorem Stacked.lt {links : List (Anchor × Option Nat)} (h : Stacked links (i :: is) around)
    (hj : j ∈ is) : j < i := by
  induction is generalizing i around with
  | nil => cases hj
  | cons k is ih =>
    obtain _ | ⟨-, hlt, h⟩ := h
    have hki : k < i := hlt k rfl
    rcases List.mem_cons.1 hj with rfl | hj
    · exact hki
    · exact (ih h hj).trans hki

theorem Stacked.lt_length {links : List (Anchor × Option Nat)} (h : Stacked links is around) :
    ∀ i ∈ is, i < links.length := by
  induction h with
  | nil => simp
  | cons hlink _ _ ih =>
    exact List.forall_mem_cons.2 ⟨(List.getElem?_eq_some_iff.1 hlink).1, ih⟩

theorem length_links (s : Survey) : s.links.length = s.spans.size := by
  simp [links]

theorem StandsIn.openInRange (h : s.StandsIn around) : s.OpenInRange := by
  rw [OpenInRange, ← length_links]
  exact Stacked.lt_length h

theorem StandsIn.of_eq (h : s.StandsIn around) (hopened : s'.opened = s.opened)
    (hon : GoesOn s s') : s'.StandsIn around := by
  rw [StandsIn, hopened]
  exact h.mono hon.links

theorem StandsIn.leaf (h : s.StandsIn around) (roots : List NodeId) (edge : Option Edge) :
    (s.leaf cx.graph cx.isShared roots edge).StandsIn around :=
  h

theorem StandsIn.startArm (h : s.StandsIn around) : s.startArm.StandsIn around :=
  h.of_eq (s.opened_modifyInnermost _) (.startArm s)

theorem StandsIn.closeArm (h : s.StandsIn around) : s.closeArm.StandsIn around :=
  h.of_eq (s.opened_modifyInnermost _) (.closeArm s)

theorem StandsIn.openSpan (h : s.StandsIn around) (anchor : Anchor) (withArm : Bool) :
    (s.openSpan anchor withArm).StandsIn (anchor :: around) := by
  refine .cons ?_ (fun j hj => h.openInRange j (List.mem_of_mem_head? hj))
    (h.mono (GoesOn.openSpan s anchor withArm).links)
  rw [links_openSpan, ← length_links, List.getElem?_concat_length]

/-- Whether a span lies in another one can be seen from the stack of spans that it lies in. -/
theorem isWithin_iff (h : Stacked s.links (i :: is) around) : s.isWithin i j = true ↔ j ∈ is := by
  induction is generalizing i around with
  | nil =>
    obtain _ | ⟨hlink, -, -⟩ := h
    obtain ⟨span, hspan, -, hparent⟩ := exists_span_of_link hlink
    rw [isWithin, hspan, Option.bind_some, hparent]
    simp
  | cons k is ih =>
    obtain _ | ⟨hlink, hlt, h⟩ := h
    obtain ⟨span, hspan, -, hparent⟩ := exists_span_of_link hlink
    rw [isWithin, hspan, Option.bind_some, hparent]
    simp only [List.head?_cons]
    rw [if_pos (hlt k rfl), Bool.or_eq_true, ih h, beq_iff_eq, List.mem_cons, eq_comm]

/-- What is below a span in a stack is the stack of that span. -/
theorem Stacked.stack_of_mem {links : List (Anchor × Option Nat)} (h : Stacked links is around)
    (hj : j ∈ is) :
    ∃ is' around', Stacked links (j :: is') around' ∧ ∀ k ∈ is', k ∈ is.tail := by
  induction h with
  | nil => cases hj
  | cons hlink hlt h ih =>
    rcases List.mem_cons.1 hj with rfl | hj
    · exact ⟨_, _, .cons hlink hlt h, fun k hk => hk⟩
    · obtain ⟨is', around', hstack, htail⟩ := ih hj
      exact ⟨is', around', hstack, fun k hk => List.mem_of_mem_tail (htail k hk)⟩

/-- Neither a span nor one of those around it lies in it. -/
theorem not_isWithin (h : Stacked s.links (i :: is) around) (hj : j ∈ i :: is) :
    s.isWithin j i = false := by
  obtain ⟨is', around', hstack, hbelow⟩ := h.stack_of_mem hj
  rw [← Bool.not_eq_true, isWithin_iff hstack]
  exact fun hmem => Nat.lt_irrefl _ (h.lt (hbelow i hmem))

/-! ### Where edges land -/

/-- The innermost span of a stack that an edge may lead to. -/
def aimedAt (aims : Anchor → Bool) : List Nat → List Anchor → Option Nat
  | i :: is, anchor :: around => if aims anchor then some i else aimedAt aims is around
  | _, _ => none

variable {aims : Anchor → Bool}

theorem find?_stacked (h : Stacked s.links is around) {p : Span → Bool}
    (hp : ∀ span, p span = aims span.anchor) :
    (is.find? fun i => (s.spans[i]?).any p) = aimedAt aims is around := by
  induction h with
  | nil => rfl
  | @cons i is anchor around hlink hlt h ih =>
    obtain ⟨span, hspan, hanchor, -⟩ := exists_span_of_link hlink
    rw [List.find?_cons, hspan, Option.any_some, hp, hanchor, aimedAt, ih]
    cases aims anchor <;> rfl

/-- The target of an edge is found among the open spans. -/
theorem innermost?_eq (h : s.StandsIn around) {p : Span → Bool}
    (hp : ∀ span, p span = aims span.anchor) :
    s.innermost? p = aimedAt aims s.opened around :=
  find?_stacked h hp

theorem mem_of_aimedAt (h : aimedAt aims is around = some i) : i ∈ is := by
  fun_induction aimedAt aims is around with
  | case1 => exact Option.some.inj h ▸ List.mem_cons_self
  | case2 _ _ _ _ _ ih => exact List.mem_cons_of_mem _ (ih h)
  | case3 => cases h

theorem isSome_aimedAt {links : List (Anchor × Option Nat)} (h : Stacked links is around) :
    (aimedAt aims is around).isSome = around.any aims := by
  induction h with
  | nil => rfl
  | cons _ _ _ ih =>
    rw [aimedAt, List.any_cons]
    split_ifs with haims
    · rw [haims]
      rfl
    · rw [ih, Bool.eq_false_iff.2 haims, Bool.false_or]

/-- An edge lands inside a span if it lands inside the construct of the span. -/
theorem landsInside_eq {site : Site} {inner : List Anchor} {c : Nat} (source : NodeId)
    (kind : EdgeKind) (h : Stacked s.links is (inner ++ site.anchor :: site.around))
    (hc : is[inner.length]? = some c) :
    s.landsInside ⟨source, kind, aimedAt aims is (inner ++ site.anchor :: site.around)⟩ c =
      Jump.landsIn site ⟨source, kind, aims, inner⟩ := by
  induction inner generalizing is with
  | nil =>
    have hstack := h
    obtain _ | @⟨i, is, _, _, hlink, hlt, hrest⟩ := h
    obtain rfl : i = c := Option.some.inj hc
    rw [List.nil_append, aimedAt, Jump.landsIn, List.any_nil, if_neg Bool.false_ne_true]
    split_ifs with haims
    · -- the target is the construct itself
      have hself := not_isWithin hstack List.mem_cons_self
      cases kind <;> simp [landsInside, hself]
    · rw [← isSome_aimedAt hrest]
      cases ht : aimedAt aims is site.around with
      | none => rfl
      | some t =>
        -- the target lies around the construct
        have hmem : t ∈ is := mem_of_aimedAt ht
        have hne : t ≠ i := Nat.ne_of_lt (hstack.lt hmem)
        have hself := not_isWithin hstack (List.mem_cons_of_mem _ hmem)
        cases kind <;> simp [landsInside, hself, hne]
  | cons anchor inner ih =>
    have hstack := h
    obtain _ | @⟨i, is, _, _, hlink, hlt, hrest⟩ := h
    have hc : is[inner.length]? = some c := hc
    rw [List.cons_append, aimedAt]
    split_ifs with haims
    · -- the target is the innermost construct that lies in the one of the span
      have hwithin : s.isWithin i c = true := (isWithin_iff hstack).2 (List.mem_of_getElem? hc)
      cases kind <;> simp [landsInside, Jump.landsIn, hwithin, haims]
    · rw [ih hrest hc]
      simp [Jump.landsIn, haims]

/-- Where the edges among some leaves come from that land inside a span. -/
def landed (s : Survey) (c : Nat) (leaves : List Leaf) : List NodeId :=
  leaves.filterMap fun leaf =>
    leaf.edge.bind fun edge => if s.landsInside edge c then some edge.source else none

/-- A survey stands in the construct of a span, and in further constructs inside it. -/
structure Inside (s : Survey) (c : Nat) (site : Site) (inner : List Anchor) : Prop where
  stands : s.StandsIn (inner ++ site.anchor :: site.around)
  span : s.opened[inner.length]? = some c

/-- Between two surveys the leaves of some edge statements have been added, as far as these land
inside the construct of a span. -/
def Gains (final : Survey) (c : Nat) (site : Site) (s s' : Survey) (jumps : List Jump) : Prop :=
  final.landed c s'.leaves.toList = final.landed c s.leaves.toList ++ site.landing jumps

variable {final : Survey} {c : Nat} {site : Site} {inner : List Anchor}

theorem Inside.of_eq (h : s.Inside c site inner) (hopened : s'.opened = s.opened)
    (hon : GoesOn s s') : s'.Inside c site inner :=
  ⟨h.stands.of_eq hopened hon, by rw [hopened]; exact h.span⟩

theorem Inside.leaf (h : s.Inside c site inner) (roots : List NodeId) (edge : Option Edge) :
    (s.leaf cx.graph cx.isShared roots edge).Inside c site inner :=
  ⟨h.stands, h.span⟩

theorem Inside.openSpan (h : s.Inside c site inner) (anchor : Anchor) (withArm : Bool) :
    (s.openSpan anchor withArm).Inside c site (anchor :: inner) :=
  ⟨h.stands.openSpan anchor withArm, h.span⟩

theorem Gains.none (h : s'.leaves = s.leaves) : Gains final c site s s' [] := by
  rw [Gains, h]
  exact (List.append_nil _).symm

theorem Gains.trans {s₁ s₂ s₃ : Survey} {xs ys : List Jump} (h₁ : Gains final c site s₁ s₂ xs)
    (h₂ : Gains final c site s₂ s₃ ys) : Gains final c site s₁ s₃ (xs ++ ys) := by
  rw [Gains, h₂, h₁, Site.landing_append, List.append_assoc]

theorem gains_leaf (s : Survey) (roots : List NodeId) :
    Gains final c site s (s.leaf cx.graph cx.isShared roots none) [] := by
  simp [Gains, leaf, landed, Site.landing]

/-- The leaf of an edge statement. -/
theorem gains_jump (h : s.Inside c site inner) (source : NodeId) (kind : EdgeKind)
    {p : Span → Bool} (hp : ∀ span, p span = aims span.anchor) (roots : List NodeId)
    (hfinal : GoesOn s final) :
    Gains final c site s
      (s.leaf cx.graph cx.isShared roots (some ⟨source, kind, s.innermost? p⟩))
      [⟨source, kind, aims, inner⟩] := by
  have hlands := @landsInside_eq final _ aims site inner c source kind
    (h.stands.mono hfinal.links) h.span
  rw [← innermost?_eq h.stands hp] at hlands
  simp only [Gains, landed, leaf, Array.toList_push, List.filterMap_append, List.filterMap_cons,
    Option.bind_some, hlands, Site.landing, List.filter_cons]
  split_ifs <;> rfl

theorem StandsIn.body (h : s.StandsIn around) (body : List Stmt) :
    (Source.surveyed cx s (bodyEvents body)).StandsIn around :=
  h.of_eq (resumes_body body s).opened (.surveyed s _)

theorem opened_throughArm (s : Survey) (body : List Stmt) :
    (throughArm cx s body).opened = s.opened :=
  (opened_modifyInnermost _ _).trans
    ((resumes_body body s.startArm).opened.trans (s.opened_modifyInnermost _))

theorem StandsIn.throughArms (h : s.StandsIn around) (bodies : List (List Stmt)) :
    (bodies.foldl (throughArm cx) s).StandsIn around := by
  induction bodies generalizing s with
  | nil => exact h
  | cons body rest ih => exact ih (h.startArm.body body).closeArm

/-- The leaves of arms that follow each other. -/
theorem gains_arms {bodies : List (List Stmt)} (h : s.Inside c site inner)
    (hbodies : ∀ body ∈ bodies, ∀ s : Survey, s.Inside c site inner →
      GoesOn (Source.surveyed cx s (bodyEvents body)) final →
        Gains final c site s (Source.surveyed cx s (bodyEvents body)) (bodyJumps inner body))
    (hfinal : GoesOn (bodies.foldl (throughArm cx) s) final) :
    Gains final c site s (bodies.foldl (throughArm cx) s) (bodies.flatMap (bodyJumps inner)) := by
  induction bodies generalizing s with
  | nil => exact .none rfl
  | cons body rest ih =>
    have hstart : s.startArm.Inside c site inner :=
      h.of_eq (s.opened_modifyInnermost _) (.startArm s)
    have hrest : GoesOn (throughArm cx s body) final := (GoesOn.throughArms _ rest).trans hfinal
    have hbody :=
      hbodies body List.mem_cons_self s.startArm hstart ((GoesOn.closeArm _).trans hrest)
    have harm : Gains final c site s (throughArm cx s body) (bodyJumps inner body) := by
      rw [Gains, throughArm, leaves_closeArm, ← s.leaves_startArm]
      exact hbody
    exact harm.trans (ih (h.of_eq (opened_throughArm s body) (.throughArm s body))
      (fun other hother => hbodies other (List.mem_cons_of_mem _ hother)) hfinal)

/-- The leaves of a construct, which may be the one of the span. -/
theorem gains_construct {bodies : List (List Stmt)}
    (h : (s.openSpan anchor false).Inside c site inner)
    (hbodies : ∀ body ∈ bodies, ∀ s : Survey, s.Inside c site inner →
      GoesOn (Source.surveyed cx s (bodyEvents body)) final →
        Gains final c site s (Source.surveyed cx s (bodyEvents body)) (bodyJumps inner body))
    (hfinal : GoesOn (throughConstruct cx s anchor bodies) final) :
    Gains final c site s (throughConstruct cx s anchor bodies)
      (bodies.flatMap (bodyJumps inner)) := by
  have harms := gains_arms h hbodies ((GoesOn.closeSpan _).trans hfinal)
  rw [Gains, throughConstruct, leaves_closeSpan]
  exact harms

end Survey

open Survey

section landing

variable {final : Survey} {c : Nat} {site : Site}

mutual

/-- The leaves that a statement adds have the edges that recursion finds in it. -/
theorem gains_stmt : ∀ (stmt : Stmt) {s : Survey} {inner : List Anchor}, s.Inside c site inner →
    GoesOn (surveyed cx s stmt.events) final →
      Gains final c site s (surveyed cx s stmt.events) (jumps inner stmt)
  | .effect _, s, _, _, _ | .ret _, s, _, _, _ => by
    rw [Stmt.events, jumps]
    exact gains_leaf s _
  | .leave source label, s, _, h, hfinal => by
    rw [Stmt.events] at hfinal ⊢
    rw [jumps]
    refine gains_jump h source .leave ?_ _ ((GoesOn.surveyed s _).trans hfinal)
    exact fun _ => rfl
  | .again source label, s, _, h, hfinal => by
    rw [Stmt.events] at hfinal ⊢
    rw [jumps]
    refine gains_jump h source .again ?_ _ ((GoesOn.surveyed s _).trans hfinal)
    exact fun _ => rfl
  | .edge source, s, _, h, hfinal => by
    rw [Stmt.events] at hfinal ⊢
    rw [jumps]
    refine gains_jump h source .fall ?_ _ ((GoesOn.surveyed s _).trans hfinal)
    exact fun _ => rfl
  | .block b body, s, inner, h, hfinal => by
    rw [surveyed_block] at hfinal ⊢
    rw [jumps, ← List.flatMap_singleton (bodyJumps _) body]
    refine gains_construct (h.openSpan _ _) (fun body' hbody s hs => ?_) hfinal
    rw [List.mem_singleton.1 hbody]
    exact gains_body body hs
  | .branch node thenBody elseBody, s, inner, h, hfinal => by
    rw [surveyed_branch] at hfinal ⊢
    have hjumps : jumps inner (.branch node thenBody elseBody) =
        [] ++ [thenBody, elseBody].flatMap (bodyJumps (.choice node :: inner)) := by
      simp [jumps]
    rw [hjumps]
    refine (gains_leaf s _).trans (gains_construct ((h.leaf _ _).openSpan _ _)
      (fun body' hbody s hs => ?_) hfinal)
    rcases List.mem_cons.1 hbody with hbody | hbody
    · rw [hbody]
      exact gains_body thenBody hs
    · rw [List.mem_singleton.1 hbody]
      exact gains_body elseBody hs
  | .switch node arms fallback, s, inner, h, hfinal => by
    rw [surveyed_switch] at hfinal ⊢
    have hjumps : jumps inner (.switch node arms fallback) =
        [] ++ (arms.map Prod.snd ++ [fallback]).flatMap (bodyJumps (.choice node :: inner)) := by
      simp [jumps, armJumps_eq]
    rw [hjumps]
    refine (gains_leaf s _).trans (gains_construct ((h.leaf _ _).openSpan _ _)
      (fun body' hbody s hs => ?_) hfinal)
    rcases List.mem_append.1 hbody with hbody | hbody
    · exact gains_armBodies arms body' hbody hs
    · rw [List.mem_singleton.1 hbody]
      exact gains_body fallback hs

theorem gains_body : ∀ (body : List Stmt) {s : Survey} {inner : List Anchor},
    s.Inside c site inner → GoesOn (surveyed cx s (bodyEvents body)) final →
      Gains final c site s (surveyed cx s (bodyEvents body)) (bodyJumps inner body)
  | [], _, _, _, _ => by
    rw [bodyEvents, bodyJumps]
    exact .none rfl
  | stmt :: rest, s, inner, h, hfinal => by
    rw [bodyEvents, surveyed_append] at hfinal ⊢
    rw [bodyJumps]
    exact (gains_stmt stmt h ((GoesOn.surveyed _ _).trans hfinal)).trans
      (gains_body rest (h.of_eq (resumes_stmt stmt s).opened (.surveyed s _)) hfinal)

theorem gains_armBodies : ∀ (arms : List (Int32 × List Stmt)), ∀ body ∈ arms.map Prod.snd,
    ∀ {s : Survey} {inner : List Anchor}, s.Inside c site inner →
      GoesOn (surveyed cx s (bodyEvents body)) final →
        Gains final c site s (surveyed cx s (bodyEvents body)) (bodyJumps inner body)
  | [], _, hmem, _, _, _ => by cases hmem
  | (key, body) :: rest, body', hmem, _, _, h => by
    rcases List.mem_cons.1 hmem with hmem | hmem
    · rw [show body' = body from hmem]
      exact gains_body body h
    · exact gains_armBodies rest body' hmem h

end

end landing

/-! ### Every construct has its span -/

/-- A survey has the span of a construct, with the values and the phis that recursion gives it. -/
def Site.FoundIn (cx : Context) (final : Survey) (site : Site) : Prop :=
  ∃ (c : Nat) (span : Span), final.spans[c]? = some span ∧ span.anchor = site.anchor ∧
    final.hoisted span = site.nodes cx ∧ final.unstable cx.graph c span = site.unstable cx

theorem Survey.GoesOn.entered (s : Survey) (stmt : Stmt) : GoesOn s (entered cx s stmt) := by
  cases stmt with
  | branch | switch => exact .leaf s _ _
  | _ => exact .refl s

theorem Survey.size_throughConstruct (s : Survey) (anchor : Anchor) (bodies : List (List Stmt)) :
    (throughConstruct cx s anchor bodies).leaves.size = rangesEnd s.leaves.size bodies := by
  rw [size_leaves, leafUses_throughConstruct, List.length_append, ← size_leaves, rangesEnd_eq]

/-- The leaves that were added between two surveys are found between their sizes. -/
theorem Survey.leaves_eq_append {s s' final : Survey} (h : GoesOn s s') (hfinal : GoesOn s' final) :
    s'.leaves.toList =
      s.leaves.toList ++ final.leavesBetween s.leaves.size s'.leaves.size := by
  obtain ⟨new, hnew⟩ := h.leaves
  obtain ⟨more, hmore⟩ := hfinal.leaves
  rw [leavesBetween, ← hmore, List.take_left' s'.leaves.length_toList, ← hnew,
    List.drop_left' s.leaves.length_toList]

/-- A construct has its span, whatever follows. -/
theorem foundIn_construct {s : Survey} {stmt : Stmt} {anchor : Anchor} {around : List Anchor}
    (hanchor : stmt.anchor? = some anchor) (hs : s.StandsIn around) (rest : List Event) :
    Site.FoundIn cx (surveyed cx s (stmt.events ++ rest))
      ⟨anchor, around, stmt.arms, usesOf cx rest⟩ := by
  have hentered : (entered cx s stmt).StandsIn around :=
    hs.of_eq (opened_entered s stmt) (.entered s stmt)
  rw [surveyed_append, surveyed_construct s hanchor]
  generalize entered cx s stmt = s at hentered ⊢
  have hfinal : GoesOn (throughConstruct cx s anchor stmt.arms)
      (surveyed cx (throughConstruct cx s anchor stmt.arms) rest) := .surveyed _ rest
  obtain ⟨hfound, hhoisted⟩ := @span_of_construct cx anchor stmt.arms _ hentered.openInRange rest
  refine ⟨_, _, hfound, rfl, hhoisted, ?_⟩
  generalize surveyed cx (throughConstruct cx s anchor stmt.arms) rest = final at hfinal ⊢
  have hinside : (s.openSpan anchor false).Inside s.spans.size
      ⟨anchor, around, stmt.arms, usesOf cx rest⟩ [] :=
    ⟨hentered.openSpan anchor false, rfl⟩
  have hgains := gains_construct hinside (fun body _ s hs => gains_body body hs) hfinal
  rw [Gains, leaves_eq_append (.throughConstruct s anchor stmt.arms) hfinal, size_throughConstruct,
    landed, List.filterMap_append] at hgains
  -- between the ends of the span are the leaves that its arms have added
  have hlanded := List.append_cancel_left hgains
  simp only [unstable, spanOf, Site.unstable]
  rw [← hlanded]

mutual

theorem foundIn_stmt : ∀ (stmt : Stmt) {s : Survey} {around : List Anchor} (rest : List Event),
    s.StandsIn around → ∀ site ∈ sites cx around (usesOf cx rest) stmt,
      site.FoundIn cx (surveyed cx s (stmt.events ++ rest))
  | .effect _, _, _, _, _, _, hsite | .ret _, _, _, _, _, _, hsite
  | .leave _ _, _, _, _, _, _, hsite | .again _ _, _, _, _, _, _, hsite
  | .edge _, _, _, _, _, _, hsite => by
    rw [sites] at hsite
    cases hsite
  | .block b body, s, around, rest, hs, site, hsite => by
    rw [sites] at hsite
    rcases List.mem_cons.1 hsite with rfl | hsite
    · exact foundIn_construct rfl hs rest
    · rw [Stmt.events, List.cons_append, surveyed_cons, List.append_assoc]
      refine foundIn_body body _ (hs.openSpan (.block b.label) true) site ?_
      -- the event that closes the block uses nothing
      rwa [List.singleton_append, usesOf_cons_of_not_leaf rfl]
  | .branch node thenBody elseBody, s, around, rest, hs, site, hsite => by
    have hthen : (note cx.graph cx.isShared s (.startIf node)).StandsIn (.choice node :: around) :=
      (hs.leaf _ _).openSpan (.choice node) true
    rw [sites] at hsite
    rcases List.mem_cons.1 hsite with rfl | hsite
    · exact foundIn_construct rfl hs rest
    · rw [Stmt.events, List.cons_append, surveyed_cons, List.append_assoc]
      rcases List.mem_append.1 hsite with hsite | hsite
      · refine foundIn_body thenBody _ hthen site ?_
        rwa [List.cons_append, usesOf_cons_of_not_leaf rfl, List.append_assoc, usesOf_append,
          List.singleton_append, usesOf_cons_of_not_leaf rfl]
      · rw [surveyed_append, List.cons_append, surveyed_cons, List.append_assoc]
        refine foundIn_body elseBody _ (hthen.body thenBody).closeArm.startArm site ?_
        rwa [List.singleton_append, usesOf_cons_of_not_leaf rfl]
  | .switch node arms fallback, s, around, rest, hs, site, hsite => by
    have harms : (note cx.graph cx.isShared s (.startSwitch node)).StandsIn
        (.choice node :: around) :=
      (hs.leaf _ _).openSpan (.choice node) false
    rw [sites] at hsite
    rcases List.mem_cons.1 hsite with rfl | hsite
    · exact foundIn_construct rfl hs rest
    · rw [Stmt.events, List.cons_append, surveyed_cons, List.append_assoc]
      rcases List.mem_append.1 hsite with hsite | hsite
      · refine foundIn_arms node arms _ harms site ?_
        rwa [List.cons_append, usesOf_cons_of_not_leaf rfl, List.append_assoc, usesOf_append,
          List.cons_append, usesOf_cons_of_not_leaf rfl, List.singleton_append,
          usesOf_cons_of_not_leaf rfl]
      · rw [surveyed_append, List.cons_append, surveyed_cons, List.append_assoc, surveyed_arms]
        refine foundIn_body fallback _ (harms.throughArms _).startArm site ?_
        rwa [List.cons_append, usesOf_cons_of_not_leaf rfl, List.singleton_append,
          usesOf_cons_of_not_leaf rfl]

/-- The constructs in a body have their spans, whatever follows. -/
theorem foundIn_body : ∀ (body : List Stmt) {s : Survey} {around : List Anchor}
    (rest : List Event), s.StandsIn around → ∀ site ∈ bodySites cx around (usesOf cx rest) body,
      site.FoundIn cx (surveyed cx s (bodyEvents body ++ rest))
  | [], _, _, _, _, _, hsite => by
    rw [bodySites] at hsite
    cases hsite
  | stmt :: body, s, around, rest, hs, site, hsite => by
    rw [bodySites] at hsite
    rw [bodyEvents, List.append_assoc]
    rcases List.mem_append.1 hsite with hsite | hsite
    · refine foundIn_stmt stmt _ hs site ?_
      rwa [usesOf_append]
    · rw [surveyed_append]
      exact foundIn_body body rest (hs.of_eq (resumes_stmt stmt s).opened (.surveyed s _)) site
        hsite

theorem foundIn_arms (node : NodeId) : ∀ (arms : List (Int32 × List Stmt)) {s : Survey}
    {around : List Anchor} (rest : List Event), s.StandsIn around →
    ∀ site ∈ armSites cx around (usesOf cx rest) arms,
      site.FoundIn cx (surveyed cx s (armEvents node arms ++ rest))
  | [], _, _, _, _, _, hsite => by
    rw [armSites] at hsite
    cases hsite
  | (key, body) :: arms, s, around, rest, hs, site, hsite => by
    rw [armSites] at hsite
    rw [armEvents, List.cons_append, surveyed_cons, List.append_assoc]
    rcases List.mem_append.1 hsite with hsite | hsite
    · refine foundIn_body body _ hs.startArm site ?_
      rwa [List.cons_append, usesOf_cons_of_not_leaf rfl, usesOf_append, usesOf_armEvents]
    · rw [surveyed_append, List.cons_append, surveyed_cons]
      exact foundIn_arms node arms rest (hs.startArm.body body).closeArm site hsite

end

/-! ### The plan -/

/-- A value is used by an event if it is shared and one of the roots of the event leads to it
through operands, not looking through phis. -/
theorem mem_uses_iff {e : Event} {id : NodeId} :
    id ∈ e.uses cx ↔ cx.isShared id = true ∧ ∃ root ∈ e.roots cx,
      ReflTransGen (cx.graph.LeadsTo fun _ node => if node.kind.isPhi then [] else node.operands)
        root id := by
  rw [Event.uses, Survey.uses, List.mem_filter, Graph.mem_visit_iff, and_comm]

/-- The plan is the one that recursion on the tree gives, and no index is out of range while it is
made. A construct has an entry if one of its arms uses a shared value that is used again, in another
arm or later. -/
theorem plan_of_sites {body : List Stmt} (hdistinct : Distinct body) :
    (∀ done, done <+: bodyEvents body → (surveyed cx {} done).InRange) ∧
      (∀ site ∈ bodySites cx [] [] body,
        (Plan.ofBody cx.graph cx.isShared body).hoist? site.anchor =
          if site.nodes cx = [] then none else some ⟨site.nodes cx, site.unstable cx⟩) ∧
      (∀ anchor, anchor ∉ (bodySites cx [] [] body).map Site.anchor →
        (Plan.ofBody cx.graph cx.isShared body).hoist? anchor = none) ∧
      (∀ site ∈ bodySites cx [] [] body,
        ((Plan.ofBody cx.graph cx.isShared body).hoist? site.anchor).isSome ↔
          ∃ id, UsedAgain cx site.arms site.later id) ∧
      ∀ (e : Event) (id : NodeId), id ∈ e.uses cx ↔ cx.isShared id = true ∧ ∃ root ∈ e.roots cx,
        ReflTransGen
          (cx.graph.LeadsTo fun _ node => if node.kind.isPhi then [] else node.operands)
          root id := by
  have hnodup : (Survey.ofBody cx.graph cx.isShared body).anchors.Nodup := by
    rw [anchors_ofBody]
    exact hdistinct
  have hentry : ∀ site ∈ bodySites cx [] [] body,
      (Plan.ofBody cx.graph cx.isShared body).hoist? site.anchor =
        if site.nodes cx = [] then none else some ⟨site.nodes cx, site.unstable cx⟩ := by
    intro site hsite
    obtain ⟨c, span, hspan, hanchor, hnodes, hunstable⟩ :=
      foundIn_body body [] (s := {}) .nil site hsite
    rw [List.append_nil] at hspan hnodes hunstable
    rw [← hanchor, ← hnodes, ← hunstable]
    exact Survey.hoist?_plan hnodup hspan
  refine ⟨fun done _ => InRange.start.surveyed done, hentry, fun anchor hanchor => ?_,
    fun site hsite => ?_, fun e id => mem_uses_iff⟩
  · refine Survey.hoist?_plan_of_notMem ?_
    rw [anchors_ofBody]
    rwa [anchors_bodySites] at hanchor
  · have hused : (∃ id, UsedAgain cx site.arms site.later id) ↔ site.nodes cx ≠ [] := by
      simp only [← mem_usedAgain]
      exact ⟨fun ⟨id, hid⟩ => List.ne_nil_of_mem hid, List.exists_mem_of_ne_nil _⟩
    rw [hentry site hsite, hused]
    split_ifs with hnodes <;> simp [hnodes]

/-- A counter that a loop keeps and that is returned after it. -/
def returnedCounter : Context where
  cls := { name := ⟨"Kernel"⟩ }
  method :=
    { name := "run"
      params := [⟨"n", .int⟩, ⟨"xs", .array .int⟩]
      graph := ⟨#[.param 0 .int, .param 1 (.array .int), .int 0, .int 1, .marker .start,
        .marker .goto, .marker .goto, .phi .int [(4, 2), (5, 8)], ⟨.binary .add, .int, [7, 3]⟩,
        .arrayStore 1 2 8, .compare .lt 7 0, .branch 10, .ret (some 8)]⟩
      body := [
        .edge 4,
        .block ⟨"L", true⟩ [
          .effect 9,
          .branch 11 [.again 5 "L"] [.leave 6 "L"]],
        .ret 12] }

/-- The loop may change the phi. The branch may not: starting the loop again leaves it. -/
theorem plan_of_sites_returnedCounter :
    Distinct returnedCounter.method.body ∧
      (Plan.ofBody returnedCounter.graph returnedCounter.isShared
        returnedCounter.method.body).hoist? (.block "L") = some ⟨[8], [7]⟩ ∧
      (Plan.ofBody returnedCounter.graph returnedCounter.isShared
        returnedCounter.method.body).hoist? (.choice 11) = some ⟨[8], []⟩ := by
  have hdistinct : Distinct returnedCounter.method.body := by decide
  obtain ⟨-, hentry, -⟩ := @plan_of_sites returnedCounter _ hdistinct
  refine ⟨hdistinct, ?_, ?_⟩
  · exact (hentry _ List.mem_cons_self).trans (by cbv)
  · exact (hentry _ (List.mem_cons_of_mem _ List.mem_cons_self)).trans (by cbv)

end KernelForge.Source
