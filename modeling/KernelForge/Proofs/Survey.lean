import KernelForge.Proofs.Memory

/-!
# What the survey of a body finds

The survey reads the events of a body once. Every construct of the body gets one span; when the body
has been read, the arms of that span hold the positions of exactly the leaves in the arms of the
construct, and the values to bind before it are those that one arm uses and that are used again in
another arm or after the construct.
-/

namespace KernelForge

/-- Events that are leaves of the survey. -/
def Event.isLeaf : Event → Bool
  | .effect _ | .ret _ | .startIf _ | .startSwitch _ | .leave _ _ | .again _ _ | .edge _ => true
  | _ => false

open Source in
/-- The shared values that an event uses. -/
def Event.uses (cx : Context) (e : Event) : List NodeId :=
  Survey.uses cx.graph cx.isShared (e.roots cx)

open Source in
/-- The construct that a statement is. -/
def Stmt.anchor? : Stmt → Option Anchor
  | .block b _ => some (.block b.label)
  | .branch id _ _ | .switch id _ _ => some (.choice id)
  | _ => none

/-- The bodies of the arms of a construct. -/
def Stmt.arms : Stmt → List (List Stmt)
  | .block _ body => [body]
  | .branch _ thenBody elseBody => [thenBody, elseBody]
  | .switch _ arms fallback => arms.map Prod.snd ++ [fallback]
  | _ => []

namespace Source

variable {cx : Context}

/-- The shared values that events use. -/
def usesOf (cx : Context) (events : List Event) : List NodeId :=
  events.flatMap (Event.uses cx)

theorem mem_usesOf {events : List Event} {id : NodeId} :
    id ∈ usesOf cx events ↔ ∃ e ∈ events, id ∈ e.uses cx :=
  List.mem_flatMap

@[simp] theorem usesOf_append (xs ys : List Event) :
    usesOf cx (xs ++ ys) = usesOf cx xs ++ usesOf cx ys :=
  List.flatMap_append

theorem uses_of_not_leaf {e : Event} (h : e.isLeaf = false) : e.uses cx = [] := by
  have hroots : e.roots cx = [] := by
    cases e <;> first | rfl | cases h
  rw [Event.uses, hroots, Survey.uses, Graph.visit, List.reverse_nil, Graph.visitFrom]
  rfl

/-- Only the leaves among some events use anything. -/
theorem flatten_uses_leaves (events : List Event) :
    ((events.filter Event.isLeaf).map (Event.uses cx)).flatten = usesOf cx events := by
  induction events with
  | nil => rfl
  | cons e rest ih =>
    rw [usesOf, List.flatMap_cons, ← usesOf, ← ih]
    cases he : e.isLeaf with
    | true => rw [List.filter_cons_of_pos he, List.map_cons, List.flatten_cons]
    | false =>
      rw [List.filter_cons_of_neg (by simp [he]), uses_of_not_leaf he, List.nil_append]

/-! ### Reading events -/

/-- The survey after some more events. -/
def surveyed (cx : Context) (s : Survey) (events : List Event) : Survey :=
  events.foldl (Survey.note cx.graph cx.isShared) s

theorem surveyed_append (s : Survey) (xs ys : List Event) :
    surveyed cx s (xs ++ ys) = surveyed cx (surveyed cx s xs) ys :=
  List.foldl_append

theorem surveyed_cons (s : Survey) (e : Event) (events : List Event) :
    surveyed cx s (e :: events) =
      surveyed cx (Survey.note cx.graph cx.isShared s e) events :=
  rfl

namespace Survey

variable (s : Survey)

/-- What the leaves use, in order. -/
def leafUses : List (List NodeId) :=
  s.leaves.toList.map Leaf.uses

theorem leaves_modifyInnermost (f : Span → Span) : (s.modifyInnermost f).leaves = s.leaves := by
  unfold modifyInnermost
  split <;> rfl

theorem opened_modifyInnermost (f : Span → Span) : (s.modifyInnermost f).opened = s.opened := by
  unfold modifyInnermost
  split <;> rfl

theorem leaves_startArm : s.startArm.leaves = s.leaves :=
  s.leaves_modifyInnermost _

theorem leaves_closeArm : s.closeArm.leaves = s.leaves :=
  s.leaves_modifyInnermost _

theorem leaves_closeSpan : s.closeSpan.leaves = s.leaves :=
  s.leaves_modifyInnermost _

theorem leafUses_note (e : Event) : (note cx.graph cx.isShared s e).leafUses =
    s.leafUses ++ ([e].filter Event.isLeaf).map (Event.uses cx) := by
  cases e with
  | startBlock => simp [note, openSpan, leafUses, Event.isLeaf]
  | startElse => simp [note, leafUses, leaves_startArm, leaves_closeArm, Event.isLeaf]
  | startCase => simp [note, leafUses, leaves_startArm, Event.isLeaf]
  | finishBlock | finishIf =>
    simp [note, leafUses, leaves_closeSpan, leaves_closeArm, Event.isLeaf]
  | finishCase => simp [note, leafUses, leaves_closeArm, Event.isLeaf]
  | finishSwitch => simp [note, leafUses, leaves_closeSpan, Event.isLeaf]
  | _ =>
    simp only [note, leaf, openSpan, leafUses, Array.toList_push, List.map_append]
    rfl

theorem leafUses_surveyed (events : List Event) : (surveyed cx s events).leafUses =
    s.leafUses ++ (events.filter Event.isLeaf).map (Event.uses cx) := by
  induction events generalizing s with
  | nil => simp [surveyed]
  | cons e rest ih =>
    rw [surveyed_cons, ih, leafUses_note, List.append_assoc, ← List.map_append,
      ← List.filter_append, List.singleton_append]

theorem size_leaves : s.leaves.size = s.leafUses.length := by
  simp [leafUses]

/-! ### Properties that last -/

/-- A property that no part of taking note of an event takes away. A leaf with an edge aims at an open
span. -/
structure Kept (cx : Context) (P : Survey → Prop) : Prop where
  leaf : ∀ {s}, P s → ∀ roots edge, (∀ e ∈ edge, ∀ t ∈ e.target, t ∈ s.opened) →
    P (s.leaf cx.graph cx.isShared roots edge)
  openSpan : ∀ {s}, P s → ∀ anchor withArm, P (s.openSpan anchor withArm)
  startArm : ∀ {s}, P s → P s.startArm
  closeArm : ∀ {s}, P s → P s.closeArm
  closeSpan : ∀ {s}, P s → P s.closeSpan

namespace Kept

variable {s} {P : Survey → Prop}

theorem jump (h : Kept cx P) (hs : P s) (roots : List NodeId) (source : NodeId) (kind : EdgeKind)
    (p : Span → Bool) :
    P (s.leaf cx.graph cx.isShared roots (some ⟨source, kind, s.innermost? p⟩)) := by
  refine h.leaf hs roots _ fun e he t ht => ?_
  obtain rfl := Option.some.inj he
  exact List.mem_of_find?_eq_some ht

theorem note (h : Kept cx P) (hs : P s) (e : Event) : P (note cx.graph cx.isShared s e) := by
  have hplain : ∀ roots, P (s.leaf cx.graph cx.isShared roots none) := fun roots =>
    h.leaf hs roots none fun e he => by cases he
  cases e with
  | startBlock => exact h.openSpan hs _ _
  | finishBlock | finishIf => exact h.closeSpan (h.closeArm hs)
  | effect | ret => exact hplain _
  | leave | again | edge => exact h.jump hs _ _ _ _
  | startIf | startSwitch => exact h.openSpan (hplain _) _ _
  | startElse => exact h.startArm (h.closeArm hs)
  | startCase => exact h.startArm hs
  | finishCase => exact h.closeArm hs
  | finishSwitch => exact h.closeSpan hs

theorem surveyed (h : Kept cx P) (hs : P s) (events : List Event) : P (surveyed cx s events) := by
  induction events generalizing s with
  | nil => exact hs
  | cons e rest ih => exact ih (h.note hs e)

end Kept

/-! ### Spans -/

theorem spans_modifyInnermost {c : Nat} {os : List Nat} (f : Span → Span)
    (h : s.opened = c :: os) (j : Nat) :
    (s.modifyInnermost f).spans[j]? = if c = j then s.spans[j]?.map f else s.spans[j]? := by
  rw [modifyInnermost, h]
  exact Array.getElem?_modify

theorem size_spans_modifyInnermost (f : Span → Span) :
    (s.modifyInnermost f).spans.size = s.spans.size := by
  unfold modifyInnermost
  split
  · rfl
  · exact Array.size_modify

/-- A span that is closed and will not change any more. -/
structure Has (s : Survey) (c : Nat) (span : Span) : Prop where
  found : s.spans[c]? = some span
  closed : c ∉ s.opened

variable {s}

theorem Has.modifyInnermost {c : Nat} {span : Span} (h : s.Has c span) (f : Span → Span) :
    (s.modifyInnermost f).Has c span := by
  cases ho : s.opened with
  | nil =>
    have hsame : s.modifyInnermost f = s := by rw [Survey.modifyInnermost, ho]
    rw [hsame]
    exact h
  | cons i os =>
    have hne : i ≠ c := fun hic => h.closed (by simp [ho, hic])
    refine ⟨?_, by rw [s.opened_modifyInnermost]; exact h.closed⟩
    rw [s.spans_modifyInnermost f ho, if_neg hne]
    exact h.found

theorem Has.leaf {c : Nat} {span : Span} (h : s.Has c span) (roots : List NodeId)
    (edge : Option Edge) : (s.leaf cx.graph cx.isShared roots edge).Has c span :=
  ⟨h.found, h.closed⟩

theorem Has.openSpan {c : Nat} {span : Span} (h : s.Has c span) (anchor : Anchor)
    (withArm : Bool) : (s.openSpan anchor withArm).Has c span := by
  have hlt : c < s.spans.size := (Array.getElem?_eq_some_iff.1 h.found).1
  refine ⟨?_, ?_⟩
  · rw [Survey.openSpan, Array.getElem?_push_lt hlt]
    rw [← h.found, Array.getElem?_eq_getElem hlt]
  · simp only [Survey.openSpan, List.mem_cons, not_or]
    exact ⟨Nat.ne_of_lt hlt, h.closed⟩

theorem Has.closeSpan {c : Nat} {span : Span} (h : s.Has c span) : s.closeSpan.Has c span := by
  have hmod := h.modifyInnermost fun span => { span with stop := s.leaves.size }
  exact ⟨hmod.found, fun hmem => hmod.closed (List.mem_of_mem_drop hmem)⟩

theorem Has.surveyed {c : Nat} {span : Span} (h : s.Has c span) (events : List Event) :
    (surveyed cx s events).Has c span := by
  have hkept : Kept cx (·.Has c span) :=
    { leaf := fun h roots edge _ => h.leaf roots edge
      openSpan := Has.openSpan
      startArm := fun h => h.modifyInnermost _
      closeArm := fun h => h.modifyInnermost _
      closeSpan := Has.closeSpan }
  exact hkept.surveyed h events

/-! ### Constructs -/

/-- A survey goes on as before: the same spans are open, and no earlier span has changed. -/
structure Resumes (s s' : Survey) : Prop where
  opened : s'.opened = s.opened
  spans : ∀ j < s.spans.size, s'.spans[j]? = s.spans[j]?
  size : s.spans.size ≤ s'.spans.size

theorem Resumes.refl (s : Survey) : Resumes s s :=
  ⟨rfl, fun _ _ => rfl, Nat.le_refl _⟩

theorem Resumes.trans {s₁ s₂ s₃ : Survey} (h₁ : Resumes s₁ s₂) (h₂ : Resumes s₂ s₃) :
    Resumes s₁ s₃ :=
  ⟨h₂.opened.trans h₁.opened,
    fun j hj => (h₂.spans j (Nat.lt_of_lt_of_le hj h₁.size)).trans (h₁.spans j hj),
    Nat.le_trans h₁.size h₂.size⟩

/-- The survey after one arm of the innermost construct. -/
def throughArm (cx : Context) (s : Survey) (body : List Stmt) : Survey :=
  (Source.surveyed cx s.startArm (bodyEvents body)).closeArm

/-- The survey after a construct. -/
def throughConstruct (cx : Context) (s : Survey) (anchor : Anchor) (arms : List (List Stmt)) :
    Survey :=
  (arms.foldl (throughArm cx) (s.openSpan anchor false)).closeSpan

/-- The number of leaves among the events of a body. -/
def leafCount (body : List Stmt) : Nat :=
  ((bodyEvents body).filter Event.isLeaf).length

/-- The ranges of arms that begin at a position. -/
def ranges (start : Nat) : List (List Stmt) → List (Nat × Nat)
  | [] => []
  | body :: rest => (start, start + leafCount body) :: ranges (start + leafCount body) rest

/-- The position after arms that begin at a position. -/
def rangesEnd (start : Nat) : List (List Stmt) → Nat
  | [] => start
  | body :: rest => rangesEnd (start + leafCount body) rest

/-- The span of a construct that opens here and has these arms. -/
def spanOf (s : Survey) (anchor : Anchor) (bodies : List (List Stmt)) : Span :=
  ⟨anchor, s.opened.head?, s.leaves.size, rangesEnd s.leaves.size bodies,
    ranges s.leaves.size bodies⟩

theorem endLast_concat (stop : Nat) (arms : List (Nat × Nat)) (arm : Nat × Nat) :
    endLast stop (arms ++ [arm]) = arms ++ [(arm.1, stop)] := by
  induction arms with
  | nil => rfl
  | cons first rest ih =>
    cases rest with
    | nil => rfl
    | cons second rest => simpa [endLast] using ih

theorem size_surveyed_body (s : Survey) (body : List Stmt) :
    (Source.surveyed cx s (bodyEvents body)).leaves.size = s.leaves.size + leafCount body := by
  rw [size_leaves, leafUses_surveyed, List.length_append, List.length_map, size_leaves, leafCount]

section construct

variable {c : Nat} {os : List Nat} {span : Span} {bodies : List (List Stmt)}

/-- One arm is added to the innermost open span, and nothing else changes. -/
theorem throughArm_spans {body : List Stmt} (hopened : s.opened = c :: os)
    (hspan : s.spans[c]? = some span)
    (hbody : ∀ s : Survey, Resumes s (Source.surveyed cx s (bodyEvents body))) :
    (throughArm cx s body).opened = c :: os ∧
      (throughArm cx s body).leaves.size = s.leaves.size + leafCount body ∧
      (throughArm cx s body).spans[c]? = some { span with
        arms := span.arms ++ [(s.leaves.size, s.leaves.size + leafCount body)] } ∧
      (∀ j < s.spans.size, c ≠ j → (throughArm cx s body).spans[j]? = s.spans[j]?) ∧
      s.spans.size ≤ (throughArm cx s body).spans.size := by
  have hlt : c < s.spans.size := (Array.getElem?_eq_some_iff.1 hspan).1
  have hopened₁ : s.startArm.opened = c :: os := (s.opened_modifyInnermost _).trans hopened
  have hbody := hbody s.startArm
  have hopened₂ : (Source.surveyed cx s.startArm (bodyEvents body)).opened = c :: os :=
    hbody.opened.trans hopened₁
  have hsize₁ : s.startArm.spans.size = s.spans.size := s.size_spans_modifyInnermost _
  have hleaves : (Source.surveyed cx s.startArm (bodyEvents body)).leaves.size =
      s.leaves.size + leafCount body := by
    rw [size_surveyed_body, s.leaves_startArm]
  refine ⟨?_, ?_, ?_, fun j hj hne => ?_, ?_⟩
  · exact (opened_modifyInnermost _ _).trans hopened₂
  · rw [throughArm, leaves_closeArm, hleaves]
  · rw [throughArm, closeArm, spans_modifyInnermost _ _ hopened₂, if_pos rfl,
      hbody.spans c (by rw [hsize₁]; exact hlt), startArm, spans_modifyInnermost _ _ hopened,
      if_pos rfl, hspan, ← startArm, hleaves]
    simp [endLast_concat]
  · rw [throughArm, closeArm, spans_modifyInnermost _ _ hopened₂, if_neg hne,
      hbody.spans j (by rw [hsize₁]; exact hj), startArm, spans_modifyInnermost _ _ hopened,
      if_neg hne]
  · rw [throughArm, closeArm, size_spans_modifyInnermost, ← hsize₁]
    exact hbody.size

/-- The arms of a construct are added one after the other. -/
theorem throughArms_spans (hopened : s.opened = c :: os) (hspan : s.spans[c]? = some span)
    (hbodies : ∀ body ∈ bodies, ∀ s : Survey,
      Resumes s (Source.surveyed cx s (bodyEvents body))) :
    (bodies.foldl (throughArm cx) s).opened = c :: os ∧
      (bodies.foldl (throughArm cx) s).leaves.size = rangesEnd s.leaves.size bodies ∧
      (bodies.foldl (throughArm cx) s).spans[c]? = some { span with
        arms := span.arms ++ ranges s.leaves.size bodies } ∧
      (∀ j < s.spans.size, c ≠ j → (bodies.foldl (throughArm cx) s).spans[j]? = s.spans[j]?) ∧
      s.spans.size ≤ (bodies.foldl (throughArm cx) s).spans.size := by
  induction bodies generalizing s span with
  | nil => simp [ranges, rangesEnd, hopened, hspan]
  | cons body rest ih =>
    obtain ⟨hopened₁, hleaves₁, hspan₁, hothers₁, hsize₁⟩ :=
      throughArm_spans hopened hspan (hbodies body List.mem_cons_self)
    obtain ⟨hopened₂, hleaves₂, hspan₂, hothers₂, hsize₂⟩ :=
      ih hopened₁ hspan₁ fun b hb => hbodies b (List.mem_cons_of_mem _ hb)
    rw [List.foldl_cons]
    refine ⟨hopened₂, ?_, ?_, fun j hj hne => ?_, Nat.le_trans hsize₁ hsize₂⟩
    · rw [hleaves₂, hleaves₁, rangesEnd]
    · rw [hspan₂, hleaves₁, ranges, List.append_assoc, List.singleton_append]
    · rw [hothers₂ j (Nat.lt_of_lt_of_le hj hsize₁) hne, hothers₁ j hj hne]

/-- After a construct its span is closed, with one range for each arm. -/
theorem throughConstruct_spans {anchor : Anchor} (hbodies : ∀ body ∈ bodies, ∀ s : Survey,
      Resumes s (Source.surveyed cx s (bodyEvents body))) :
    Resumes s (throughConstruct cx s anchor bodies) ∧
      ((∀ i ∈ s.opened, i < s.spans.size) →
        (throughConstruct cx s anchor bodies).Has s.spans.size (s.spanOf anchor bodies)) := by
  have hopened : (s.openSpan anchor false).opened = s.spans.size :: s.opened := rfl
  have hspan : (s.openSpan anchor false).spans[s.spans.size]? =
      some ⟨anchor, s.opened.head?, s.leaves.size, s.leaves.size, []⟩ := by
    simp [openSpan]
  have hsize : (s.openSpan anchor false).spans.size = s.spans.size + 1 := by simp [openSpan]
  obtain ⟨hopened₁, hleaves₁, hspan₁, hothers₁, hsize₁⟩ :=
    throughArms_spans hopened hspan hbodies
  have hopened₂ : (throughConstruct cx s anchor bodies).opened = s.opened := by
    simp only [throughConstruct, closeSpan, opened_modifyInnermost, hopened₁, List.drop_one,
      List.tail_cons]
  refine ⟨⟨hopened₂, fun j hj => ?_, ?_⟩, fun hrange => ⟨?_, ?_⟩⟩
  · have hne : s.spans.size ≠ j := Nat.ne_of_gt hj
    rw [throughConstruct, closeSpan, spans_modifyInnermost _ _ hopened₁, if_neg hne,
      hothers₁ j (by omega) hne]
    simp only [openSpan]
    rw [Array.getElem?_push_lt hj, Array.getElem?_eq_getElem hj]
  · rw [throughConstruct, closeSpan, size_spans_modifyInnermost]
    omega
  · rw [throughConstruct, closeSpan, spans_modifyInnermost _ _ hopened₁, if_pos rfl, hspan₁,
      hleaves₁]
    rfl
  · rw [hopened₂]
    exact fun hmem => Nat.lt_irrefl _ (hrange _ hmem)

end construct

/-! ### Bodies -/

theorem openSpan_true (s : Survey) (anchor : Anchor) :
    s.openSpan anchor true = (s.openSpan anchor false).startArm := by
  have hpush : ∀ span : Span, (s.spans.push span).modify s.spans.size
      (fun span => { span with arms := span.arms ++ [(s.leaves.size, s.leaves.size)] }) =
      s.spans.push { span with arms := span.arms ++ [(s.leaves.size, s.leaves.size)] } := by
    intro span
    apply Array.ext_getElem?
    intro j
    rw [Array.getElem?_modify, Array.getElem?_push, Array.getElem?_push]
    split_ifs <;> simp_all
  simp only [openSpan, startArm, modifyInnermost, hpush]
  rfl

end Survey

open Survey

theorem surveyed_block (s : Survey) (b : Block) (body : List Stmt) :
    surveyed cx s (Stmt.block b body).events = throughConstruct cx s (.block b.label) [body] := by
  rw [Stmt.events, surveyed_cons, surveyed_append]
  simp only [note, openSpan_true]
  rfl

theorem surveyed_branch (s : Survey) (id : NodeId) (thenBody elseBody : List Stmt) :
    surveyed cx s (Stmt.branch id thenBody elseBody).events = throughConstruct cx
      (s.leaf cx.graph cx.isShared (cx.graph.operands id) none) (.choice id)
      [thenBody, elseBody] := by
  rw [Stmt.events, surveyed_cons, surveyed_append, surveyed_cons, surveyed_append]
  simp only [note, openSpan_true]
  rfl

theorem surveyed_arms (s : Survey) (id : NodeId) (arms : List (Int32 × List Stmt)) :
    surveyed cx s (armEvents id arms) = (arms.map Prod.snd).foldl (throughArm cx) s := by
  induction arms generalizing s with
  | nil =>
    rw [armEvents]
    rfl
  | cons arm rest ih =>
    obtain ⟨key, body⟩ := arm
    rw [armEvents, surveyed_cons, surveyed_append, surveyed_cons, List.map_cons, List.foldl_cons,
      ih]
    rfl

theorem surveyed_switch (s : Survey) (id : NodeId) (arms : List (Int32 × List Stmt))
    (fallback : List Stmt) :
    surveyed cx s (Stmt.switch id arms fallback).events = throughConstruct cx
      (s.leaf cx.graph cx.isShared (cx.graph.operands id) none) (.choice id)
      (arms.map Prod.snd ++ [fallback]) := by
  rw [Stmt.events, surveyed_cons, surveyed_append, surveyed_arms, surveyed_cons, surveyed_append,
    throughConstruct, List.foldl_append]
  rfl

/-- The survey where the arms of a construct begin: a branch or switch evaluates its operands
first. -/
def entered (cx : Context) (s : Survey) : Stmt → Survey
  | .branch id _ _ | .switch id _ _ => s.leaf cx.graph cx.isShared (cx.graph.operands id) none
  | _ => s

theorem surveyed_construct (s : Survey) {stmt : Stmt} {anchor : Anchor}
    (h : stmt.anchor? = some anchor) :
    surveyed cx s stmt.events = throughConstruct cx (entered cx s stmt) anchor stmt.arms := by
  cases stmt with
  | block =>
    obtain rfl := Option.some.inj h
    exact surveyed_block s _ _
  | branch =>
    obtain rfl := Option.some.inj h
    exact surveyed_branch s _ _ _
  | switch =>
    obtain rfl := Option.some.inj h
    exact surveyed_switch s _ _ _
  | _ => cases h

theorem opened_entered (s : Survey) (stmt : Stmt) : (entered cx s stmt).opened = s.opened := by
  cases stmt <;> rfl

theorem spans_entered (s : Survey) (stmt : Stmt) : (entered cx s stmt).spans = s.spans := by
  cases stmt <;> rfl

theorem Survey.Resumes.leaf (s : Survey) (roots : List NodeId) (edge : Option Edge) :
    Resumes s (s.leaf cx.graph cx.isShared roots edge) :=
  ⟨rfl, fun _ _ => rfl, Nat.le_refl _⟩

mutual

theorem resumes_stmt : ∀ (stmt : Stmt) (s : Survey), Resumes s (surveyed cx s stmt.events)
  | .effect _, s | .ret _, s | .leave _ _, s | .again _ _, s | .edge _, s => by
    rw [Stmt.events]
    exact .leaf s _ _
  | .block b body, s => by
    rw [surveyed_block]
    refine (throughConstruct_spans fun body' hbody s => ?_).1
    rw [List.mem_singleton.1 hbody]
    exact resumes_body body s
  | .branch id thenBody elseBody, s => by
    rw [surveyed_branch]
    refine .trans (.leaf s _ _) (throughConstruct_spans fun body' hbody s => ?_).1
    rcases List.mem_cons.1 hbody with hbody | hbody
    · rw [hbody]
      exact resumes_body thenBody s
    · rw [List.mem_singleton.1 hbody]
      exact resumes_body elseBody s
  | .switch id arms fallback, s => by
    rw [surveyed_switch]
    refine .trans (.leaf s _ _) (throughConstruct_spans fun body' hbody s => ?_).1
    rcases List.mem_append.1 hbody with hbody | hbody
    · exact resumes_arms arms body' hbody s
    · rw [List.mem_singleton.1 hbody]
      exact resumes_body fallback s

/-- The statements of a body leave the spans around them as they are. -/
theorem resumes_body : ∀ (body : List Stmt) (s : Survey),
    Resumes s (surveyed cx s (bodyEvents body))
  | [], s => by
    rw [bodyEvents]
    exact .refl s
  | stmt :: rest, s => by
    rw [bodyEvents, surveyed_append]
    exact (resumes_stmt stmt s).trans (resumes_body rest _)

theorem resumes_arms : ∀ (arms : List (Int32 × List Stmt)), ∀ body ∈ arms.map Prod.snd,
    ∀ s : Survey, Resumes s (surveyed cx s (bodyEvents body))
  | [], _, h, _ => by cases h
  | (key, body) :: rest, body', h, s => by
    rcases List.mem_cons.1 h with h | h
    · rw [show body' = body from h]
      exact resumes_body body s
    · exact resumes_arms rest body' h s

end

/-! ### Values to bind before a construct -/

/-- The leaves of a body, by what they use. -/
def bodyLeaves (cx : Context) (body : List Stmt) : List (List NodeId) :=
  ((bodyEvents body).filter Event.isLeaf).map (Event.uses cx)

theorem length_bodyLeaves (body : List Stmt) : (bodyLeaves cx body).length = leafCount body := by
  rw [bodyLeaves, List.length_map, leafCount]

theorem flatten_bodyLeaves (body : List Stmt) :
    (bodyLeaves cx body).flatten = usesOf cx (bodyEvents body) :=
  flatten_uses_leaves _

/-- A value that an arm of a construct uses and that is used again, in another arm or after the
construct. -/
def UsedAgain (cx : Context) (arms : List (List Stmt)) (after : List NodeId) (id : NodeId) : Prop :=
  (∃ arm ∈ arms, id ∈ usesOf cx (bodyEvents arm)) ∧
    (id ∈ after ∨ 1 < arms.countP fun arm => decide (id ∈ usesOf cx (bodyEvents arm)))

/-- The values that the arms of a construct use and that are used again, in order of first use. -/
def usedAgain (cx : Context) (arms : List (List Stmt)) (after : List NodeId) : List NodeId :=
  (arms.flatMap fun arm => usesOf cx (bodyEvents arm)).eraseDups.filter fun id =>
    decide (id ∈ after ∨ 1 < arms.countP fun arm => decide (id ∈ usesOf cx (bodyEvents arm)))

theorem mem_usedAgain {arms : List (List Stmt)} {after : List NodeId} {id : NodeId} :
    id ∈ usedAgain cx arms after ↔ UsedAgain cx arms after id := by
  simp only [usedAgain, UsedAgain, List.mem_filter, List.mem_eraseDups, List.mem_flatMap,
    decide_eq_true_eq]

namespace Survey

theorem uses_leavesBetween (s : Survey) (start stop : Nat) :
    (s.leavesBetween start stop).flatMap Leaf.uses =
      ((s.leafUses.take stop).drop start).flatten := by
  rw [leavesBetween, leafUses, List.flatMap_def, List.map_drop, List.map_take]

theorem rangesEnd_eq (start : Nat) (bodies : List (List Stmt)) :
    rangesEnd start bodies = start + (bodies.flatMap (bodyLeaves cx)).length := by
  induction bodies generalizing start with
  | nil => rfl
  | cons body rest ih =>
    rw [rangesEnd, ih, List.flatMap_cons, List.length_append, length_bodyLeaves, Nat.add_assoc]

/-- Each range holds the leaves of its own arm. -/
theorem slices_ranges (bodies : List (List Stmt)) (before after : List (List NodeId)) :
    (ranges before.length bodies).map (fun arm =>
        (((before ++ bodies.flatMap (bodyLeaves cx) ++ after).take arm.2).drop arm.1).flatten) =
      bodies.map fun body => usesOf cx (bodyEvents body) := by
  induction bodies generalizing before with
  | nil => rfl
  | cons body rest ih =>
    have hlength : before.length + leafCount body = (before ++ bodyLeaves cx body).length := by
      rw [List.length_append, length_bodyLeaves]
    rw [ranges, List.map_cons, List.map_cons, List.flatMap_cons, hlength]
    congr 1
    · rw [← List.append_assoc, List.append_assoc _ _ after, List.take_left, List.drop_left,
        flatten_bodyLeaves]
    · rw [← List.append_assoc]
      exact ih (before ++ bodyLeaves cx body)

/-- The values to bind before a span are those that its arms use and that are used again. -/
theorem hoisted_eq {s : Survey} {span : Span} {bodies : List (List Stmt)}
    {before after : List (List NodeId)}
    (hleaves : s.leafUses = before ++ bodies.flatMap (bodyLeaves cx) ++ after)
    (harms : span.arms = ranges before.length bodies)
    (hstop : span.stop = rangesEnd before.length bodies) :
    s.hoisted span = usedAgain cx bodies after.flatten := by
  have harmUses : s.armUses span = bodies.map fun body => usesOf cx (bodyEvents body) := by
    rw [armUses, harms, ← slices_ranges bodies before after, ← hleaves]
    simp only [uses_leavesBetween]
  have hafter : (s.leavesBetween span.stop s.leaves.size).flatMap Leaf.uses = after.flatten := by
    have hlength : span.stop = (before ++ bodies.flatMap (bodyLeaves cx)).length := by
      rw [hstop, rangesEnd_eq, List.length_append]
    rw [uses_leavesBetween, size_leaves, List.take_length, hleaves, hlength, List.drop_left]
  simp only [hoisted, harmUses, hafter, usedAgain, List.flatMap_def, List.countP_map,
    Function.comp_def, List.contains_eq_mem, Bool.decide_or]

/-! ### Constructs inside a body -/

/-- Every open span exists. -/
def OpenInRange (s : Survey) : Prop :=
  ∀ i ∈ s.opened, i < s.spans.size

variable {s : Survey}

theorem OpenInRange.modifyInnermost (h : s.OpenInRange) (f : Span → Span) :
    (s.modifyInnermost f).OpenInRange := by
  intro i hi
  rw [opened_modifyInnermost] at hi
  rw [size_spans_modifyInnermost]
  exact h i hi

theorem OpenInRange.openSpan (h : s.OpenInRange) (anchor : Anchor) (withArm : Bool) :
    (s.openSpan anchor withArm).OpenInRange := by
  intro i hi
  simp only [Survey.openSpan, Array.size_push]
  rcases List.mem_cons.1 hi with rfl | hi
  · exact Nat.lt_succ_self _
  · exact Nat.lt_succ_of_lt (h i hi)

theorem OpenInRange.leaf (h : s.OpenInRange) (roots : List NodeId) (edge : Option Edge) :
    (s.leaf cx.graph cx.isShared roots edge).OpenInRange :=
  h

theorem OpenInRange.closeSpan (h : s.OpenInRange) : s.closeSpan.OpenInRange :=
  fun i hi => (h.modifyInnermost _) i (List.mem_of_mem_drop hi)

theorem OpenInRange.surveyed (h : s.OpenInRange) (events : List Event) :
    (surveyed cx s events).OpenInRange := by
  have hkept : Kept cx OpenInRange :=
    { leaf := fun h roots edge _ => h.leaf roots edge
      openSpan := OpenInRange.openSpan
      startArm := fun h => h.modifyInnermost _
      closeArm := fun h => h.modifyInnermost _
      closeSpan := OpenInRange.closeSpan }
  exact hkept.surveyed h events

theorem OpenInRange.entered (h : s.OpenInRange) (stmt : Stmt) :
    (entered cx s stmt).OpenInRange := by
  rw [OpenInRange, opened_entered, spans_entered]
  exact h

end Survey

section construct

variable {anchor : Anchor} {bodies : List (List Stmt)}

theorem leafUses_throughArm (s : Survey) (body : List Stmt) :
    (throughArm cx s body).leafUses = s.leafUses ++ bodyLeaves cx body := by
  rw [throughArm, leafUses, leaves_closeArm, ← leafUses, leafUses_surveyed, leafUses,
    leaves_startArm]
  rfl

theorem leafUses_throughConstruct (s : Survey) :
    (throughConstruct cx s anchor bodies).leafUses =
      s.leafUses ++ bodies.flatMap (bodyLeaves cx) := by
  have harms : ∀ s : Survey, (bodies.foldl (throughArm cx) s).leafUses =
      s.leafUses ++ bodies.flatMap (bodyLeaves cx) := by
    induction bodies with
    | nil => simp
    | cons body rest ih =>
      intro s
      rw [List.foldl_cons, ih, leafUses_throughArm, List.flatMap_cons, List.append_assoc]
  rw [throughConstruct, leafUses, leaves_closeSpan]
  exact harms (s.openSpan anchor false)

/-- Whatever follows a construct, its span is there, and the values to bind before it are those that
its arms use and that are used again. -/
theorem span_of_construct {s : Survey} (hs : s.OpenInRange) (rest : List Event) :
    (surveyed cx (throughConstruct cx s anchor bodies) rest).spans[s.spans.size]? =
        some (s.spanOf anchor bodies) ∧
      (surveyed cx (throughConstruct cx s anchor bodies) rest).hoisted (s.spanOf anchor bodies) =
        usedAgain cx bodies (usesOf cx rest) := by
  have hspan : (throughConstruct cx s anchor bodies).Has s.spans.size (s.spanOf anchor bodies) :=
    (throughConstruct_spans fun body _ s => resumes_body body s).2 hs
  have hleaves : (surveyed cx (throughConstruct cx s anchor bodies) rest).leafUses =
      s.leafUses ++ bodies.flatMap (bodyLeaves cx) ++
        (rest.filter Event.isLeaf).map (Event.uses cx) := by
    rw [leafUses_surveyed, leafUses_throughConstruct]
  refine ⟨(hspan.surveyed rest).found, ?_⟩
  rw [hoisted_eq hleaves (by rw [spanOf, size_leaves]) (by rw [spanOf, size_leaves]),
    flatten_uses_leaves]

end construct

/-- The construct at some place of a body has a span, and the values to bind before it are those
that are used again. -/
theorem exists_span {body : List Stmt} {done rest : List Event} {stmt : Stmt} {anchor : Anchor}
    (hevents : bodyEvents body = done ++ stmt.events ++ rest)
    (hanchor : stmt.anchor? = some anchor) :
    ∃ (c : Nat) (span : Span),
      (Survey.ofBody cx.graph cx.isShared body).spans[c]? = some span ∧ span.anchor = anchor ∧
        ∀ id, id ∈ (Survey.ofBody cx.graph cx.isShared body).hoisted span ↔
          UsedAgain cx stmt.arms (usesOf cx rest) id := by
  have hrange : (surveyed cx {} done).OpenInRange :=
    OpenInRange.surveyed (fun i hi => by cases hi) done
  have hsurvey : Survey.ofBody cx.graph cx.isShared body =
      surveyed cx (throughConstruct cx (entered cx (surveyed cx {} done) stmt) anchor stmt.arms)
        rest := by
    rw [← surveyed_construct _ hanchor, ← surveyed_append, ← surveyed_append, ← List.append_assoc,
      ← hevents]
    rfl
  obtain ⟨hfound, hhoisted⟩ :=
    @span_of_construct cx anchor stmt.arms _ (hrange.entered stmt) rest
  rw [hsurvey]
  exact ⟨_, _, hfound, rfl, fun id => by rw [hhoisted, mem_usedAgain]⟩

end Source

end KernelForge
