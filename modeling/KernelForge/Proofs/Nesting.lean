import KernelForge.Proofs.Memory

/-!
# Nesting of constructs

How each event changes the list of open constructs, the labels and the plan, and what the events of a
body promise about the open constructs: directly inside a switch there are only its cases.
-/

namespace KernelForge

/-- Whether events can follow when constructs are open, innermost first; `true` stands for a switch,
which holds nothing but cases. -/
def Nested : List Bool → List Event → Prop
  | _, [] => True
  | stack, .startBlock _ :: rest | stack, .startIf _ :: rest =>
    stack.head? ≠ some true ∧ Nested (false :: stack) rest
  | stack, .startSwitch _ :: rest => stack.head? ≠ some true ∧ Nested (true :: stack) rest
  | stack, .startCase _ _ :: rest => stack.head? = some true ∧ Nested (false :: stack) rest
  | stack, .startElse _ :: rest => stack.head? = some false ∧ Nested stack rest
  | stack, .finishBlock _ :: rest | stack, .finishIf _ :: rest | stack, .finishCase _ :: rest =>
    stack.head? = some false ∧ Nested stack.tail rest
  | stack, .finishSwitch _ :: rest => stack.head? = some true ∧ Nested stack.tail rest
  | stack, .effect _ :: rest | stack, .ret _ :: rest | stack, .leave _ _ :: rest
  | stack, .again _ _ :: rest | stack, .edge _ :: rest =>
    stack.head? ≠ some true ∧ Nested stack rest

mutual

/-- A statement may stand wherever no switch waits for a case. -/
theorem nested_stmt {stack : List Bool} {rest : List Event} (hstack : stack.head? ≠ some true)
    (h : Nested stack rest) : ∀ stmt : Stmt, Nested stack (stmt.events ++ rest)
  | .effect _ | .ret _ | .leave _ _ | .again _ _ | .edge _ => by
    simpa only [Stmt.events, List.singleton_append, Nested] using ⟨hstack, h⟩
  | .block b body => by
    have hinner : Nested (false :: stack) (.finishBlock b :: rest) := ⟨rfl, h⟩
    simp only [Stmt.events, List.cons_append, List.append_assoc, List.nil_append, Nested]
    exact ⟨hstack, nested_body (by simp) hinner body⟩
  | .branch node thenBody elseBody => by
    have hinner : Nested (false :: stack) (.finishIf node :: rest) := ⟨rfl, h⟩
    have helse : Nested (false :: stack)
        (.startElse node :: (bodyEvents elseBody ++ .finishIf node :: rest)) :=
      ⟨rfl, nested_body (by simp) hinner elseBody⟩
    simp only [Stmt.events, List.cons_append, List.append_assoc, List.nil_append, Nested]
    exact ⟨hstack, nested_body (by simp) helse thenBody⟩
  | .switch node arms fallback => by
    have hfinish : Nested (false :: true :: stack)
        (.finishCase node :: .finishSwitch node :: rest) := ⟨rfl, rfl, h⟩
    have hfallback : Nested (true :: stack) (.startCase node none :: (bodyEvents fallback ++
        .finishCase node :: .finishSwitch node :: rest)) :=
      ⟨rfl, nested_body (by simp) hfinish fallback⟩
    simp only [Stmt.events, List.cons_append, List.append_assoc, List.nil_append, Nested]
    exact ⟨hstack, nested_arms hfallback arms⟩

theorem nested_body {stack : List Bool} {rest : List Event} (hstack : stack.head? ≠ some true)
    (h : Nested stack rest) : ∀ body : List Stmt, Nested stack (bodyEvents body ++ rest)
  | [] => by simpa only [bodyEvents, List.nil_append] using h
  | stmt :: body => by
    rw [bodyEvents, List.append_assoc]
    exact nested_stmt hstack (nested_body hstack h body) stmt

theorem nested_arms {node : NodeId} {stack : List Bool} {rest : List Event}
    (h : Nested (true :: stack) rest) : ∀ arms : List (Int32 × List Stmt),
    Nested (true :: stack) (armEvents node arms ++ rest)
  | [] => by simpa only [armEvents, List.nil_append] using h
  | (key, body) :: arms => by
    have hfinish : Nested (false :: true :: stack)
        (.finishCase node :: (armEvents node arms ++ rest)) := ⟨rfl, nested_arms h arms⟩
    simp only [armEvents, List.cons_append, List.append_assoc, Nested]
    exact ⟨rfl, nested_body (by simp) hfinish body⟩

end

namespace Source

variable {cx : Context} {s s' : Emitter}

def Open.isSwitch : Open → Bool
  | .switch _ _ => true
  | _ => false

/-- How an event changes the open constructs, innermost first. -/
inductive OpenedBy : Event → List Open → List Open → Prop
  | startBlock {b : Block} {os : List Open} : OpenedBy (.startBlock b) os (.block b false :: os)
  | finishBlock {b b' : Block} {used : Bool} {os : List Open} (h : b'.label = b.label) :
      OpenedBy (.finishBlock b) (.block b' used :: os) os
  | startIf {id : NodeId} {os : List Open} : OpenedBy (.startIf id) os (.branch id false :: os)
  | startElse {id : NodeId} {os : List Open} :
      OpenedBy (.startElse id) (.branch id false :: os) (.branch id true :: os)
  | finishIf {id : NodeId} {inElse : Bool} {os : List Open} :
      OpenedBy (.finishIf id) (.branch id inElse :: os) os
  | startSwitch {id : NodeId} {os : List Open} :
      OpenedBy (.startSwitch id) os (.switch id false :: os)
  | startCase {id : NodeId} {key : Option Int32} {hasDefault : Bool} {os : List Open} :
      OpenedBy (.startCase id key) (.switch id hasDefault :: os)
        (.case id :: .switch id (hasDefault || key.isNone) :: os)
  | finishCase {id : NodeId} {os : List Open} : OpenedBy (.finishCase id) (.case id :: os) os
  | finishSwitch {id : NodeId} {hasDefault : Bool} {os : List Open} :
      OpenedBy (.finishSwitch id) (.switch id hasDefault :: os) os
  | leave {source : NodeId} {label : String} {os : List Open} :
      OpenedBy (.leave source label) os (markExit label os)
  | effect {id : NodeId} {os : List Open} : OpenedBy (.effect id) os os
  | ret {id : NodeId} {os : List Open} : OpenedBy (.ret id) os os
  | again {source : NodeId} {label : String} {os : List Open} :
      OpenedBy (.again source label) os os
  | edge {source : NodeId} {os : List Open} : OpenedBy (.edge source) os os

/-! ### What the parts of an event leave alone -/

/-- Two emitters have the same open constructs, labels and plan. -/
structure SameFrame (s s' : Emitter) : Prop where
  opened : s'.opened = s.opened
  labels : s'.labels = s.labels
  plan : s'.plan = s.plan

@[refl] theorem SameFrame.refl (s : Emitter) : SameFrame s s :=
  ⟨rfl, rfl, rfl⟩

theorem SameFrame.trans {s₁ s₂ s₃ : Emitter} (h₁ : SameFrame s₁ s₂) (h₂ : SameFrame s₂ s₃) :
    SameFrame s₁ s₃ :=
  ⟨h₂.opened.trans h₁.opened, h₂.labels.trans h₁.labels, h₂.plan.trans h₁.plan⟩

theorem SameFrame.write (h : SameFrame s s') (l : Line) : SameFrame s (s'.write l) :=
  ⟨h.opened, h.labels, h.plan⟩

theorem Evaluates.sameFrame {ids : List NodeId} {vs : List Value}
    (h : Evaluates cx ids s vs s') : SameFrame s s' :=
  ⟨h.extends.opened, h.extends.labels, h.extends.plan⟩

theorem SameFrame.closeScope (s : Emitter) : SameFrame s s.closeScope := by
  unfold Emitter.closeScope
  split <;> exact ⟨rfl, rfl, rfl⟩

theorem SameFrame.closed (s : Emitter) (rest : List Open) :
    SameFrame { s with opened := rest } (s.closed rest) :=
  (SameFrame.closeScope _).write _

theorem Binds.sameFrame {unstable ids : List NodeId} (h : Binds cx unstable ids s s') :
    SameFrame s s' := by
  induction h with
  | nil s => exact .refl s
  | known _ _ ih => exact ih
  | now _ _ heval _ ih => exact heval.sameFrame.trans ih
  | pin _ _ ih => exact ⟨ih.opened, ih.labels, ih.plan⟩

theorem FlowsIn.sameFrame {staged : Bool} {moves : List (NodeId × NodeId)}
    {assignments : List (NodeId × Expr)} (h : FlowsIn cx staged moves s assignments s') :
    SameFrame s s' := by
  induction h with
  | nil s => exact .refl s
  | direct heval _ _ _ ih => exact heval.sameFrame.trans ih
  | stage _ heval _ ih => exact heval.sameFrame.trans ⟨ih.opened, ih.labels, ih.plan⟩

theorem Feeds.sameFrame {assignments : List (NodeId × Expr)} (h : Feeds assignments s s') :
    SameFrame s s' := by
  induction h with
  | nil s => exact .refl s
  | cons _ _ ih => exact ⟨ih.opened, ih.labels, ih.plan⟩

theorem Assigns.sameFrame {source : NodeId} (h : Assigns cx source s s') : SameFrame s s' := by
  obtain ⟨_, hin, hfeed⟩ := h
  exact hin.sameFrame.trans hfeed.sameFrame

/-- Binding what is planned for a construct takes its entry out of the plan. -/
theorem Hoists.frame {anchor : Anchor} (h : Hoists cx anchor s s') :
    s'.opened = s.opened ∧ s'.labels = s.labels ∧
      ∀ other ≠ anchor, s'.plan.hoist? other = s.plan.hoist? other := by
  cases h with
  | nothing _ h =>
    subst h
    exact ⟨rfl, rfl, fun _ _ => rfl⟩
  | planned _ h =>
    have hframe := h.sameFrame
    refine ⟨hframe.opened, hframe.labels, fun other hother => ?_⟩
    rw [hframe.plan, Plan.hoist?_without, if_neg hother]

/-! ### Every event -/

/-- What an event does to the open constructs, the labels and the plan. -/
structure Frames (e : Event) (s s' : Emitter) : Prop where
  opened : OpenedBy e s.opened s'.opened
  fresh : ∀ label ∈ e.label?, label ∉ s.labels
  labels : s'.labels = e.label?.toList ++ s.labels
  plan : ∀ {anchor}, e.anchor? ≠ some anchor → s'.plan.hoist? anchor = s.plan.hoist? anchor

/-- An event that opens no block and leaves the plan alone. -/
theorem Frames.of_opened {e : Event} (hopened : OpenedBy e s.opened s'.opened)
    (hlabel : e.label? = none) (hlabels : s'.labels = s.labels) (hplan : s'.plan = s.plan) :
    Frames e s s' :=
  ⟨hopened, by simp [hlabel], by simp [hlabel, hlabels], fun _ => by rw [hplan]⟩

theorem SameFrame.frames {e : Event} (h : SameFrame s s')
    (hopened : OpenedBy e s.opened s.opened) (hlabel : e.label? = none) : Frames e s s' :=
  .of_opened (h.opened ▸ hopened) hlabel h.labels h.plan

theorem Emitted.frames {e : Event} (h : Emitted cx e s s') : Frames e s s' := by
  cases h with
  | effectKnown => exact (SameFrame.refl _).frames .effect rfl
  | effectVoid _ _ _ heval => exact (heval.sameFrame.write _).frames .effect rfl
  | effectKept _ _ _ heval => exact heval.sameFrame.frames .effect rfl
  | effectFresh _ _ _ heval =>
    refine (heval.sameFrame.trans ?_).frames .effect rfl
    rw [Emitter.materialize_eq]
    exact ⟨rfl, rfl, rfl⟩
  | ret => exact .of_opened .ret rfl rfl rfl
  | retValue _ heval => exact (heval.sameFrame.write _).frames .ret rfl
  | @startBlock b s s₁ hlabel hhoist =>
    obtain ⟨hopened, hlabels, hplan⟩ := hhoist.frame
    refine ⟨?_, ?_, hlabels, fun hother => hplan _ fun h => hother (by rw [h]; rfl)⟩
    · dsimp only
      rw [hopened]
      exact .startBlock
    · intro label hmem
      rw [← Option.some.inj hmem]
      exact hlabel
  | @finishBlock b open_ used rest s hopened hlabel =>
    have hclosed := SameFrame.closed s rest
    have hframe : SameFrame { s with opened := rest } (if used then
        (s.closed rest).write (.exitMark b.label) else s.closed rest) := by
      split
      · exact hclosed.write _
      · exact hclosed
    refine .of_opened ?_ rfl hframe.labels hframe.plan
    rw [hframe.opened, hopened]
    exact .finishBlock hlabel
  | @startIf id c s s₁ s₂ v _ heval hhoist =>
    obtain ⟨hopened, hlabels, hplan⟩ := hhoist.frame
    have hframe := heval.sameFrame
    refine ⟨?_, by simp [Event.label?], hlabels.trans hframe.labels, fun hother => ?_⟩
    · dsimp only
      rw [hopened, hframe.opened]
      exact .startIf
    · rw [← hframe.plan]
      exact hplan _ fun h => hother (by rw [h]; rfl)
  | @startElse id rest s hopened =>
    have hframe := SameFrame.closeScope { s with opened := .branch id true :: rest }
    refine .of_opened ?_ rfl hframe.labels hframe.plan
    rw [hopened]
    exact hframe.opened ▸ .startElse
  | @finishIf id inElse rest s hopened =>
    have hframe := SameFrame.closed s rest
    refine .of_opened ?_ rfl hframe.labels hframe.plan
    rw [hframe.opened, hopened]
    exact .finishIf
  | @startSwitch id c s s₁ s₂ v _ heval hhoist =>
    obtain ⟨hopened, hlabels, hplan⟩ := hhoist.frame
    have hframe := heval.sameFrame
    refine ⟨?_, by simp [Event.label?], hlabels.trans hframe.labels, fun hother => ?_⟩
    · dsimp only
      rw [hopened, hframe.opened]
      exact .startSwitch
    · rw [← hframe.plan]
      exact hplan _ fun h => hother (by rw [h]; rfl)
  | startCase hopened =>
    refine .of_opened ?_ rfl rfl rfl
    rw [hopened]
    exact .startCase
  | @finishCase id rest s hopened =>
    have hframe := SameFrame.closed (s.write .endCase) rest
    refine .of_opened ?_ rfl hframe.labels hframe.plan
    rw [hframe.opened, hopened]
    exact .finishCase
  | @finishSwitch id hasDefault rest s s₁ hopened hdefault =>
    subst hdefault
    refine .of_opened ?_ rfl ?_ ?_
    · rw [hopened]
      exact .finishSwitch
    all_goals cases hasDefault <;> rfl
  | leave _ hassign =>
    have hframe := hassign.sameFrame
    refine .of_opened ?_ rfl hframe.labels hframe.plan
    exact hframe.opened ▸ .leave
  | again _ _ hassign => exact (hassign.sameFrame.write _).frames .again rfl
  | edge hassign => exact hassign.sameFrame.frames .edge rfl

theorem map_isSwitch_markExit (label : String) (os : List Open) :
    (markExit label os).map Open.isSwitch = os.map Open.isSwitch := by
  induction os with
  | nil => rfl
  | cons o rest ih =>
    cases o with
    | block b used =>
      rw [markExit]
      split_ifs <;> simp [Open.isSwitch, ih]
    | _ => simp [markExit, Open.isSwitch, ih]

/-- The events still to come fit the constructs that are open. -/
theorem OpenedBy.nested {e : Event} {rest : List Event} {os os' : List Open}
    (h : OpenedBy e os os') (hnested : Nested (os.map Open.isSwitch) (e :: rest)) :
    Nested (os'.map Open.isSwitch) rest := by
  cases h with
  | leave =>
    rw [map_isSwitch_markExit]
    exact hnested.2
  | startElse => exact hnested.2
  | _ => exact hnested.2

theorem Reached.nested {done rest : List Event} (h : Reached cx done rest s) :
    Nested (s.opened.map Open.isSwitch) rest := by
  refine h.induct (motive := fun _ rest s => Nested (s.opened.map Open.isSwitch) rest) ?_ ?_
  · have hnil : Nested [] [] := trivial
    rw [Emitter.opened_start, ← List.append_nil (bodyEvents _)]
    exact nested_body (by simp) hnil _
  · intro done rest e s s' _ hevent hnested
    exact hevent.frames.opened.nested hnested

/-- No label was used twice so far. -/
theorem Reached.labels {done rest : List Event} (h : Reached cx done rest s) :
    s.labels = (done.filterMap Event.label?).reverse ∧ s.labels.Nodup := by
  refine h.induct (motive := fun done _ s =>
    s.labels = (done.filterMap Event.label?).reverse ∧ s.labels.Nodup) ?_ ?_
  · rw [Emitter.labels_start]
    exact ⟨rfl, List.nodup_nil⟩
  · rintro done rest e s s' _ hevent ⟨hlabels, hnodup⟩
    have hframes := hevent.frames
    rw [hframes.labels]
    cases he : e.label? with
    | none => simpa [he, hlabels] using hnodup
    | some label =>
      have hfresh := hframes.fresh label he
      refine ⟨by simp [he, hlabels], ?_⟩
      simpa using ⟨hfresh, hnodup⟩

end Source

end KernelForge
