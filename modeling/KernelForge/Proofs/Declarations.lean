import KernelForge.Proofs.Replay

/-!
# Types of declarations

Every declaration at the top of a function spells its type by the metadata of the class, be it that
of a phi, of a kept value or of a private array (`Reached.spelt`). So what holds of the spelling of
every type holds of all declarations.
-/

namespace KernelForge.Source

/-- A declaration spells the type that it gives by the metadata. -/
def Declaration.SpeltBy (md : Metadata) : Declaration → Prop
  | .scalar type _ => ∃ ty, type = md.declaredType ty
  | .array element _ _ => ∃ ty, element = md.typeName ty

variable {cx : Context} {s s' : Emitter}

/-- All declarations at the top spell their types by the metadata of the class. -/
def Emitter.Spelt (cx : Context) (s : Emitter) : Prop :=
  ∀ d ∈ s.declarations, d.SpeltBy cx.metadata

namespace Emitter.Spelt

theorem of_eq (h : Spelt cx s) (hdeclarations : s'.declarations = s.declarations) :
    Spelt cx s' := by
  rw [Spelt, hdeclarations]
  exact h

theorem declare (h : Spelt cx s) {d : Declaration} (hd : d.SpeltBy cx.metadata) :
    Spelt cx (s.declare d) := by
  intro d' hd'
  obtain hd' | hd' := List.mem_append.1 hd'
  · exact h d' hd'
  · exact List.mem_singleton.1 hd' ▸ hd

theorem materialize (h : Spelt cx s) (id : NodeId) (ty : Ty) (e : Expr) (keep : Bool) :
    Spelt cx (s.materialize cx id ty e keep) := by
  rw [materialize_eq]
  cases s.isApart keep with
  | true => exact h.declare (d := .scalar _ _) ⟨ty, rfl⟩
  | false => exact h.of_eq (List.append_nil _)

theorem produced {id : NodeId} {node : Node} {args : List Value} {v : Value} (h : Spelt cx s)
    (hprod : Produced cx id node args s v s') : Spelt cx s' := by
  have hrender : Spelt cx (s.render id) := h
  cases hprod with
  | inline => exact hrender
  | kept => exact hrender.materialize id node.ty _ _
  | array _ _ hr =>
    refine h.declare (d := .array _ _ _) ?_
    unfold Context.privateArray at hr
    split at hr
    · cases hr
    · split_ifs at hr
      split at hr
      · split_ifs at hr
        obtain ⟨rfl, -⟩ := Context.Rendering.privateArray.inj (Except.ok.inj hr)
        exact ⟨_, rfl⟩
      · cases hr

theorem evaluates {ids : List NodeId} {vs : List Value} (h : Spelt cx s)
    (heval : Evaluates cx ids s vs s') : Spelt cx s' := by
  induction heval with
  | nil => exact h
  | known _ _ ih => exact ih h
  | render _ _ _ _ hprod _ ihargs ihrest => exact ihrest ((ihargs h).produced hprod)

theorem binds {unstable ids : List NodeId} (h : Spelt cx s)
    (hbinds : Binds cx unstable ids s s') : Spelt cx s' := by
  induction hbinds with
  | nil => exact h
  | known _ _ ih => exact ih h
  | now _ _ heval _ ih => exact ih (h.evaluates heval)
  | pin _ _ ih => exact ih h

theorem hoists {anchor : Anchor} (h : Spelt cx s) (hhoist : Hoists cx anchor s s') :
    Spelt cx s' := by
  cases hhoist with
  | nothing _ heq => exact heq ▸ h
  | planned _ hbinds =>
    have hplan : Spelt cx { s with plan := s.plan.without anchor } := h
    exact hplan.binds hbinds

theorem flowsIn {staged : Bool} {moves : List (NodeId × NodeId)}
    {assignments : List (NodeId × Expr)} (h : Spelt cx s)
    (hin : FlowsIn cx staged moves s assignments s') : Spelt cx s' := by
  induction hin with
  | nil => exact h
  | direct heval _ _ _ ih => exact ih (h.evaluates heval)
  | stage _ heval _ ih => exact ih ((h.evaluates heval).of_eq rfl)

theorem feeds {assignments : List (NodeId × Expr)} (h : Spelt cx s)
    (hfeeds : Feeds assignments s s') : Spelt cx s' := by
  induction hfeeds with
  | nil => exact h
  | cons _ _ ih => exact ih h

theorem assigns {source : NodeId} (h : Spelt cx s) (hassign : Assigns cx source s s') :
    Spelt cx s' := by
  obtain ⟨_, hin, hfeed⟩ := hassign
  exact (h.flowsIn hin).feeds hfeed

theorem closed (h : Spelt cx s) (rest : List Open) : Spelt cx (s.closed rest) :=
  h.of_eq (declarations_closeScope { s with opened := rest })

/-- Only values are declared: what an event writes itself leaves the declarations alone. -/
theorem emitted {e : Event} (h : Spelt cx s) (he : Emitted cx e s s') : Spelt cx s' := by
  cases he with
  | effectKnown | ret | startCase => exact h
  | effectKept _ _ _ heval => exact h.evaluates heval
  | effectVoid _ _ _ heval | retValue _ heval => exact (h.evaluates heval).of_eq rfl
  | effectFresh _ _ _ heval => exact (h.evaluates heval).materialize _ _ _ _
  | @startBlock b s _ _ hhoist =>
    have hlabels : Spelt cx { s with labels := b.label :: s.labels } := h
    exact (hlabels.hoists hhoist).of_eq rfl
  | startIf _ heval hhoist | startSwitch _ heval hhoist =>
    exact ((h.evaluates heval).hoists hhoist).of_eq rfl
  | startElse => exact h.of_eq (declarations_closeScope _)
  | @finishBlock _ _ _ rest =>
    split_ifs
    · exact h.closed rest
    · exact h.closed rest
  | @finishIf _ _ rest => exact h.closed rest
  | @finishCase _ rest s =>
    have hend : Spelt cx (s.write .endCase) := h
    exact hend.closed rest
  | finishSwitch _ hdefault =>
    rw [hdefault]
    split_ifs
    · exact h
    · exact h
  | @leave _ label s _ _ hassign =>
    have hmarked : Spelt cx { s with opened := markExit label s.opened } := h
    exact (hmarked.assigns hassign).of_eq rfl
  | again _ _ hassign => exact (h.assigns hassign).of_eq rfl
  | edge hassign => exact h.assigns hassign

/-- The phis are declared by their types. -/
theorem start : Spelt cx (Emitter.start cx) := by
  have hphis : Spelt cx (Emitter.declarePhis cx {}) := by
    apply declarePhis_induct (P := Spelt cx)
    · intro d hd
      cases hd
    · intro s phi _ h
      have hcounted : Spelt cx s.countTemp := h
      exact hcounted.declare (d := .scalar _ _) ⟨phi.ty, rfl⟩
  exact hphis

end Emitter.Spelt

theorem Reached.spelt {done rest : List Event} (h : Reached cx done rest s) : s.Spelt cx :=
  h.induct (motive := fun _ _ s => s.Spelt cx) .start fun _ he h => h.emitted he

end KernelForge.Source
