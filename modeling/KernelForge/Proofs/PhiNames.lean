import KernelForge.Proofs.Freshness

/-!
# The temporaries of phis

Every phi has a temporary of its own, numbered by its position among the phis, from the start of a
function to its end. No other node is ever kept in one of these temporaries, and no scope that
closes takes the name of a phi with it (`PhisNamed`). This holds in every state of an emitter,
whatever events it was given (`Reachable.phisNamed`).
-/

namespace KernelForge

/-- Phis are different nodes. -/
theorem Graph.nodup_phis (g : Graph) : (g.phis.map Phi.id).Nodup := by
  rw [phis, List.map_filterMap]
  refine List.Nodup.filterMap (fun a b id ha hb => ?_) List.nodup_range
  have hself : ∀ {i id}, id ∈ (g.phi? i).map Phi.id → id = i := by
    intro i id hid
    unfold Graph.phi? at hid
    split at hid
    · simpa using hid.symm
    · cases hid
  exact (hself ha).symm.trans (hself hb)

end KernelForge

namespace KernelForge.Source

variable {cx : Context} {s s' : Emitter}

/-! ### The start -/

variable (cx) in
theorem value?_foldl_declarePhi {phis : List Phi} (hnodup : (phis.map Phi.id).Nodup) (s : Emitter) :
    (∀ id, id ∉ phis.map Phi.id → (phis.foldl (Emitter.declarePhi cx) s).value? id = s.value? id) ∧
    ∀ i phi, phis[i]? = some phi → (phis.foldl (Emitter.declarePhi cx) s).value? phi.id =
      some ⟨phi.ty, .temp ⟨.phi, s.counter + i⟩⟩ := by
  induction phis generalizing s with
  | nil => simp
  | cons first rest ih =>
    obtain ⟨hfirst, hrest⟩ := List.nodup_cons.1 hnodup
    obtain ⟨hothers, hphis⟩ := ih hrest (s.declarePhi cx first)
    refine ⟨fun id hid => ?_, fun i phi hi => ?_⟩
    · rw [List.map_cons, List.mem_cons, not_or] at hid
      rw [List.foldl_cons, hothers id hid.2, Emitter.declarePhi, Emitter.value?_bind,
        if_neg hid.1]
      rfl
    · cases i with
      | zero =>
        obtain rfl := Option.some.inj hi
        rw [List.foldl_cons, hothers _ hfirst, Emitter.declarePhi, Emitter.value?_bind, if_pos rfl]
        rfl
      | succ i =>
        rw [List.foldl_cons, hphis i phi hi]
        have hcounter : (s.declarePhi cx first).counter = s.counter + 1 := rfl
        rw [hcounter, Nat.add_assoc, Nat.add_comm 1 i]

/-- The phi at a position has the temporary of that number. Any other node with a name is kept in a
variable, and the names of phis belong to no scope. -/
structure PhisNamed (cx : Context) (s : Emitter) : Prop where
  phis : ∀ {i phi}, cx.graph.phis[i]? = some phi →
    s.value? phi.id = some ⟨phi.ty, .temp ⟨.phi, i⟩⟩
  others : ∀ {id v}, s.value? id = some v → id ∉ cx.graph.phis.map Phi.id →
    ∃ t, v.expr = .temp t ∧ t.kind = .var
  scopes : ∀ scope ∈ s.scopes, ∀ id ∈ scope, id ∉ cx.graph.phis.map Phi.id

namespace PhisNamed

theorem start : PhisNamed cx (Emitter.start cx) := by
  have hdeclared := value?_foldl_declarePhi cx cx.graph.nodup_phis {}
  refine ⟨fun {i phi} hi => ?_, fun {id v} hv hid => ?_, fun scope hscope id hid => ?_⟩
  · have hphi := hdeclared.2 i phi hi
    rwa [Nat.zero_add] at hphi
  · have hnone := hdeclared.1 id hid
    cases hnone.symm.trans hv
  · rw [Emitter.scopes_start, List.mem_singleton] at hscope
    rw [hscope] at hid
    cases hid

/-- A phi is never without a name. -/
theorem ne_none (h : PhisNamed cx s) {id : NodeId} (hid : id ∈ cx.graph.phis.map Phi.id) :
    s.value? id ≠ none := by
  obtain ⟨phi, hphi, rfl⟩ := List.mem_map.1 hid
  obtain ⟨i, hi⟩ := List.getElem?_of_mem hphi
  rw [h.phis hi]
  exact Option.some_ne_none _

/-- Nothing but scopes and names matters, and a scope may start. -/
theorem congr (h : PhisNamed cx s) (hvalue : ∀ id, s'.value? id = s.value? id)
    (hscopes : ∀ scope ∈ s'.scopes, scope ∈ s.scopes ∨ scope = []) : PhisNamed cx s' := by
  refine ⟨fun hi => (hvalue _).trans (h.phis hi), fun hv => h.others (hvalue _ ▸ hv),
    fun scope hscope id hid => ?_⟩
  obtain hscope | rfl := hscopes scope hscope
  · exact h.scopes scope hscope id hid
  · cases hid

theorem same (h : PhisNamed cx s) (hbound : s'.bound = s.bound) (hscopes : s'.scopes = s.scopes) :
    PhisNamed cx s' :=
  h.congr (fun id => by rw [Emitter.value?, Emitter.value?, hbound])
    fun scope hscope => .inl (hscopes ▸ hscope)

theorem write (h : PhisNamed cx s) (l : Line) : PhisNamed cx (s.write l) :=
  h.same rfl rfl

/-- A node without a name gets one. -/
theorem bind (h : PhisNamed cx s) {id : NodeId} {v : Value} {t : Temp} (hid : s.value? id = none)
    (hv : v.expr = .temp t) (ht : t.kind = .var)
    (hvalue : ∀ j, s'.value? j = if j = id then some v else s.value? j)
    (hscopes : ∀ scope ∈ s'.scopes, ∀ j ∈ scope, j = id ∨ ∃ scope' ∈ s.scopes, j ∈ scope') :
    PhisNamed cx s' := by
  have hnew : id ∉ cx.graph.phis.map Phi.id := fun hmem => h.ne_none hmem hid
  refine ⟨fun {i phi} hi => ?_, fun {j w} hw hj => ?_, fun scope hscope j hj => ?_⟩
  · have hne : phi.id ≠ id := fun heq =>
      hnew (heq ▸ List.mem_map_of_mem (List.mem_of_getElem? hi))
    rw [hvalue, if_neg hne, h.phis hi]
  · rw [hvalue] at hw
    split_ifs at hw with heq
    · exact ⟨t, Option.some.inj hw ▸ hv, ht⟩
    · exact h.others hw hj
  · obtain rfl | ⟨scope', hscope', hj⟩ := hscopes scope hscope j hj
    · exact hnew
    · exact h.scopes scope' hscope' j hj

theorem materialize (h : PhisNamed cx s) {id : NodeId} (hid : s.value? id = none) (ty : Ty)
    (e : Expr) (keep : Bool) : PhisNamed cx (s.materialize cx id ty e keep) := by
  refine h.bind hid rfl rfl (s.value?_materialize cx id ty e keep) fun scope hscope j hj => ?_
  rw [Emitter.materialize_eq] at hscope
  cases hs : s.scopes with
  | nil => cases keep <;> simp [hs] at hscope
  | cons inner outer =>
    cases keep with
    | true => exact .inr ⟨scope, hs ▸ (by simpa using hscope), hj⟩
    | false =>
      simp only [hs, Bool.false_eq_true, if_false, List.modifyHead_cons, List.mem_cons] at hscope
      obtain rfl | hscope := hscope
      · obtain hj | hj := List.mem_append.1 hj
        · exact .inr ⟨inner, by simp, hj⟩
        · exact .inl (List.mem_singleton.1 hj)
      · exact .inr ⟨scope, by simp [hscope], hj⟩

/-! ### Evaluation -/

theorem produced {id : NodeId} {node : Node} {args : List Value} {v : Value} (h : PhisNamed cx s)
    (hid : s.value? id = none) (hprod : Produced cx id node args s v s') : PhisNamed cx s' := by
  have hrender : PhisNamed cx (s.render id) := h.same rfl rfl
  cases hprod with
  | inline => exact hrender
  | kept => exact hrender.materialize hid _ _ _
  | array =>
    exact h.bind hid rfl rfl (Emitter.value?_bind _ _ · _)
      fun scope hscope j hj => .inr ⟨scope, hscope, hj⟩

theorem evaluates {ids : List NodeId} {vs : List Value} (h : PhisNamed cx s)
    (heval : Evaluates cx ids s vs s') : PhisNamed cx s' := by
  induction heval with
  | nil => exact h
  | known _ _ ih => exact ih h
  | render _ _ _ hv₁ hprod _ ihargs ihrest => exact ihrest ((ihargs h).produced hv₁ hprod)

theorem binds {unstable ids : List NodeId} (h : PhisNamed cx s)
    (hbinds : Binds cx unstable ids s s') : PhisNamed cx s' := by
  induction hbinds with
  | nil => exact h
  | known _ _ ih => exact ih h
  | now _ _ heval _ ih => exact ih (h.evaluates heval)
  | pin _ _ ih => exact ih (h.same rfl rfl)

theorem hoists {anchor : Anchor} (h : PhisNamed cx s) (hhoist : Hoists cx anchor s s') :
    PhisNamed cx s' := by
  cases hhoist with
  | nothing _ heq => exact heq ▸ h
  | planned _ hbinds =>
    have hplan : PhisNamed cx { s with plan := s.plan.without anchor } := h.same rfl rfl
    exact hplan.binds hbinds

theorem stage (h : PhisNamed cx s) (l : Line) : PhisNamed cx (s.countTemp.write l) :=
  h.same rfl rfl

theorem flowsIn {staged : Bool} {moves : List (NodeId × NodeId)}
    {assignments : List (NodeId × Expr)} (h : PhisNamed cx s)
    (hin : FlowsIn cx staged moves s assignments s') : PhisNamed cx s' := by
  induction hin with
  | nil => exact h
  | direct heval _ _ _ ih => exact ih (h.evaluates heval)
  | stage _ heval _ ih => exact ih ((h.evaluates heval).stage _)

theorem feeds {assignments : List (NodeId × Expr)} (h : PhisNamed cx s)
    (hfeeds : Feeds assignments s s') : PhisNamed cx s' := by
  induction hfeeds with
  | nil => exact h
  | cons _ _ ih => exact ih (h.write _)

theorem assigns {source : NodeId} (h : PhisNamed cx s) (hassign : Assigns cx source s s') :
    PhisNamed cx s' := by
  obtain ⟨_, hin, hfeed⟩ := hassign
  exact (h.flowsIn hin).feeds hfeed

/-! ### Events -/

theorem openScope (h : PhisNamed cx s) : PhisNamed cx s.openScope :=
  h.congr (fun _ => rfl) fun scope hscope => by
    obtain rfl | hscope := List.mem_cons.1 hscope
    · exact .inr rfl
    · exact .inl hscope

/-- No scope that closes holds a phi. -/
theorem closeScope (h : PhisNamed cx s) : PhisNamed cx s.closeScope := by
  cases hs : s.scopes with
  | nil =>
    refine h.same ?_ ?_ <;> simp [Emitter.closeScope, hs]
  | cons inner outer =>
    have hinner : ∀ id ∈ inner, id ∉ cx.graph.phis.map Phi.id := h.scopes inner (by simp [hs])
    refine ⟨fun {i phi} hi => ?_, fun hv => h.others (s.value?_of_closeScope hv), ?_⟩
    · have hphi : phi.id ∈ cx.graph.phis.map Phi.id :=
        List.mem_map_of_mem (List.mem_of_getElem? hi)
      rw [s.value?_closeScope hs, if_neg fun hmem => hinner _ hmem hphi, h.phis hi]
    · rw [s.closeScope_eq hs]
      exact fun scope hscope => h.scopes scope (hs ▸ List.mem_cons_of_mem _ hscope)

theorem closed (h : PhisNamed cx s) (rest : List Open) : PhisNamed cx (s.closed rest) := by
  have hopened : PhisNamed cx { s with opened := rest } := h.same rfl rfl
  exact hopened.closeScope.write _

theorem emitted {e : Event} (h : PhisNamed cx s) (he : Emitted cx e s s') : PhisNamed cx s' := by
  cases he with
  | effectKnown => exact h
  | effectVoid _ _ _ heval => exact (h.evaluates heval).write _
  | effectKept _ _ _ heval => exact h.evaluates heval
  | effectFresh _ _ _ heval hv₁ => exact (h.evaluates heval).materialize hv₁ _ _ _
  | ret => exact h.write _
  | retValue _ heval => exact (h.evaluates heval).write _
  | @startBlock b s s₁ _ hhoist =>
    have hlabels : PhisNamed cx { s with labels := b.label :: s.labels } := h.same rfl rfl
    exact ((hlabels.hoists hhoist).write (.openBlock b)).openScope.same rfl rfl
  | @finishBlock b _ used rest =>
    split
    · exact (h.closed rest).write _
    · exact h.closed rest
  | @startIf _ _ s s₁ s₂ v _ heval hhoist =>
    exact (((h.evaluates heval).hoists hhoist).write (.openIf v.expr)).openScope.same rfl rfl
  | @startElse id rest s _ =>
    have hopened : PhisNamed cx { s with opened := .branch id true :: rest } := h.same rfl rfl
    exact (hopened.closeScope.write .otherwise).openScope
  | finishIf => exact h.closed _
  | startSwitch _ heval hhoist => exact ((h.evaluates heval).hoists hhoist).same rfl rfl
  | @startCase _ key => exact (h.write (.openCase key)).openScope.same rfl rfl
  | finishCase => exact (h.write _).closed _
  | @finishSwitch id hasDefault rest s s₁ _ hdefault =>
    refine h.same ?_ ?_ <;> · rw [hdefault]; split <;> rfl
  | @leave _ label s _ _ hassign =>
    have hopened : PhisNamed cx { s with opened := markExit label s.opened } := h.same rfl rfl
    exact (hopened.assigns hassign).write _
  | again _ _ hassign => exact (h.assigns hassign).write _
  | edge hassign => exact h.assigns hassign

end PhisNamed

/-! ### Reachable states -/

/-- A state of the emitter of a function, whatever events it was given. A jump out of a block is
noted before the phis of its edge are assigned. -/
inductive Reachable (cx : Context) : Emitter → Prop
  | start : Reachable cx (Emitter.start cx)
  | event {e : Event} {s s' : Emitter} (h : Reachable cx s)
      (he : emitEvent cx e s = .ok () s') : Reachable cx s'
  | leaving {s : Emitter} (h : Reachable cx s) (label : String) :
      Reachable cx { s with opened := markExit label s.opened }

theorem Reachable.numbered (h : Reachable cx s) : Numbered cx s := by
  induction h with
  | start => exact .start
  | event _ he ih => exact ih.emitted (emitted_of_ok he)
  | leaving _ _ ih => exact ih.congr rfl rfl fun hv => hv

theorem Reachable.phisNamed (h : Reachable cx s) : PhisNamed cx s := by
  induction h with
  | start => exact .start
  | event _ he ih => exact ih.emitted (emitted_of_ok he)
  | leaving _ _ ih => exact ih.same rfl rfl

end KernelForge.Source
