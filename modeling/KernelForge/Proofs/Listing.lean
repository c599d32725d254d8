import KernelForge.Proofs.Levels
import KernelForge.Proofs.PhiNames
import KernelForge.Proofs.Scoping
import KernelForge.Proofs.Sharing

/-!
# Values listed in scopes

A value that has a name is listed in exactly one open scope if its name is to be forgotten with a
scope, and in none if the name stays (`Listed`): a phi, a side effect, or a value that was pinned
because it is planned for a construct. Only shared values are planned (`PlansShared`).
-/

namespace KernelForge.Source

variable {cx : Context} {s s' : Emitter}

/-! ### Scopes and names -/

/-- Whether the name of a value outlives the scope that it is written in: that of a phi, of a side
effect or of a pinned value. -/
def Emitter.outlives (cx : Context) (s : Emitter) (id : NodeId) : Bool :=
  (cx.graph.phis.map Phi.id).contains id || cx.isEffect id || s.pinned.contains id

/-- Whether a value has a name that is forgotten with a scope. -/
def Emitter.isScoped (cx : Context) (s : Emitter) (id : NodeId) : Bool :=
  s.isBound id && !s.outlives cx id

/-- A value is listed once in the open scopes if it has a name that is forgotten with a scope, and
not at all otherwise. Phis always have names, and only shared values are pinned. -/
structure Listed (cx : Context) (s : Emitter) : Prop where
  once : ∀ id, s.scopes.flatten.count id = if s.isScoped cx id then 1 else 0
  phis : ∀ id ∈ cx.graph.phis.map Phi.id, s.isBound id = true
  pinned : ∀ id ∈ s.pinned, cx.isShared id = true
  inScope : s.scopes ≠ []

namespace Listed

theorem isScoped_of_mem (h : Listed cx s) {id : NodeId} (hid : id ∈ s.scopes.flatten) :
    s.isScoped cx id = true := by
  by_contra hscoped
  have honce := h.once id
  rw [if_neg hscoped] at honce
  exact List.count_eq_zero.1 honce hid

theorem congr (h : Listed cx s) (hscopes : s'.scopes.flatten = s.scopes.flatten)
    (hvalue : ∀ id, s'.value? id = s.value? id) (hpinned : s'.pinned = s.pinned)
    (hne : s'.scopes ≠ []) : Listed cx s' := by
  have hbound : ∀ id, s'.isBound id = s.isBound id := fun id => by
    rw [Emitter.isBound, Emitter.isBound, hvalue]
  refine ⟨fun id => ?_, fun id hid => (hbound id).trans (h.phis id hid), hpinned ▸ h.pinned, hne⟩
  rw [hscopes, h.once, Emitter.isScoped, Emitter.isScoped, Emitter.outlives, Emitter.outlives,
    hbound, hpinned]

theorem sameMemory (h : Listed cx s) (hs : SameMemory s s') : Listed cx s' :=
  h.congr (by rw [hs.scopes]) hs.value? hs.pinned (hs.scopes ▸ h.inScope)

/-- A value without a name gets one, which belongs to the innermost scope unless it outlives it. -/
theorem name {id : NodeId} {v : Value} (h : Listed cx s) (hid : s.value? id = none)
    (hvalue : ∀ j, s'.value? j = if j = id then some v else s.value? j)
    (hpinned : s'.pinned = s.pinned) (hscopes : s'.scopes =
      if s.outlives cx id then s.scopes else s.scopes.modifyHead (· ++ [id])) : Listed cx s' := by
  have hnone : s.isBound id = false := s.not_isBound_iff.2 hid
  have hbound : ∀ j, s'.isBound j = (j == id || s.isBound j) := fun j => by
    rw [Emitter.isBound, hvalue]
    by_cases hj : j = id <;> simp [hj, Emitter.isBound]
  have houtlives : ∀ j, s'.outlives cx j = s.outlives cx j := fun j => by
    rw [Emitter.outlives, Emitter.outlives, hpinned]
  obtain ⟨inner, outer, hs⟩ := List.exists_cons_of_ne_nil h.inScope
  have hcount : ∀ j, s'.scopes.flatten.count j =
      s.scopes.flatten.count j + if j = id ∧ s.outlives cx id = false then 1 else 0 := by
    intro j
    rw [hscopes, hs]
    cases s.outlives cx id with
    | true => simp
    | false =>
      by_cases hj : j = id
      · simp [hj]
        omega
      · simp [hj, Ne.symm hj]
  refine ⟨fun j => ?_, fun j hj => ?_, hpinned ▸ h.pinned, ?_⟩
  · rw [hcount, h.once, Emitter.isScoped, Emitter.isScoped, hbound, houtlives]
    by_cases hj : j = id
    · subst hj
      cases hout : s.outlives cx j <;> simp [hnone]
    · simp [hj]
  · rw [hbound, h.phis j hj, Bool.or_true]
  · rw [hscopes, hs]
    split_ifs <;> simp

theorem materialize {id : NodeId} {ty : Ty} {e : Expr} {keep : Bool} (h : Listed cx s)
    (hid : s.value? id = none) (hkeep : keep = s.outlives cx id) :
    Listed cx (s.materialize cx id ty e keep) := by
  refine h.name hid (s.value?_materialize cx id ty e keep) ?_ ?_
  · rw [Emitter.materialize_eq]
  · rw [Emitter.materialize_eq, ← hkeep]

/-- A value without a name is no phi. -/
theorem notMem_phis (h : Listed cx s) {id : NodeId} (hid : s.value? id = none) :
    (cx.graph.phis.map Phi.id).contains id = false := by
  refine Bool.eq_false_iff.2 fun hmem => ?_
  have hbound := h.phis id (List.contains_iff_mem.1 hmem)
  rw [s.not_isBound_iff.2 hid] at hbound
  cases hbound

theorem produced {id : NodeId} {node : Node} {args : List Value} {v : Value} (h : Listed cx s)
    (hid : s.value? id = none) (hnode : cx.graph.get? id = some node)
    (hprod : Produced cx id node args s v s') : Listed cx s' := by
  have hrender : Listed cx (s.render id) := h.congr rfl (fun _ => rfl) rfl h.inScope
  have houtlives : s.outlives cx id = (node.hasSideEffects || s.pinned.contains id) := by
    rw [Emitter.outlives, h.notMem_phis hid, isEffect_of_get? hnode, Bool.false_or]
  cases hprod with
  | inline => exact hrender
  | kept => exact hrender.materialize hid houtlives.symm
  | array hkind =>
    have heffect : s.outlives cx id = true := by
      rw [houtlives, Node.hasSideEffects, hkind]
      rfl
    exact h.name hid (Emitter.value?_bind _ _ · _) rfl (by rw [if_pos heffect]; rfl)

theorem evaluates {ids : List NodeId} {vs : List Value} (h : Listed cx s)
    (heval : Evaluates cx ids s vs s') : Listed cx s' := by
  induction heval with
  | nil => exact h
  | known _ _ ih => exact ih h
  | render _ hnode _ hv₁ hprod _ ihargs ihrest =>
    exact ihrest ((ihargs h).produced hv₁ hnode hprod)

theorem pin {id : NodeId} (h : Listed cx s) (hid : s.value? id = none)
    (hshared : cx.isShared id = true) : Listed cx { s with pinned := id :: s.pinned } := by
  have hnone : s.isBound id = false := s.not_isBound_iff.2 hid
  refine ⟨fun j => ?_, h.phis, ?_, h.inScope⟩
  · have hscoped : Emitter.isScoped cx { s with pinned := id :: s.pinned } j =
        s.isScoped cx j := by
      by_cases hj : j = id
      · subst hj
        rw [Emitter.isScoped, Emitter.isScoped, hnone]
        rw [show Emitter.isBound { s with pinned := j :: s.pinned } j = false from hnone]
        rfl
      · have hcontains : (id :: s.pinned).contains j = s.pinned.contains j := by
          simp [hj]
        rw [Emitter.isScoped, Emitter.isScoped, Emitter.outlives, Emitter.outlives, hcontains]
        rfl
    rw [hscoped]
    exact h.once j
  · intro j hj
    rcases List.mem_cons.1 hj with rfl | hj
    · exact hshared
    · exact h.pinned j hj

theorem openScope (h : Listed cx s) : Listed cx s.openScope :=
  h.congr rfl (fun _ => rfl) rfl (List.cons_ne_nil _ _)

/-- A scope that ends takes the names listed in it along. -/
theorem closeScope {inner : List NodeId} {outer : List (List NodeId)} (h : Listed cx s)
    (hs : s.scopes = inner :: outer) (houter : outer ≠ []) : Listed cx s.closeScope := by
  have hbound : ∀ id, s.closeScope.isBound id = (!inner.contains id && s.isBound id) := by
    intro id
    rw [Emitter.isBound, s.value?_closeScope hs]
    by_cases hid : id ∈ inner <;> simp [hid, Emitter.isBound]
  have hscoped : ∀ id ∈ inner, s.isScoped cx id = true := fun id hid =>
    h.isScoped_of_mem (by rw [hs]; simp [hid])
  have hpinned : s.closeScope.pinned = s.pinned := by rw [s.closeScope_eq hs]
  have hscopes : s.closeScope.scopes = outer := by rw [s.closeScope_eq hs]
  refine ⟨fun id => ?_, fun id hid => ?_, hpinned ▸ h.pinned, hscopes ▸ houter⟩
  · have honce := h.once id
    rw [hs, List.flatten_cons, List.count_append] at honce
    have hnew : s.closeScope.isScoped cx id = (!inner.contains id && s.isScoped cx id) := by
      rw [Emitter.isScoped, Emitter.isScoped, hbound, Emitter.outlives, Emitter.outlives, hpinned,
        Bool.and_assoc]
    rw [hscopes, hnew]
    by_cases hid : id ∈ inner
    · have hpos := List.count_pos_iff.2 hid
      rw [hscoped id hid, if_pos rfl] at honce
      simp only [List.contains_iff_mem.2 hid, Bool.not_true, Bool.false_and]
      simp only [Bool.false_eq_true, if_false]
      omega
    · rw [List.count_eq_zero_of_not_mem hid, Nat.zero_add] at honce
      rw [honce]
      simp [hid]
  · have hnot : inner.contains id = false := by
      refine Bool.eq_false_iff.2 fun hmem => ?_
      have hsc := hscoped id (List.contains_iff_mem.1 hmem)
      rw [Emitter.isScoped, Emitter.outlives, List.contains_iff_mem.2 hid] at hsc
      simp at hsc
    rw [hbound, hnot, h.phis id hid]
    rfl

end Listed

theorem listed_start : Listed cx (Emitter.start cx) := by
  refine ⟨fun id => ?_, fun id hid => ?_, fun id hid => ?_, ?_⟩
  · rw [Emitter.scopes_start, if_neg]
    · rfl
    · intro hscoped
      rw [Emitter.isScoped, Bool.and_eq_true, Bool.not_eq_true'] at hscoped
      obtain ⟨v, hv⟩ := ((Emitter.start cx).isBound_iff).1 hscoped.1
      obtain ⟨phi, hphi, rfl, -⟩ := Emitter.value?_start hv
      have hphis : (cx.graph.phis.map Phi.id).contains phi.id = true :=
        List.contains_iff_mem.2 (List.mem_map_of_mem hphi)
      rw [Emitter.outlives, hphis] at hscoped
      simp at hscoped
  · have hne := PhisNamed.start.ne_none hid
    exact Option.isSome_iff_ne_none.2 hne
  · have hpinned : (Emitter.start cx).pinned = [] :=
      Emitter.declarePhis_induct (P := fun s => s.pinned = []) rfl fun _ h => h
    rw [hpinned] at hid
    cases hid
  · rw [Emitter.scopes_start]
    exact List.cons_ne_nil _ _

/-! ### Planned values -/

/-- Only shared values are planned for constructs. -/
def PlansShared (cx : Context) (s : Emitter) : Prop :=
  ∀ ⦃anchor hoist⦄, s.plan.hoist? anchor = some hoist → ∀ id ∈ hoist.nodes, cx.isShared id = true

theorem PlansShared.congr (h : PlansShared cx s) (hplan : s'.plan = s.plan) : PlansShared cx s' := by
  intro anchor hoist hfound
  rw [hplan] at hfound
  exact h hfound

theorem Survey.isShared_of_mem_hoisted {survey : Survey} {span : Span} {id : NodeId}
    (hleaves : ∀ uses ∈ survey.leafUses, ∀ id ∈ uses, cx.isShared id = true)
    (hid : id ∈ survey.hoisted span) : cx.isShared id = true := by
  have hused := List.mem_eraseDups.1 (List.mem_filter.1 hid).1
  obtain ⟨uses, huses, hid⟩ := List.mem_flatten.1 hused
  obtain ⟨arm, -, rfl⟩ := List.mem_map.1 huses
  obtain ⟨leaf, hleaf, hid⟩ := List.mem_flatMap.1 hid
  refine hleaves leaf.uses (List.mem_map_of_mem ?_) id hid
  exact List.mem_of_mem_take (List.mem_of_mem_drop hleaf)

theorem plansShared_start : PlansShared cx (Emitter.start cx) := by
  have hleaves : ∀ uses ∈ (Survey.ofBody cx.graph cx.isShared cx.method.body).leafUses,
      ∀ id ∈ uses, cx.isShared id = true := by
    intro uses huses id hid
    have hall := @Survey.leafUses_surveyed cx {} (bodyEvents cx.method.body)
    rw [Survey.ofBody, ← surveyed, hall] at huses
    obtain huses | huses := List.mem_append.1 huses
    · cases huses
    · obtain ⟨e, -, rfl⟩ := List.mem_map.1 huses
      exact (List.mem_filter.1 hid).2
  intro anchor hoist hfound
  have hplan : ∀ {anchor hoist},
      ((Survey.ofBody cx.graph cx.isShared cx.method.body).plan cx.graph).hoist? anchor =
        some hoist → ∀ id ∈ hoist.nodes, cx.isShared id = true := by
    rw [Survey.plan_eq]
    apply List.foldlRecOn (motive := fun plan : Plan => ∀ {anchor hoist},
      plan.hoist? anchor = some hoist → ∀ id ∈ hoist.nodes, cx.isShared id = true)
    · intro anchor hoist hfound
      cases hfound
    · intro plan hplan entry _ anchor hoist hfound id hid
      unfold Survey.enterSpan at hfound
      split_ifs at hfound
      · exact hplan hfound id hid
      · rw [Plan.hoist?_enter] at hfound
        split_ifs at hfound
        · obtain rfl := Option.some.inj hfound
          exact Survey.isShared_of_mem_hoisted hleaves hid
        · exact hplan hfound id hid
  exact hplan hfound

theorem Hoists.hoist?_of_some {anchor other : Anchor} {hoist : Hoist}
    (h : Hoists cx anchor s s') (hfound : s'.plan.hoist? other = some hoist) :
    s.plan.hoist? other = some hoist := by
  cases h with
  | nothing _ h => exact h ▸ hfound
  | planned _ h =>
    rw [h.sameFrame.plan, Plan.hoist?_without] at hfound
    split_ifs at hfound
    exact hfound

/-- Plans are only ever used up. -/
theorem Emitted.hoist?_of_some {e : Event} {anchor : Anchor} {hoist : Hoist}
    (h : Emitted cx e s s') (hfound : s'.plan.hoist? anchor = some hoist) :
    s.plan.hoist? anchor = some hoist := by
  have hothers : e.anchor? ≠ some anchor → s'.plan.hoist? anchor = s.plan.hoist? anchor :=
    h.frames.plan
  cases h with
  | startBlock _ hhoist => exact hhoist.hoist?_of_some hfound
  | startIf _ heval hhoist | startSwitch _ heval hhoist =>
    rw [← heval.extends.plan]
    exact hhoist.hoist?_of_some hfound
  | _ => exact (hothers (by simp [Event.anchor?])) ▸ hfound

end KernelForge.Source
