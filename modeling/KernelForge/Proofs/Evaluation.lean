import KernelForge.Proofs.Frames

/-!
# Evaluation as a relation

`Evaluates` says what evaluating a list of nodes does: a node with a name is looked up, any other node
is rendered after its operands. An evaluation that succeeds is such a derivation (`evaluates_of_ok`),
one that fails has evaluated some nodes and done nothing else (`evaluates_of_error`), and everything
about evaluation is proved by induction on the relation.

A node cannot come up again while its own operands are evaluated (`Evaluates.unbound`): the loop would
not have ended.
-/

namespace KernelForge.Source

open Relation

variable {cx : Context}

/-- Whether a node is kept in a temporary when it is rendered. -/
def Context.isKept (cx : Context) (id : NodeId) (node : Node) : Bool :=
  !node.ty.isVoid &&
    (node.hasSideEffects || (decide (1 < cx.graph.useCount id) && !cx.isTrivial node))

/-- What rendering a node that has no name yet can do. -/
inductive Produced (cx : Context) (id : NodeId) (node : Node) (args : List Value) (s : Emitter) :
    Value → Emitter → Prop
  | inline {e : Expr} (he : cx.express id node (args.map Value.expr) = .ok e)
      (hk : cx.isKept id node = false) : Produced cx id node args s ⟨node.ty, e⟩ (s.render id)
  | kept {e : Expr} (he : cx.express id node (args.map Value.expr) = .ok e)
      (hk : cx.isKept id node = true) :
      Produced cx id node args s ⟨node.ty, .temp (s.nextTemp .var)⟩
        ((s.render id).materialize cx id node.ty e
          (node.hasSideEffects || s.pinned.contains id))
  | array {element : String} {length : Int32} (hkind : node.kind = .newArray)
      (hk : cx.isKept id node = true)
      (hr : cx.privateArray node = .ok (.privateArray element length)) :
      Produced cx id node args s ⟨node.ty, .temp (s.nextTemp .var)⟩
        (((s.render id).countTemp.declare (.array element (s.nextTemp .var) length)).bind id
          ⟨node.ty, .temp (s.nextTemp .var)⟩)

/-- Settling an expression always succeeds. -/
theorem exists_settle (id : NodeId) (node : Node) (e : Expr) (s : Emitter) :
    ∃ v s', settle cx id node e s = .ok v s' := by
  rw [settle, Emit.bind_of_ok (Emit.get_eq s)]
  cases s.value? id with
  | some v => exact ⟨_, _, rfl⟩
  | none =>
    dsimp only
    split_ifs
    · exact ⟨_, _, rfl⟩
    · exact ⟨_, _, rfl⟩
    · exact ⟨_, _, rfl⟩

/-- A node that cannot be rendered is found out before anything is written, and nothing else fails. -/
theorem error_of_produce {id : NodeId} {node : Node} {args : List Value} {s s' : Emitter} {e : Error}
    (h : produce cx id node args s = .error e s') :
    cx.rendering id node (args.map Value.expr) = .error e ∧ s = s' := by
  cases hr : cx.rendering id node (args.map Value.expr) with
  | error e' =>
    have herror : produce cx id node args s = .error e' s := by
      simp only [produce, hr]
      rfl
    rw [herror] at h
    cases h
    exact ⟨rfl, rfl⟩
  | ok rendering =>
    have hok : ∃ v s', produce cx id node args s = .ok v s' := by
      simp only [produce, Emit.bind_ok, Emit.lift_ok, Emit.modify_ok]
      cases rendering with
      | expr e' =>
        obtain ⟨v, s', hsettle⟩ := exists_settle id node e' (s.render id)
        exact ⟨v, s', _, s, ⟨hr, rfl⟩, (), _, rfl, hsettle⟩
      | privateArray element length => exact ⟨_, _, _, s, ⟨hr, rfl⟩, (), _, rfl, rfl⟩
    obtain ⟨v, s', hok⟩ := hok
    cases hok.symm.trans h

theorem produced_of_settle {id : NodeId} {node : Node} {args : List Value} {s s' : Emitter}
    {e : Expr} {v : Value} (hv : s.value? id = none)
    (he : cx.express id node (args.map Value.expr) = .ok e)
    (h : settle cx id node e (s.render id) = .ok v s') : Produced cx id node args s v s' := by
  simp only [settle, Emit.bind_ok, Emit.get_ok] at h
  obtain ⟨_, _, ⟨rfl, rfl⟩, h⟩ := h
  rw [Emitter.value?_render, hv] at h
  split_ifs at h with hvoid hkeep
  · obtain ⟨rfl, rfl⟩ := Emit.pure_ok.1 h
    exact .inline he (by simp [Context.isKept, hvoid])
  · simp only [Emit.bind_ok, Emit.set_ok, Emit.pure_ok] at h
    obtain ⟨_, _, rfl, hval, rfl⟩ := h
    simp only [Emitter.value?_materialize, if_true, Option.getD_some] at hval
    subst hval
    exact .kept he (by simp [Context.isKept, hvoid, hkeep])
  · obtain ⟨rfl, rfl⟩ := Emit.pure_ok.1 h
    exact .inline he (by simp [Context.isKept, hkeep])

/-- Rendering does one of three things to a node without a name. -/
theorem produced_of_ok {id : NodeId} {node : Node} {args : List Value} {s s' : Emitter} {v : Value}
    (hv : s.value? id = none) (h : produce cx id node args s = .ok v s') :
    Produced cx id node args s v s' := by
  simp only [produce, Emit.bind_ok, Emit.lift_ok, Emit.modify_ok] at h
  obtain ⟨rendering, _, ⟨hr, rfl⟩, _, _, rfl, h⟩ := h
  by_cases hkind : node.kind = .newArray
  · -- an array has an array type, so it is not void, and allocation is a side effect
    rw [Context.rendering, hkind] at hr
    obtain ⟨element, hty⟩ : ∃ element, node.ty.element? = some element := by
      cases ht : node.ty.element? with
      | none => simp [Context.privateArray, ht] at hr
      | some element => exact ⟨element, rfl⟩
    have hk : cx.isKept id node = true := by
      have hvoid : node.ty.isVoid = false := by
        cases hn : node.ty <;> simp_all [Ty.element?, Ty.isVoid]
      simp [Context.isKept, hvoid, Node.hasSideEffects, NodeKind.hasSideEffects, hkind]
    obtain ⟨text, length, rfl⟩ : ∃ text length, rendering = .privateArray text length := by
      simp only [Context.privateArray, hty] at hr
      split_ifs at hr
      split at hr
      · split_ifs at hr
        exact ⟨_, _, (Except.ok.inj hr).symm⟩
      · cases hr
    simp only [Emit.bind_ok, Emit.get_ok, Emit.set_ok, Emit.pure_ok] at h
    obtain ⟨_, _, ⟨rfl, rfl⟩, _, _, rfl, rfl, rfl⟩ := h
    exact .array hkind hk hr
  · have hexpress : (cx.express id node (args.map Value.expr)).map .expr = .ok rendering := by
      rw [Context.rendering] at hr
      split at hr
      · contradiction
      · exact hr
    cases he : cx.express id node (args.map Value.expr) with
    | error err => rw [he] at hexpress; cases hexpress
    | ok e =>
      rw [he] at hexpress
      obtain rfl := Except.ok.inj hexpress
      exact produced_of_settle hv he h

section Produced

variable {id : NodeId} {node : Node} {args : List Value} {s s' : Emitter} {v : Value}

/-- A kept node has a name afterwards, any other node has none. -/
theorem Produced.value? (h : Produced cx id node args s v s') (j : NodeId) :
    s'.value? j = if j = id ∧ cx.isKept id node then some v else s.value? j := by
  cases h with
  | inline he hk => simp [hk]
  | kept he hk => simp [hk]
  | array hkind hk =>
    simp only [hk, and_true, Emitter.value?_bind]
    rfl

/-- What has no name afterwards had none before. -/
theorem Produced.value?_none (h : Produced cx id node args s v s') (hid : s.value? id = none)
    {j : NodeId} (hj : s'.value? j = none) : s.value? j = none := by
  by_cases hji : j = id
  · exact hji ▸ hid
  · rwa [h.value?, if_neg (by simp [hji])] at hj

theorem Produced.rendered (h : Produced cx id node args s v s') :
    s'.rendered = s.rendered ++ [id] := by
  cases h with
  | inline => rfl
  | kept => simp [Emitter.materialize_eq, Emitter.render]
  | array => rfl

end Produced

/-! ### The relation -/

/-- Evaluating the nodes of a list from left to right gives their values. -/
inductive Evaluates (cx : Context) : List NodeId → Emitter → List Value → Emitter → Prop
  | nil (s : Emitter) : Evaluates cx [] s [] s
  | known {id : NodeId} {rest : List NodeId} {s s' : Emitter} {v : Value} {vs : List Value}
      (hv : s.value? id = some v) (hrest : Evaluates cx rest s vs s') :
      Evaluates cx (id :: rest) s (v :: vs) s'
  | render {id : NodeId} {node : Node} {rest : List NodeId} {s s₁ s₂ s' : Emitter}
      {args : List Value} {v : Value} {vs : List Value} (hv : s.value? id = none)
      (hnode : cx.graph.get? id = some node) (hargs : Evaluates cx (cx.evaluated node) s args s₁)
      (hv₁ : s₁.value? id = none) (hprod : Produced cx id node args s₁ v s₂)
      (hrest : Evaluates cx rest s₂ vs s') : Evaluates cx (id :: rest) s (v :: vs) s'

/-- Evaluating `a` asks for the value of its operand `b`, since `a` has no name yet. -/
def Demands (cx : Context) (s : Emitter) (a b : NodeId) : Prop :=
  s.value? a = none ∧ ∃ node, cx.graph.get? a = some node ∧ b ∈ cx.evaluated node

namespace Evaluates

variable {ids : List NodeId} {s s' : Emitter} {vs : List Value}

theorem length_eq (h : Evaluates cx ids s vs s') : vs.length = ids.length := by
  induction h with
  | nil => rfl
  | known _ _ ih => simp [ih]
  | render _ _ _ _ _ _ _ ih => simp [ih]

/-- Names are kept. -/
theorem value?_of_some (h : Evaluates cx ids s vs s') {j : NodeId} {v : Value}
    (hj : s.value? j = some v) : s'.value? j = some v := by
  induction h with
  | nil => exact hj
  | known _ _ ih => exact ih hj
  | render hv hnode hargs hv₁ hprod hrest ihargs ihrest =>
    apply ihrest
    have hj₁ := ihargs hj
    rw [hprod.value?, if_neg, hj₁]
    rintro ⟨rfl, _⟩
    rw [hv₁] at hj₁
    cases hj₁

theorem value?_none (h : Evaluates cx ids s vs s') {j : NodeId} (hj : s'.value? j = none) :
    s.value? j = none := by
  cases hs : s.value? j with
  | none => rfl
  | some v => rw [h.value?_of_some hs] at hj; cases hj

/-- Whatever gets a name was asked for. -/
theorem reaches_of_bound (h : Evaluates cx ids s vs s') {j : NodeId} (hj : s.value? j = none)
    {v : Value} (hv : s'.value? j = some v) :
    ∃ id ∈ ids, ReflTransGen (Demands cx s) id j := by
  induction h generalizing v with
  | nil => rw [hj] at hv; cases hv
  | known _ _ ih =>
    obtain ⟨id, hid, hr⟩ := ih hj hv
    exact ⟨id, List.mem_cons_of_mem _ hid, hr⟩
  | @render id node rest s s₁ s₂ s' args w ws hid hnode hargs hv₁ hprod hrest ihargs ihrest =>
    cases hj₁ : s₁.value? j with
    | some u =>
      obtain ⟨o, ho, hr⟩ := ihargs hj hj₁
      exact ⟨id, List.mem_cons_self, .head ⟨hid, node, hnode, ho⟩ hr⟩
    | none =>
      by_cases hji : j = id
      · exact ⟨id, List.mem_cons_self, hji ▸ .refl⟩
      · have hj₂ : s₂.value? j = none := by rw [hprod.value?, if_neg (by simp [hji]), hj₁]
        obtain ⟨o, ho, hr⟩ := ihrest hj₂ hv
        have hmono : Demands cx s₂ ≤ Demands cx s := fun a b hd =>
          ⟨hargs.value?_none (hprod.value?_none hv₁ hd.1), hd.2⟩
        exact ⟨o, List.mem_cons_of_mem _ ho, ReflTransGen.mono hmono o j hr⟩

/-- A chain of demands that ends from one state on ends from an earlier one. -/
theorem acc_of_acc {s₂ : Emitter} (hmono : ∀ a b, s₂.value? a = none → Demands cx s a b →
    Demands cx s₂ a b) (hb : ∀ j v, s₂.value? j = some v → Acc (flip (Demands cx s)) j)
    {j : NodeId} (h : Acc (flip (Demands cx s₂)) j) : Acc (flip (Demands cx s)) j := by
  induction h with
  | intro j _ ih =>
    cases hj : s₂.value? j with
    | some v => exact hb j v hj
    | none => exact .intro _ fun b hd => ih b (hmono j b hj hd)

theorem acc_of_known {j : NodeId} {v : Value} (h : s.value? j = some v) :
    Acc (flip (Demands cx s)) j := by
  refine .intro _ fun b hd => ?_
  have := hd.1
  rw [h] at this
  cases this

/-- The demands of what was evaluated come to an end. -/
theorem acc (h : Evaluates cx ids s vs s') :
    (∀ id ∈ ids, Acc (flip (Demands cx s)) id) ∧
      ∀ j v, s'.value? j = some v → Acc (flip (Demands cx s)) j := by
  induction h with
  | nil s => exact ⟨by simp, fun j v hj => acc_of_known hj⟩
  | known hv _ ih =>
    refine ⟨fun id hid => ?_, ih.2⟩
    rcases List.mem_cons.1 hid with rfl | hid
    · exact acc_of_known hv
    · exact ih.1 id hid
  | @render id node rest s s₁ s₂ s' args w ws hid hnode hargs hv₁ hprod hrest ihargs ihrest =>
    have hself : Acc (flip (Demands cx s)) id := by
      refine .intro _ fun b hd => ?_
      obtain ⟨_, node', hnode', hb⟩ := hd
      rw [hnode] at hnode'
      cases hnode'
      exact ihargs.1 b hb
    have hbound : ∀ j v, s₂.value? j = some v → Acc (flip (Demands cx s)) j := by
      intro j v hj
      by_cases hji : j = id
      · exact hji ▸ hself
      · rw [hprod.value?, if_neg (by simp [hji])] at hj
        exact ihargs.2 j v hj
    have hmono : ∀ a b, s₂.value? a = none → Demands cx s a b → Demands cx s₂ a b :=
      fun a b ha hd => ⟨ha, hd.2⟩
    refine ⟨fun j hj => ?_, fun j v hj => acc_of_acc hmono hbound (ihrest.2 j v hj)⟩
    rcases List.mem_cons.1 hj with rfl | hj
    · exact hself
    · exact acc_of_acc hmono hbound (ihrest.1 j hj)

end Evaluates

theorem not_transGen_of_acc {r : NodeId → NodeId → Prop} {a : NodeId} (h : Acc (flip r) a) :
    ¬ TransGen r a a := by
  induction h with
  | intro a _ ih =>
    intro hcycle
    obtain ⟨b, hab, hba⟩ := TransGen.head'_iff.1 hcycle
    exact ih b hab (TransGen.trans_right hba (.single hab))

/-- A node without a name gets none while its operands are evaluated. -/
theorem Evaluates.unbound {id : NodeId} {node : Node} {s s₁ : Emitter} {args : List Value}
    (hv : s.value? id = none) (hnode : cx.graph.get? id = some node)
    (hargs : Evaluates cx (cx.evaluated node) s args s₁) : s₁.value? id = none := by
  cases hv₁ : s₁.value? id with
  | none => rfl
  | some v =>
    obtain ⟨o, ho, hr⟩ := hargs.reaches_of_bound hv hv₁
    have hdemand : Demands cx s id o := ⟨hv, node, hnode, ho⟩
    exact absurd (TransGen.head' hdemand hr) (not_transGen_of_acc (hargs.acc.2 id v hv₁))

/-! ### What evaluation leaves alone -/

/-- A line that keeps the value of a node. -/
def Line.isKeep : Line → Bool
  | .define _ _ _ _ | .store _ _ _ => true
  | _ => false

/-- Whether a node of the graph has to run exactly once. -/
def Context.isEffect (cx : Context) (id : NodeId) : Bool :=
  (cx.graph.get? id).any Node.hasSideEffects

theorem isEffect_of_get? {id : NodeId} {node : Node} (h : cx.graph.get? id = some node) :
    cx.isEffect id = node.hasSideEffects := by
  simp [Context.isEffect, h]

theorem isEffect_of_mem_phis {phi : Phi} (h : phi ∈ cx.graph.phis) :
    cx.isEffect phi.id = false := by
  rw [isEffect_of_get? (get?_of_mem_phis h)]
  rfl

/-- Whether a node of the graph has no value. -/
def Context.isVoid (cx : Context) (id : NodeId) : Bool :=
  (cx.graph.get? id).any (·.ty.isVoid)

/-- A pure value that gets its name between two states and belongs to the scope where it is
rendered. -/
structure Local (cx : Context) (s s' : Emitter) (id : NodeId) : Prop where
  unbound : s.value? id = none
  bound : ∃ v, s'.value? id = some v
  unpinned : id ∉ s.pinned
  pure : cx.isEffect id = false

/-- Between two states only values were kept: the constructs, labels and plans are the same, nothing
loses its name, and the innermost scope may have grown. -/
structure Extends (cx : Context) (s s' : Emitter) : Prop where
  indent : s'.indent = s.indent
  plan : s'.plan = s.plan
  pinned : s'.pinned = s.pinned
  opened : s'.opened = s.opened
  labels : s'.labels = s.labels
  names : ∀ {id v}, s.value? id = some v → s'.value? id = some v
  scopes : ∃ new, s'.scopes = s.scopes.modifyHead (· ++ new) ∧ ∀ id ∈ new, Local cx s s' id
  lines : ∃ new, s'.lines = s.lines ++ new ∧ ∀ l ∈ new, l.isKeep

theorem Extends.refl (s : Emitter) : Extends cx s s :=
  ⟨rfl, rfl, rfl, rfl, rfl, id, ⟨[], by cases s.scopes <;> simp⟩, ⟨[], by simp⟩⟩

/-- What has no name afterwards had none before. -/
theorem Extends.value?_none {s s' : Emitter} (h : Extends cx s s') {id : NodeId}
    (hid : s'.value? id = none) : s.value? id = none := by
  cases hs : s.value? id with
  | none => rfl
  | some v => rw [h.names hs] at hid; cases hid

theorem Extends.trans {s₁ s₂ s₃ : Emitter} (h₁ : Extends cx s₁ s₂) (h₂ : Extends cx s₂ s₃) :
    Extends cx s₁ s₃ := by
  obtain ⟨scope₁, hscope₁, hlocal₁⟩ := h₁.scopes
  obtain ⟨scope₂, hscope₂, hlocal₂⟩ := h₂.scopes
  obtain ⟨lines₁, hlines₁, hkeep₁⟩ := h₁.lines
  obtain ⟨lines₂, hlines₂, hkeep₂⟩ := h₂.lines
  refine ⟨h₂.indent.trans h₁.indent, h₂.plan.trans h₁.plan, h₂.pinned.trans h₁.pinned,
    h₂.opened.trans h₁.opened, h₂.labels.trans h₁.labels, fun h => h₂.names (h₁.names h),
    ⟨scope₁ ++ scope₂, ?_, ?_⟩, ⟨lines₁ ++ lines₂, by simp [hlines₁, hlines₂], ?_⟩⟩
  · rw [hscope₂, hscope₁]
    cases s₁.scopes <;> simp
  · intro id hid
    rcases List.mem_append.1 hid with hid | hid
    · have hlocal := hlocal₁ id hid
      obtain ⟨v, hv⟩ := hlocal.bound
      exact ⟨hlocal.unbound, ⟨v, h₂.names hv⟩, hlocal.unpinned, hlocal.pure⟩
    · have hlocal := hlocal₂ id hid
      exact ⟨h₁.value?_none hlocal.unbound, hlocal.bound, h₁.pinned ▸ hlocal.unpinned,
        hlocal.pure⟩
  · intro l hl
    rcases List.mem_append.1 hl with hl | hl
    · exact hkeep₁ l hl
    · exact hkeep₂ l hl

theorem Emitter.isKeep_keepLine (s : Emitter) (id : NodeId) (ty : Ty) (e : Expr) (keep : Bool) :
    (s.keepLine cx id ty e keep).isKeep = true := by
  unfold keepLine
  split <;> rfl

theorem Emitter.extends_materialize {s : Emitter} {id : NodeId} (hid : s.value? id = none)
    (ty : Ty) (e : Expr) {keep : Bool}
    (hlocal : keep = false → id ∉ s.pinned ∧ cx.isEffect id = false) :
    Extends cx s (s.materialize cx id ty e keep) := by
  refine ⟨?_, ?_, ?_, ?_, ?_, ?_, ⟨if keep then [] else [id], ?_, ?_⟩,
    ⟨[s.keepLine cx id ty e keep], ?_⟩⟩
  case refine_6 =>
    intro j v hj
    rw [value?_materialize, if_neg, hj]
    rintro rfl
    rw [hid] at hj
    cases hj
  case refine_7 =>
    rw [materialize_eq]
    cases keep <;> cases s.scopes <;> simp
  case refine_8 =>
    intro j hj
    cases keep with
    | true => cases hj
    | false =>
      obtain rfl := List.mem_singleton.1 hj
      obtain ⟨hunpinned, hpure⟩ := hlocal rfl
      exact ⟨hid, ⟨_, by rw [value?_materialize, if_pos rfl]⟩, hunpinned, hpure⟩
  case refine_9 => simp [isKeep_keepLine]
  all_goals rw [materialize_eq]

theorem Produced.extends {id : NodeId} {node : Node} {args : List Value} {s s' : Emitter}
    {v : Value} (h : Produced cx id node args s v s') (hnode : cx.graph.get? id = some node)
    (hid : s.value? id = none) : Extends cx s s' := by
  have hscopes : ∀ s' : Emitter, s'.scopes = s.scopes → ∃ new,
      s'.scopes = s.scopes.modifyHead (· ++ new) ∧ ∀ id ∈ new, Local cx s s' id := by
    intro s' hs'
    exact ⟨[], by rw [hs']; cases s.scopes <;> simp, by simp⟩
  have hrender : Extends cx s (s.render id) :=
    ⟨rfl, rfl, rfl, rfl, rfl, fun h => h, hscopes _ rfl, ⟨[], by simp⟩⟩
  cases h with
  | inline => exact hrender
  | kept =>
    have hid' : (s.render id).value? id = none := hid
    refine hrender.trans (Emitter.extends_materialize hid' _ _ fun hkeep => ⟨?_, ?_⟩)
    · have hpinned := (Bool.or_eq_false_iff.1 hkeep).2
      exact fun hmem => by simp_all [Emitter.render]
    · rw [isEffect_of_get? hnode]
      exact (Bool.or_eq_false_iff.1 hkeep).1
  | array =>
    refine ⟨rfl, rfl, rfl, rfl, rfl, ?_, hscopes _ rfl, hrender.lines⟩
    intro j w hj
    rw [Emitter.value?_bind, if_neg]
    · exact hj
    · rintro rfl
      rw [hid] at hj
      cases hj

theorem Evaluates.extends {ids : List NodeId} {s s' : Emitter} {vs : List Value}
    (h : Evaluates cx ids s vs s') : Extends cx s s' := by
  induction h with
  | nil s => exact .refl s
  | known _ _ ih => exact ih
  | render _ hnode _ hv₁ hprod _ ihargs ihrest =>
    exact (ihargs.trans (hprod.extends hnode hv₁)).trans ihrest

/-! ### What evaluation renders -/

/-- Whether a node of the graph is kept in a temporary when it is rendered. -/
def Context.keeps (cx : Context) (id : NodeId) : Bool :=
  (cx.graph.get? id).any (cx.isKept id)

theorem keeps_iff_of_isEffect {id : NodeId} (hid : cx.isEffect id) :
    cx.keeps id ↔ cx.isVoid id = false := by
  simp only [Context.isEffect, Context.keeps, Context.isVoid] at hid ⊢
  cases hnode : cx.graph.get? id with
  | none => simp [hnode] at hid
  | some node =>
    rw [hnode, Option.any_some] at hid
    simp [Context.isKept, hid]

/-- The nodes that an evaluation renders were asked for and had no name. A node that is kept is
rendered once and has a name afterwards. -/
structure Renders (cx : Context) (ids : List NodeId) (s s' : Emitter) (new : List NodeId) :
    Prop where
  rendered : s'.rendered = s.rendered ++ new
  unbound : ∀ m ∈ new, s.value? m = none
  demanded : ∀ m ∈ new, ∃ id ∈ ids, ReflTransGen (Demands cx s) id m
  once : ∀ m, cx.keeps m → new.count m ≤ 1
  bound : ∀ m ∈ new, cx.keeps m → ∃ v, s'.value? m = some v
  fresh : ∀ m v, s.value? m = none → s'.value? m = some v → m ∈ new ∧ cx.keeps m

/-- A node occurs at most once in three parts if it occurs at most once in each, and not in two. -/
theorem count_parts_le {m id : NodeId} {before after : List NodeId} (hbefore : before.count m ≤ 1)
    (hafter : after.count m ≤ 1) (hid : m = id → m ∉ before ∧ m ∉ after)
    (hdisjoint : m ∈ before → m ∉ after) : (before ++ [id] ++ after).count m ≤ 1 := by
  rw [List.count_append, List.count_append]
  by_cases hm : m = id
  · obtain ⟨hnotBefore, hnotAfter⟩ := hid hm
    rw [List.count_eq_zero_of_not_mem hnotBefore, List.count_eq_zero_of_not_mem hnotAfter, hm]
    simp
  · have hsingle : [id].count m = 0 := List.count_eq_zero_of_not_mem (by simpa using hm)
    by_cases hin : m ∈ before
    · have hzero := List.count_eq_zero_of_not_mem (hdisjoint hin)
      omega
    · have hzero := List.count_eq_zero_of_not_mem hin
      omega

namespace Renders

theorem nil (s : Emitter) : Renders cx [] s s [] where
  rendered := (List.append_nil _).symm
  unbound m hm := by cases hm
  demanded m hm := by cases hm
  once m _ := Nat.zero_le 1
  bound m hm := by cases hm
  fresh m v hm hv := by
    rw [hm] at hv
    cases hv

/-- A node that has a name is not rendered. -/
theorem known {id : NodeId} {ids new : List NodeId} {s s' : Emitter} (h : Renders cx ids s s' new) :
    Renders cx (id :: ids) s s' new where
  rendered := h.rendered
  unbound := h.unbound
  demanded m hm := by
    obtain ⟨o, ho, hr⟩ := h.demanded m hm
    exact ⟨o, List.mem_cons_of_mem _ ho, hr⟩
  once := h.once
  bound := h.bound
  fresh := h.fresh

section render

variable {id : NodeId} {ids : List NodeId} {node : Node} {s s₁ s₂ s' : Emitter} {args ws : List Value}
  {w : Value} {new₁ new₂ : List NodeId}

/-- What was kept among the operands of a node still has its name when the node is rendered. -/
theorem bound_after (h : Renders cx (cx.evaluated node) s s₁ new₁) (hv₁ : s₁.value? id = none)
    (hprod : Produced cx id node args s₁ w s₂) {m : NodeId} (hm : m ∈ new₁) (hk : cx.keeps m) :
    m ≠ id ∧ ∃ v, s₂.value? m = some v := by
  obtain ⟨v, hv⟩ := h.bound m hm hk
  have hne : m ≠ id := by
    rintro rfl
    rw [hv₁] at hv
    cases hv
  rw [hprod.value?, if_neg fun hsame => hne hsame.1]
  exact ⟨hne, v, hv⟩

/-- A node is rendered after its operands, and before the other nodes. -/
theorem render (hid : s.value? id = none) (hnode : cx.graph.get? id = some node)
    (hargs : Evaluates cx (cx.evaluated node) s args s₁) (hv₁ : s₁.value? id = none)
    (hprod : Produced cx id node args s₁ w s₂) (hrest : Evaluates cx ids s₂ ws s')
    (h₁ : Renders cx (cx.evaluated node) s s₁ new₁) (h₂ : Renders cx ids s₂ s' new₂) :
    Renders cx (id :: ids) s s' (new₁ ++ [id] ++ new₂) := by
  have hback : ∀ {j}, s₂.value? j = none → s.value? j = none := fun hj =>
    hargs.value?_none (hprod.value?_none hv₁ hj)
  have hkept : ∀ {m}, m = id → cx.keeps m → s₂.value? m = some w := by
    rintro m rfl hm
    rw [Context.keeps, hnode, Option.any_some] at hm
    rw [hprod.value?, if_pos ⟨rfl, hm⟩]
  -- what has a name after the node is not rendered among the other nodes
  have hlater : ∀ {m v}, s₂.value? m = some v → m ∉ new₂ := by
    intro m v hv hmem
    rw [h₂.unbound m hmem] at hv
    cases hv
  refine ⟨?_, fun m hm => ?_, fun m hm => ?_, fun m hk => ?_, fun m hm hk => ?_,
    fun m v hm hv => ?_⟩
  · rw [h₂.rendered, hprod.rendered, h₁.rendered]
    simp
  · simp only [List.mem_append, List.mem_singleton] at hm
    rcases hm with (hm | rfl) | hm
    · exact h₁.unbound m hm
    · exact hid
    · exact hback (h₂.unbound m hm)
  · have hmono : Demands cx s₂ ≤ Demands cx s := fun a b hd => ⟨hback hd.1, hd.2⟩
    simp only [List.mem_append, List.mem_singleton] at hm
    rcases hm with (hm | rfl) | hm
    · obtain ⟨o, ho, hr⟩ := h₁.demanded m hm
      exact ⟨id, List.mem_cons_self, .head ⟨hid, node, hnode, ho⟩ hr⟩
    · exact ⟨m, List.mem_cons_self, .refl⟩
    · obtain ⟨o, ho, hr⟩ := h₂.demanded m hm
      exact ⟨o, List.mem_cons_of_mem _ ho, ReflTransGen.mono hmono o m hr⟩
  · refine count_parts_le (h₁.once m hk) (h₂.once m hk) (fun hm => ⟨fun hin => ?_, ?_⟩)
      fun hin => ?_
    · exact (h₁.bound_after hv₁ hprod hin hk).1 hm
    · exact hlater (hkept hm hk)
    · obtain ⟨-, v, hv⟩ := h₁.bound_after hv₁ hprod hin hk
      exact hlater hv
  · simp only [List.mem_append, List.mem_singleton] at hm
    rcases hm with (hm | hm) | hm
    · obtain ⟨-, v, hv⟩ := h₁.bound_after hv₁ hprod hm hk
      exact ⟨v, hrest.value?_of_some hv⟩
    · exact ⟨w, hrest.value?_of_some (hkept hm hk)⟩
    · exact h₂.bound m hm hk
  · -- the name was given by the operands, by the node itself, or by the other nodes
    cases hm₁ : s₁.value? m with
    | some u =>
      obtain ⟨hmem, hk⟩ := h₁.fresh m u hm hm₁
      exact ⟨by simp [hmem], hk⟩
    | none =>
      cases hm₂ : s₂.value? m with
      | none =>
        obtain ⟨hmem, hk⟩ := h₂.fresh m v hm₂ hv
        exact ⟨by simp [hmem], hk⟩
      | some u =>
        rw [hprod.value?] at hm₂
        split_ifs at hm₂ with hcond
        · obtain ⟨rfl, hk⟩ := hcond
          exact ⟨by simp, by rw [Context.keeps, hnode, Option.any_some, hk]⟩
        · rw [hm₁] at hm₂
          cases hm₂

end render

end Renders

theorem Evaluates.renders {ids : List NodeId} {s s' : Emitter} {vs : List Value}
    (h : Evaluates cx ids s vs s') : ∃ new, Renders cx ids s s' new := by
  induction h with
  | nil s => exact ⟨[], .nil s⟩
  | known _ _ ih =>
    obtain ⟨new, hnew⟩ := ih
    exact ⟨new, hnew.known⟩
  | render hid hnode hargs hv₁ hprod hrest ihargs ihrest =>
    obtain ⟨new₁, h₁⟩ := ihargs
    obtain ⟨new₂, h₂⟩ := ihrest
    exact ⟨_, .render hid hnode hargs hv₁ hprod hrest h₁ h₂⟩

/-- No node is kept more often than it is rendered. -/
theorem Evaluates.count_kept_le {ids : List NodeId} {s s' : Emitter} {vs : List Value}
    (h : Evaluates cx ids s vs s') {m : NodeId} (hs : s.kept.count m ≤ s.rendered.count m) :
    s'.kept.count m ≤ s'.rendered.count m := by
  induction h with
  | nil => exact hs
  | known _ _ ih => exact ih hs
  | @render id node rest s s₁ s₂ s' args v vs _ _ _ _ hprod _ ihargs ihrest =>
    have hs₁ := ihargs hs
    apply ihrest
    rw [hprod.rendered, List.count_append]
    cases hprod with
    | inline => exact Nat.le_trans hs₁ (Nat.le_add_right _ _)
    | kept =>
      rw [Emitter.kept_materialize, Emitter.kept_render, List.count_append]
      exact Nat.add_le_add_right hs₁ _
    | array => exact Nat.le_trans hs₁ (Nat.le_add_right _ _)

/-- A node that is evaluated first of all is rendered last and only once. -/
theorem Evaluates.renders_root {id : NodeId} {s s' : Emitter} {v : Value}
    (h : Evaluates cx [id] s [v] s') (hid : s.value? id = none) :
    ∃ new, Renders cx [id] s s' (new ++ [id]) ∧ id ∉ new := by
  obtain ⟨all, hall⟩ := h.renders
  cases h with
  | known hv _ =>
    rw [hid] at hv
    cases hv
  | render _ hnode hargs hv₁ hprod hrest =>
    cases hrest
    obtain ⟨new, hnew⟩ := hargs.renders
    have heq : all = new ++ [id] := by
      have := hall.rendered
      rw [hprod.rendered, hnew.rendered, List.append_assoc] at this
      exact (List.append_cancel_left this).symm
    refine ⟨new, heq ▸ hall, fun hmem => ?_⟩
    obtain ⟨o, ho, hr⟩ := hnew.demanded id hmem
    have hdemand : Demands cx s id o := ⟨hid, _, hnode, ho⟩
    refine not_transGen_of_acc (.intro _ fun b hb => ?_) (TransGen.head' hdemand hr)
    obtain ⟨_, node', hnode', hb⟩ := hb
    rw [hnode] at hnode'
    cases hnode'
    exact hargs.acc.1 b hb

/-! ### Evaluation computes the relation -/

/-- Evaluating a node and then the nodes of a list. -/
theorem Evaluates.cons {id : NodeId} {ids : List NodeId} {s s₁ s' : Emitter} {v : Value}
    {vs : List Value} (hid : Evaluates cx [id] s [v] s₁) (hids : Evaluates cx ids s₁ vs s') :
    Evaluates cx (id :: ids) s (v :: vs) s' := by
  cases hid with
  | known hv hnil =>
    cases hnil
    exact .known hv hids
  | render hv hnode hargs hv₁ hprod hnil =>
    cases hnil
    exact .render hv hnode hargs hv₁ hprod hids

/-- An evaluation of a node that gives its value, and one that fails after the values of some nodes
were given. -/
structure Derives (cx : Context) (id : NodeId) (x : Emit Value) : Prop where
  ok : ∀ {s v s'}, x s = .ok v s' → Evaluates cx [id] s [v] s'
  error : ∀ {s e s'}, x s = .error e s' → ∃ ids vs, Evaluates cx ids s vs s'

namespace Derives

variable {f : NodeId → Emit Value} (hf : ∀ b, Derives cx b (f b))

include hf

theorem mapM_ok {ids : List NodeId} {s s' : Emitter} {vs : List Value}
    (h : ids.mapM f s = .ok vs s') : Evaluates cx ids s vs s' := by
  induction ids generalizing s vs with
  | nil =>
    rw [List.mapM_nil, Emit.pure_ok] at h
    obtain ⟨rfl, rfl⟩ := h
    exact .nil s
  | cons id ids ih =>
    obtain ⟨v, s₁, rest, hid, hids, rfl⟩ := Emit.mapM_cons_ok.1 h
    exact ((hf id).ok hid).cons (ih hids)

theorem mapM_error {ids : List NodeId} {s s' : Emitter} {e : Error}
    (h : ids.mapM f s = .error e s') : ∃ ids vs, Evaluates cx ids s vs s' := by
  induction ids generalizing s with
  | nil => cases h
  | cons id ids ih =>
    rcases Emit.mapM_cons_error.1 h with hid | ⟨v, s₁, hid, hids⟩
    · exact (hf id).error hid
    · obtain ⟨ids', vs, hvs⟩ := ih hids
      exact ⟨_, _, ((hf id).ok hid).cons hvs⟩

/-- One level of recursion derives the value of a node from those of its operands. -/
theorem evaluateBy (id : NodeId) : Derives cx id (evaluateBy cx f id) where
  ok {s v s'} h := by
    rw [evaluateBy_eq] at h
    cases hv : s.value? id with
    | some w =>
      rw [hv] at h
      cases h
      exact .known hv (.nil s)
    | none =>
      cases hnode : cx.graph.get? id with
      | none =>
        simp only [hv, hnode] at h
        cases h
      | some node =>
        simp only [hv, hnode] at h
        obtain ⟨args, s₁, hargs, hprod⟩ := Emit.bind_ok.1 h
        have hargs := mapM_ok hf hargs
        have hv₁ := Evaluates.unbound hv hnode hargs
        exact .render hv hnode hargs hv₁ (produced_of_ok hv₁ hprod) (.nil s')
  error {s e s'} h := by
    rw [evaluateBy_eq] at h
    cases hv : s.value? id with
    | some w =>
      rw [hv] at h
      cases h
    | none =>
      cases hnode : cx.graph.get? id with
      | none =>
        simp only [hv, hnode] at h
        cases h
        exact ⟨[], [], .nil s⟩
      | some node =>
        simp only [hv, hnode] at h
        rcases Emit.bind_error.1 h with hargs | ⟨args, s₁, hargs, hprod⟩
        · exact mapM_error hf hargs
        · obtain ⟨-, rfl⟩ := error_of_produce hprod
          exact ⟨_, _, mapM_ok hf hargs⟩

end Derives

theorem derives_throw (e : Error) (id : NodeId) : Derives cx id (throw e) where
  ok h := by cases h
  error h := by
    cases h
    exact ⟨[], [], .nil _⟩

theorem derives_atDepth (depth : Nat) (id : NodeId) : Derives cx id (atDepth cx depth id) :=
  atDepth_induct (fun id => derives_throw (.endless id)) Derives.evaluateBy depth id

theorem exists_derives (depth : Nat) (id : NodeId) :
    ∃ f, (∀ b, Derives cx b (f b)) ∧ atDepth cx depth id = evaluateBy cx f id :=
  exists_evaluateBy (fun id => derives_throw (.endless id)) Derives.evaluateBy depth id

theorem derives_evaluate (id : NodeId) : Derives cx id (evaluate cx id) := by
  rw [evaluate_eq]
  exact derives_atDepth cx.graph.size id

/-- An evaluation that succeeds is a derivation of the relation. -/
theorem evaluates_of_ok {id : NodeId} {s s' : Emitter} {v : Value}
    (h : evaluate cx id s = .ok v s') : Evaluates cx [id] s [v] s' :=
  (derives_evaluate id).ok h

/-- An evaluation that fails has evaluated some nodes and done nothing else. -/
theorem evaluates_of_error {id : NodeId} {s s' : Emitter} {e : Error}
    (h : evaluate cx id s = .error e s') : ∃ ids vs, Evaluates cx ids s vs s' :=
  (derives_evaluate id).error h

end KernelForge.Source
