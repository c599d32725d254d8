import KernelForge.Proofs.Effects

/-!
# Accepted methods contain nothing untranslatable

`Translatable` says, independently of how nodes are printed, which nodes have a counterpart in kernel
source. A node is checked when it is rendered, and a node with a name is not rendered again, so that
everything a statement reaches was checked is an invariant of the whole replay: what has a name or was
rendered is admitted, and so is everything that a rendered node takes.
-/

namespace KernelForge.Source

open Relation

/-! ### Translatable nodes -/

namespace Context

variable (cx : Context)

/-- The class declares a field of a name. -/
def HasField (field : String) : Prop :=
  ∃ f ∈ cx.cls.fields, f.name = field

/-- The node allocates an array of one dimension whose length is a positive constant. -/
def HasFixedLength (node : Node) : Prop :=
  ∃ element, node.ty = .array element ∧ element.isArray = false ∧
    ∃ id ty operands length, node.operands.head? = some id ∧
      cx.graph.get? id = some ⟨.int length, ty, operands⟩ ∧ 0 < length

/-- A call that can be written down: of a method of the kernel class, made on the kernel object if it
has one, or of a function with a declared spelling, made on nothing. -/
def CanCall (node : Node) (call : Invocation) : Prop :=
  call.kind ≠ .dynamic ∧
    (call.owner = cx.cls.name ∧ (call.hasReceiver → cx.onReceiver node) ∧
        (∃ m ∈ cx.cls.methods, m.name = call.method) ∨
      call.owner ≠ cx.cls.name ∧ call.kind = .static ∧
        ∃ f, cx.metadata.function? call.owner call.method = some f)

/-- A node that has a counterpart in kernel source. -/
def Translatable (node : Node) : Prop :=
  match node.kind with
  | .int _ | .long _ | .float _ | .double _ | .string _ | .phi _ => True
  | .param index => index < cx.method.params.length
  | .negate | .convert => node.operands.length = 1
  | .binary _ | .compare _ | .threeWay _ | .arrayLoad => node.operands.length = 2
  | .arrayStore => node.operands.length = 3
  | .getField field => node.operands.length = 1 ∧ (cx.onReceiver node → cx.HasField field)
  | .putField field => node.operands.length = 2 ∧ (cx.onReceiver node → cx.HasField field)
  | .newArray => cx.HasFixedLength node
  | .invoke call => cx.CanCall node call
  | .null | .classLiteral _ | .receiver | .refCompare _ | .getStatic _ _ | .putStatic _ _
  | .arrayLength | .instanceOf _ | .checkCast _ | .new _ | .newMultiArray => False
  | .start | .label | .merge | .loopHeader | .goto | .branch | .switch _ | .ret => False
  | .throw | .catch | .monitorEnter | .monitorExit => False

end Context

variable {cx : Context}

/-! ### What is rendered is translatable -/

theorem unary_ok {id : NodeId} {args : List Expr} {f : Expr → Expr} {e : Expr}
    (h : Context.unary id args f = .ok e) : args.length = 1 := by
  unfold Context.unary at h
  split at h
  · rfl
  · cases h

theorem pair_ok {id : NodeId} {args : List Expr} {f : Expr → Expr → Expr} {e : Expr}
    (h : Context.pair id args f = .ok e) : args.length = 2 := by
  unfold Context.pair at h
  split at h
  · rfl
  · cases h

theorem triple_ok {id : NodeId} {args : List Expr} {f : Expr → Expr → Expr → Expr} {e : Expr}
    (h : Context.triple id args f = .ok e) : args.length = 3 := by
  unfold Context.triple at h
  split at h
  · rfl
  · cases h

theorem argument_ok {field : String} {e : Expr} (h : cx.argument field = .ok e) :
    cx.HasField field := by
  unfold Context.argument at h
  split at h
  · rename_i found hfound
    exact ⟨found, List.mem_of_find?_eq_some hfound, by simpa using List.find?_some hfound⟩
  · cases h

theorem call_ok {id : NodeId} {node : Node} {target : Invocation} {args : List Expr} {e : Expr}
    (h : cx.call id node target args = .ok e) : cx.CanCall node target := by
  simp only [Context.call] at h
  split_ifs at h with hdynamic howner hreceiver
  · refine ⟨hdynamic, .inl ⟨howner, fun hrec => ?_, ?_⟩⟩
    · simpa [hrec] using hreceiver
    · split at h
      · cases h
      · rename_i m hm
        exact ⟨m, List.mem_of_find?_eq_some hm, by simpa using List.find?_some hm⟩
  · refine ⟨hdynamic, .inr ⟨howner, ?_⟩⟩
    cases hkind : target.kind with
    | static =>
      rw [hkind] at h
      cases hf : cx.metadata.function? target.owner target.method with
      | none => simp [hf] at h
      | some f => exact ⟨rfl, f, rfl⟩
    | dynamic => exact absurd hkind hdynamic
    | special | «virtual» | interface => simp [hkind] at h

theorem privateArray_ok {node : Node} {r : Context.Rendering} (h : cx.privateArray node = .ok r) :
    cx.HasFixedLength node := by
  simp only [Context.privateArray] at h
  split at h
  · cases h
  · rename_i element helement
    split_ifs at h with harray
    split at h
    · rename_i length ty operands hlength
      split_ifs at h with hpos
      obtain ⟨id, hid, hget⟩ := Option.bind_eq_some_iff.1 hlength
      refine ⟨element, ?_, by simpa using harray, id, ty, operands, length, hid, hget, hpos⟩
      cases hty : node.ty <;> simp_all [Ty.element?]
    · cases h

/-- A node that gets an expression is translatable. The kinds differ in what is evaluated: all operands,
or all but the kernel object. -/
theorem translatable_of_express {id : NodeId} {node : Node} {args : List Expr} {e : Expr}
    (h : cx.express id node args = .ok e) (hlen : args.length = (cx.evaluated node).length) :
    cx.Translatable node := by
  unfold Context.Translatable
  unfold Context.express at h
  -- the kernel object is the first operand, so there is one operand more than is evaluated
  have hskipped : cx.onReceiver node → node.operands.length = (node.operands.drop 1).length + 1 := by
    intro hon
    cases hops : node.operands with
    | nil => simp [Context.onReceiver, hops] at hon
    | cons first rest => simp
  cases hkind : node.kind with
  | int | long | float | double | string => trivial
  | param index =>
    simp only [hkind] at h ⊢
    cases hparam : cx.method.params[index]? with
    | none => simp [hparam] at h
    | some param => exact (List.getElem?_eq_some_iff.1 hparam).1
  | binary | compare | threeWay | arrayLoad =>
    simp only [hkind] at h ⊢
    simpa [Context.evaluated, Context.skipsReceiver, hkind, NodeKind.isPhi, pair_ok h] using
      hlen.symm
  | negate | convert =>
    simp only [hkind] at h ⊢
    simpa [Context.evaluated, Context.skipsReceiver, hkind, NodeKind.isPhi, unary_ok h] using
      hlen.symm
  | arrayStore =>
    simp only [hkind] at h ⊢
    simpa [Context.evaluated, Context.skipsReceiver, hkind, NodeKind.isPhi, triple_ok h] using
      hlen.symm
  | getField field =>
    simp only [hkind] at h ⊢
    split_ifs at h with hon
    · split at h
      · simp only [Context.evaluated, Context.skipsReceiver, hkind, NodeKind.isPhi, hon, if_true,
          Bool.false_eq_true, if_false] at hlen
        exact ⟨by rw [hskipped hon, ← hlen]; rfl, fun _ => argument_ok h⟩
      · cases h
    · simp only [Context.evaluated, Context.skipsReceiver, hkind, NodeKind.isPhi, hon,
        Bool.false_eq_true, if_false] at hlen
      exact ⟨by rw [← hlen, unary_ok h], fun hrec => absurd hrec hon⟩
  | putField field =>
    simp only [hkind] at h ⊢
    split_ifs at h with hon
    · split at h
      · simp only [Context.evaluated, Context.skipsReceiver, hkind, NodeKind.isPhi, hon, if_true,
          Bool.false_eq_true, if_false] at hlen
        cases harg : cx.argument field with
        | error err => simp [harg, Except.map] at h
        | ok target => exact ⟨by rw [hskipped hon, ← hlen]; rfl, fun _ => argument_ok harg⟩
      · cases h
    · simp only [Context.evaluated, Context.skipsReceiver, hkind, NodeKind.isPhi, hon,
        Bool.false_eq_true, if_false] at hlen
      exact ⟨by rw [← hlen, pair_ok h], fun hrec => absurd hrec hon⟩
  | invoke call =>
    simp only [hkind] at h ⊢
    exact call_ok h
  | _ =>
    rw [hkind] at h
    cases h

theorem Produced.translatable {id : NodeId} {node : Node} {args : List Value} {s s' : Emitter}
    {v : Value} (h : Produced cx id node args s v s')
    (hlen : args.length = (cx.evaluated node).length) : cx.Translatable node := by
  cases h with
  | inline he | kept he => exact translatable_of_express he (by simpa using hlen)
  | array hkind hk hr =>
    unfold Context.Translatable
    simp only [hkind]
    exact privateArray_ok hr

/-! ### What is admitted -/

/-- A node is admitted if it is a phi of the graph or was rendered. -/
def Emitter.Admits (cx : Context) (s : Emitter) (id : NodeId) : Prop :=
  (∃ phi ∈ cx.graph.phis, phi.id = id) ∨ id ∈ s.rendered

/-- Whatever has a name is admitted, whatever was rendered is a translatable node of the graph, and
whatever it takes is admitted. -/
structure Checked (cx : Context) (s : Emitter) : Prop where
  bound : ∀ {id v}, s.value? id = some v → s.Admits cx id
  rendered : ∀ {id}, id ∈ s.rendered → ∃ node, cx.graph.get? id = some node ∧ cx.Translatable node
  taken : ∀ {id operand}, id ∈ s.rendered → cx.Takes id operand → s.Admits cx operand

theorem checked_start : Checked cx (Emitter.start cx) := by
  refine ⟨fun hv => ?_, fun hid => ?_, fun hid => ?_⟩
  · obtain ⟨phi, hphi, hid, _⟩ := Emitter.value?_start hv
    exact .inl ⟨phi, hphi, hid⟩
  all_goals
    rw [Emitter.rendered_start] at hid
    cases hid

theorem Emitter.Admits.mono {s s' : Emitter} {id : NodeId} (h : s.Admits cx id)
    (hs : s.rendered ⊆ s'.rendered) : s'.Admits cx id :=
  h.imp_right fun hid => hs hid

namespace Checked

variable {s s' : Emitter}

/-- A phi takes no operands and stands for itself; every other admitted node was rendered. -/
theorem translatable (h : Checked cx s) {id : NodeId} (hid : s.Admits cx id) :
    ∃ node, cx.graph.get? id = some node ∧ cx.Translatable node := by
  rcases hid with ⟨phi, hphi, rfl⟩ | hid
  · exact ⟨_, get?_of_mem_phis hphi, trivial⟩
  · exact h.rendered hid

/-- What an admitted node leads to is admitted. -/
theorem admits_of_takes (h : Checked cx s) {id other : NodeId} (hid : s.Admits cx id)
    (hreach : ReflTransGen cx.Takes id other) : s.Admits cx other := by
  induction hreach with
  | refl => exact hid
  | tail _ hstep ih =>
    rcases ih with ⟨phi, hphi, rfl⟩ | hmem
    · obtain ⟨node, hnode, hoperand⟩ := hstep
      rw [get?_of_mem_phis hphi] at hnode
      obtain rfl := Option.some.inj hnode
      simp [Context.evaluated, NodeKind.isPhi] at hoperand
    · exact h.taken hmem hstep

/-- Only what was rendered and what has a name matters. -/
theorem congr (h : Checked cx s) (hrendered : s'.rendered = s.rendered)
    (hnames : ∀ {id v}, s'.value? id = some v → s.Admits cx id) : Checked cx s' := by
  have hadmits : ∀ {id}, s.Admits cx id → s'.Admits cx id := fun hid =>
    hid.mono (hrendered ▸ List.Subset.refl _)
  refine ⟨fun hv => hadmits (hnames hv), fun hid => ?_, fun hid htakes => ?_⟩
  · exact h.rendered (hrendered ▸ hid)
  · exact hadmits (h.taken (hrendered ▸ hid) htakes)

theorem sameMemory (h : Checked cx s) (hs : SameMemory s s') : Checked cx s' :=
  h.congr hs.rendered fun hv => h.bound (hs.value? _ ▸ hv)

theorem openScope (h : Checked cx s) : Checked cx s.openScope :=
  h.congr rfl fun hv => h.bound hv

theorem closeScope (h : Checked cx s) : Checked cx s.closeScope :=
  h.congr s.rendered_closeScope fun hv => h.bound (s.value?_of_closeScope hv)

theorem change (h : Checked cx s) (c : ScopeChange) : Checked cx (s.change c) := by
  cases c with
  | keep => exact h
  | enter => exact h.openScope
  | leave => exact h.closeScope
  | swap => exact h.closeScope.openScope

/-- Rendering a node whose operands are admitted. -/
theorem produced {id : NodeId} {node : Node} {args : List Value} {v : Value} (h : Checked cx s)
    (hnode : cx.graph.get? id = some node) (hprod : Produced cx id node args s v s')
    (hlen : args.length = (cx.evaluated node).length)
    (hargs : ∀ operand ∈ cx.evaluated node, s.Admits cx operand) : Checked cx s' := by
  have hsub : s.rendered ⊆ s'.rendered := by
    rw [hprod.rendered]
    exact List.subset_append_left _ _
  have hmem : ∀ {j}, j ∈ s'.rendered → j ∈ s.rendered ∨ j = id := by
    intro j hj
    simpa [hprod.rendered] using hj
  refine ⟨fun {j w} hw => ?_, fun hj => ?_, fun {j operand} hj htakes => ?_⟩
  · rw [hprod.value?] at hw
    split_ifs at hw with hj
    · exact .inr (by simp [hprod.rendered, hj.1])
    · exact (h.bound hw).mono hsub
  · rcases hmem hj with hj | rfl
    · exact h.rendered hj
    · exact ⟨node, hnode, hprod.translatable hlen⟩
  · rcases hmem hj with hj | rfl
    · exact (h.taken hj htakes).mono hsub
    · obtain ⟨node', hnode', hoperand⟩ := htakes
      obtain rfl := Option.some.inj (hnode.symm.trans hnode')
      exact (hargs operand hoperand).mono hsub

end Checked

theorem Evaluates.rendered_subset {ids : List NodeId} {s s' : Emitter} {vs : List Value}
    (h : Evaluates cx ids s vs s') : s.rendered ⊆ s'.rendered := by
  obtain ⟨new, hnew⟩ := h.renders
  rw [hnew.rendered]
  exact List.subset_append_left _ _

/-- Evaluation checks everything that it is asked for. -/
theorem Evaluates.checked {ids : List NodeId} {s s' : Emitter} {vs : List Value}
    (h : Evaluates cx ids s vs s') (hs : Checked cx s) :
    Checked cx s' ∧ ∀ id ∈ ids, s'.Admits cx id := by
  induction h with
  | nil s => exact ⟨hs, by simp⟩
  | @known id rest s s' v vs hv hrest ih =>
    obtain ⟨hs', hadmits⟩ := ih hs
    refine ⟨hs', fun j hj => ?_⟩
    rcases List.mem_cons.1 hj with rfl | hj
    · exact (hs.bound hv).mono hrest.rendered_subset
    · exact hadmits j hj
  | @render id node rest s s₁ s₂ s' args v vs hv hnode hargs hv₁ hprod hrest ihargs ihrest =>
    obtain ⟨hs₁, hoperands⟩ := ihargs hs
    have hs₂ := hs₁.produced hnode hprod hargs.length_eq hoperands
    obtain ⟨hs', hadmits⟩ := ihrest hs₂
    refine ⟨hs', fun j hj => ?_⟩
    rcases List.mem_cons.1 hj with rfl | hj
    · exact .inr (hrest.rendered_subset (by simp [hprod.rendered]))
    · exact hadmits j hj

/-! ### The events -/

theorem rendered_materialize (s : Emitter) (id : NodeId) (ty : Ty) (e : Expr) (keep : Bool) :
    (s.materialize cx id ty e keep).rendered = s.rendered := by
  rw [Emitter.materialize_eq]

theorem Act.rendered_subset {plan : Plan} {e : Event} {s s' : Emitter} (h : Act cx plan e s s') :
    s.rendered ⊆ s'.rendered := by
  cases h with
  | evaluate _ heval | bind _ _ _ heval => exact heval.rendered_subset
  | pin _ _ hsame | note hsame => exact hsame.rendered ▸ List.Subset.refl _
  | fresh => exact rendered_materialize s _ _ _ _ ▸ List.Subset.refl _

theorem Acts.rendered_subset {plan : Plan} {e : Event} {s s' : Emitter} (h : Acts cx plan e s s') :
    s.rendered ⊆ s'.rendered := by
  induction h with
  | refl => exact List.Subset.refl _
  | tail _ hact ih => exact List.Subset.trans ih hact.rendered_subset

/-- Every act checks what it evaluates. -/
theorem Act.checked {plan : Plan} {e : Event} {s s' : Emitter} (h : Act cx plan e s s')
    (hs : Checked cx s) : Checked cx s' := by
  cases h with
  | evaluate _ heval | bind _ _ _ heval => exact (heval.checked hs).1
  | @pin id _ _ _ _ hsame =>
    have hpinned : Checked cx { s with pinned := id :: s.pinned } :=
      hs.congr rfl fun hv => hs.bound hv
    exact hpinned.sameMemory hsame
  | @fresh id node _ _ _ _ _ _ _ hrendered =>
    refine hs.congr (rendered_materialize s _ _ _ _) fun {j v} hv => ?_
    rw [Emitter.value?_materialize] at hv
    split_ifs at hv with hj
    · exact .inr (hj ▸ hrendered)
    · exact hs.bound hv
  | note hsame => exact hs.sameMemory hsame

theorem Acts.checked {plan : Plan} {e : Event} {s s' : Emitter} (h : Acts cx plan e s s')
    (hs : Checked cx s) : Checked cx s' := by
  induction h with
  | refl => exact hs
  | tail _ hact ih => exact hact.checked ih

theorem Emitter.rendered_change (s : Emitter) (c : ScopeChange) :
    (s.change c).rendered = s.rendered := by
  cases c with
  | keep | enter => rfl
  | leave | swap => exact s.rendered_closeScope

/-- Every event checks what it evaluates and forgets no rendering. -/
theorem Emitted.checked {e : Event} {s s' : Emitter} (h : Emitted cx e s s') (hs : Checked cx s) :
    Checked cx s' ∧ s.rendered ⊆ s'.rendered := by
  obtain ⟨m, hacts, _, hsame⟩ := h.acts
  refine ⟨((hacts.checked hs).change _).sameMemory hsame, ?_⟩
  rw [hsame.rendered, m.rendered_change]
  exact hacts.rendered_subset

/-- The values that flow in along an edge are admitted. -/
theorem FlowsIn.admits {staged : Bool} {moves : List (NodeId × NodeId)}
    {assignments : List (NodeId × Expr)} {s s' : Emitter}
    (h : FlowsIn cx staged moves s assignments s') (hs : Checked cx s) :
    s.rendered ⊆ s'.rendered ∧ ∀ move ∈ moves, s'.Admits cx move.2 := by
  induction h with
  | nil => exact ⟨List.Subset.refl _, by simp⟩
  | direct heval _ _ _ ih =>
    obtain ⟨hs₁, hvalue⟩ := heval.checked hs
    obtain ⟨hsub, hrest⟩ := ih hs₁
    refine ⟨List.Subset.trans heval.rendered_subset hsub, fun move hmove => ?_⟩
    rcases List.mem_cons.1 hmove with rfl | hmove
    · exact (hvalue _ List.mem_cons_self).mono hsub
    · exact hrest move hmove
  | stage _ heval _ ih =>
    obtain ⟨hs₁, hvalue⟩ := heval.checked hs
    obtain ⟨hsub, hrest⟩ := ih (hs₁.congr rfl fun hv => hs₁.bound hv)
    refine ⟨List.Subset.trans heval.rendered_subset hsub, fun move hmove => ?_⟩
    rcases List.mem_cons.1 hmove with rfl | hmove
    · exact (hvalue _ List.mem_cons_self).mono hsub
    · exact hrest move hmove

theorem Assigns.admits {source : NodeId} {s s' : Emitter} (h : Assigns cx source s s')
    (hs : Checked cx s) {value : NodeId} (hvalue : value ∈ Survey.phiInputs cx.graph source) :
    s'.Admits cx value := by
  obtain ⟨hmoves, hin, hfeed⟩ := h
  rcases move_of_mem_phiInputs hmoves hvalue with hphi | ⟨move, hmove, rfl⟩
  · exact .inl hphi
  · exact ((hin.admits hs).2 move hmove).mono (hfeed.sameMemory.rendered ▸ List.Subset.refl _)

/-- After an event the nodes that it is about are admitted. -/
theorem Emitted.admits_roots {e : Event} {s s' : Emitter} (h : Emitted cx e s s')
    (hs : Checked cx s) {root : NodeId} (hroot : root ∈ e.roots cx) : s'.Admits cx root := by
  cases h with
  | effectKnown hv =>
    obtain rfl := List.mem_singleton.1 hroot
    exact hs.bound hv
  | effectVoid _ _ _ heval | effectKept _ _ _ heval _ => exact (heval.checked hs).2 root hroot
  | effectFresh _ _ _ heval _ =>
    exact ((heval.checked hs).2 root hroot).mono
      (rendered_materialize _ _ _ _ _ ▸ List.Subset.refl _)
  | ret hops =>
    rw [Event.roots, hops] at hroot
    cases hroot
  | retValue hops heval =>
    rw [Event.roots, hops] at hroot
    exact (heval.checked hs).2 root hroot
  | startIf hops heval hhoist | startSwitch hops heval hhoist =>
    rw [Event.roots, hops] at hroot
    have hacts := hhoist.acts (e := .startIf _) rfl rfl
    exact ((heval.checked hs).2 root hroot).mono hacts.rendered_subset
  | leave _ hassign => exact hassign.admits (hs.congr rfl fun hv => hs.bound hv) hroot
  | again _ _ hassign | edge hassign => exact hassign.admits hs hroot
  | startBlock | finishBlock | startElse | finishIf | startCase | finishCase | finishSwitch =>
    cases hroot

/-- At every point of a replay, the nodes that the events done are about are admitted. -/
theorem Reached.checked {done rest : List Event} {s : Emitter} (h : Reached cx done rest s) :
    Checked cx s ∧ ∀ e ∈ done, ∀ root ∈ e.roots cx, s.Admits cx root := by
  refine h.induct (motive := fun done _ s =>
    Checked cx s ∧ ∀ e ∈ done, ∀ root ∈ e.roots cx, s.Admits cx root) ?_ ?_
  · exact ⟨checked_start, by simp⟩
  · rintro done rest e s s' _ hevent ⟨hs, hroots⟩
    obtain ⟨hs', hsub⟩ := hevent.checked hs
    refine ⟨hs', fun e he root hroot => ?_⟩
    rcases List.mem_append.1 he with he | he
    · exact (hroots e he root hroot).mono hsub
    · obtain rfl := List.mem_singleton.1 he
      exact hevent.admits_roots hs hroot

/-- Whatever a statement of an accepted body reaches is a translatable node of the graph. -/
theorem reached_translatable {out : List String × String} (h : emitBody cx = .ok out)
    {e : Event} (he : e ∈ bodyEvents cx.method.body) {root id : NodeId} (hroot : root ∈ e.roots cx)
    (hreach : ReflTransGen cx.Takes root id) :
    ∃ node, cx.graph.get? id = some node ∧ cx.Translatable node := by
  obtain ⟨s, hs, _⟩ := reached_of_emitBody h
  obtain ⟨hchecked, hadmits⟩ := hs.checked
  exact hchecked.translatable (hchecked.admits_of_takes (hadmits e he root hroot) hreach)

/-- A loop that feeds a phi with the result of a call made on the kernel object, after a private array
was filled. -/
def callInLoop : Context :=
  let run : Method :=
    { name := "run"
      params := [⟨"n", .int⟩]
      graph := ⟨#[.receiver ⟨"Kernel"⟩, .param 0 .int, .getField 0 "scale" .int, .int 8,
        ⟨.newArray, .array .int, [3]⟩, .invoke ⟨.virtual, ⟨"Kernel"⟩, "twice"⟩ .int [0, 1],
        .arrayStore 4 1 5, .phi .int [(8, 2), (9, 10)], .marker .goto, .marker .goto,
        ⟨.binary .add, .int, [7, 5]⟩]⟩
      body := [.effect 4, .effect 5, .effect 6, .edge 8, .block ⟨"L", true⟩ [.again 9 "L"]] }
  let twice : Method := { name := "twice", params := [⟨"x", .int⟩], returns := .int }
  { cls := { name := ⟨"Kernel"⟩, fields := [⟨"scale", .int⟩], methods := [run, twice] }
    method := run }

theorem reached_translatable_callInLoop :
    ∃ out, emitBody callInLoop = .ok out ∧
      ∃ node, callInLoop.graph.get? 5 = some node ∧ callInLoop.Translatable node := by
  obtain ⟨out, hout⟩ : ∃ out, emitBody callInLoop = .ok out := exists_emitBody (by cbv)
  have htakes : callInLoop.Takes 10 5 := ⟨⟨.binary .add, .int, [7, 5]⟩, rfl, by decide⟩
  have hevent : Event.again 9 "L" ∈ bodyEvents callInLoop.method.body := by decide
  have hroot : 10 ∈ (Event.again 9 "L").roots callInLoop := by decide
  exact ⟨out, hout, reached_translatable hout hevent hroot (.single htakes)⟩

end KernelForge.Source
