import KernelForge.Proofs.Freshness
import KernelForge.Proofs.Recursion

/-!
# Sharing keeps values

Evaluating an arithmetic node writes declarations of temporaries and returns an expression. Read as
declarations over a scope of names, these compute the value that the node has by recursion on its
operands, whatever the operators, conversions and constants mean (`evaluate_keeps_value`).

The emitter and the scope go together: after the declarations written so far, every node with a name
has its own value under that name (`Holds`). A term that computes a node in every such scope still does
so after more declarations, since nodes keep their names.
-/

namespace KernelForge.Source

open Relation

universe u

/-! ### Arithmetic nodes -/

/-- Operations on one value. -/
inductive UnaryOp
  | negate
  | convert

/-- Operations on two values. -/
inductive PairOp
  | arithmetic (op : BinaryOp)
  | compare (op : CompareOp)
  | threeWay (mode : ThreeWay)

def unaryOp? : NodeKind → Option UnaryOp
  | .negate => some .negate
  | .convert => some .convert
  | _ => none

def pairOp? : NodeKind → Option PairOp
  | .binary op => some (.arithmetic op)
  | .compare op => some (.compare op)
  | .threeWay mode => some (.threeWay mode)
  | _ => none

namespace Context

variable (cx : Context)

/-- One node is an operand of another. -/
def Operand (id operand : NodeId) : Prop :=
  operand ∈ cx.graph.operands id

/-- A constant, a declared parameter or an operation with as many operands as it takes. -/
inductive Arithmetic : Node → Prop
  | int {value : Int32} {ty : Ty} : Arithmetic ⟨.int value, ty, []⟩
  | long {value : Int64} {ty : Ty} : Arithmetic ⟨.long value, ty, []⟩
  | param {index : Nat} {ty : Ty} (h : index < cx.method.params.length) :
      Arithmetic ⟨.param index, ty, []⟩
  | unary {kind : NodeKind} {op : UnaryOp} {ty : Ty} {a : NodeId} (h : unaryOp? kind = some op) :
      Arithmetic ⟨kind, ty, [a]⟩
  | pair {kind : NodeKind} {op : PairOp} {ty : Ty} {a b : NodeId} (h : pairOp? kind = some op) :
      Arithmetic ⟨kind, ty, [a, b]⟩

/-- A parameter that occurs below a node. -/
def ParamBelow (root : NodeId) (index : Nat) (param : Variable) : Prop :=
  ∃ id ty operands, ReflTransGen cx.Operand root id ∧
    cx.graph.get? id = some ⟨.param index, ty, operands⟩ ∧ cx.method.params[index]? = some param

/-- The graph has no cycle, everything below `root` is arithmetic, and the parameters there have
different identifiers, none of which names a temporary. -/
structure ArithmeticBelow (root : NodeId) : Prop where
  acyclic : ∀ id, ¬ TransGen cx.Operand id id
  nodes : ∀ {id}, ReflTransGen cx.Operand root id →
    ∃ node, cx.graph.get? id = some node ∧ cx.Arithmetic node
  distinct : ∀ {i j p q}, cx.ParamBelow root i p → cx.ParamBelow root j q →
    Identifier.ofName p.name = Identifier.ofName q.name → i = j
  unreserved : ∀ {i p}, cx.ParamBelow root i p → ∀ t : Temp, Identifier.ofName p.name ≠ t.name

end Context

variable {cx : Context} {root : NodeId} {s s' : Emitter}

theorem operand_of_demands {a b : NodeId} (h : Demands cx s a b) : cx.Operand a b := by
  obtain ⟨-, node, hnode, hb⟩ := h
  have hsubset : cx.evaluated node ⊆ node.operands := by
    unfold Context.evaluated
    split_ifs
    · exact List.nil_subset _
    · exact List.drop_subset 1 _
    · exact List.Subset.refl _
  simpa [Context.Operand, Graph.operands, hnode] using hsubset hb

theorem evaluated_of_arithmetic {node : Node} (h : cx.Arithmetic node) :
    cx.evaluated node = node.operands := by
  cases h with
  | int | long | param => rfl
  | @unary kind op ty a h =>
    cases kind with
    | negate | convert => rfl
    | _ => cases h
  | @pair kind op ty a b h =>
    cases kind with
    | binary | compare | threeWay => rfl
    | _ => cases h

/-- Neither a phi nor an allocation is arithmetic. -/
theorem kind_of_arithmetic {node : Node} (h : cx.Arithmetic node) :
    node.kind.isPhi = false ∧ node.kind ≠ .newArray := by
  cases h with
  | int | long | param => exact ⟨rfl, by simp⟩
  | @unary kind op ty a h =>
    cases kind with
    | negate | convert => exact ⟨rfl, by simp⟩
    | _ => cases h
  | @pair kind op ty a b h =>
    cases kind with
    | binary | compare | threeWay => exact ⟨rfl, by simp⟩
    | _ => cases h

/-! ### Values by recursion on the operands -/

/-- A meaning of constants and operations; an operation may depend on the type of its result. -/
structure Interpretation (α : Type u) where
  int : Int32 → α
  long : Int64 → α
  unary : UnaryOp → Ty → α → α
  pair : PairOp → Ty → α → α → α

/-- The value of a node, for given values of the parameters. -/
inductive Denotes {α : Type u} (cx : Context) (I : Interpretation α) (args : Nat → α) :
    NodeId → α → Prop
  | int {id : NodeId} {value : Int32} {ty : Ty}
      (h : cx.graph.get? id = some ⟨.int value, ty, []⟩) : Denotes cx I args id (I.int value)
  | long {id : NodeId} {value : Int64} {ty : Ty}
      (h : cx.graph.get? id = some ⟨.long value, ty, []⟩) : Denotes cx I args id (I.long value)
  | param {id : NodeId} {index : Nat} {ty : Ty}
      (h : cx.graph.get? id = some ⟨.param index, ty, []⟩) : Denotes cx I args id (args index)
  | unary {id a : NodeId} {kind : NodeKind} {op : UnaryOp} {ty : Ty} {x : α}
      (h : cx.graph.get? id = some ⟨kind, ty, [a]⟩) (hop : unaryOp? kind = some op)
      (ha : Denotes cx I args a x) : Denotes cx I args id (I.unary op ty x)
  | pair {id a b : NodeId} {kind : NodeKind} {op : PairOp} {ty : Ty} {x y : α}
      (h : cx.graph.get? id = some ⟨kind, ty, [a, b]⟩) (hop : pairOp? kind = some op)
      (ha : Denotes cx I args a x) (hb : Denotes cx I args b y) :
      Denotes cx I args id (I.pair op ty x y)

/-- A node has at most one value. -/
theorem Denotes.unique {α : Type u} {I : Interpretation α} {args : Nat → α} {id : NodeId} {x y : α}
    (hx : Denotes cx I args id x) (hy : Denotes cx I args id y) : x = y := by
  induction hx generalizing y with
  | int h =>
    cases hy with
    | int h' =>
      cases h.symm.trans h'
      rfl
    | long h' | param h' | unary h' | pair h' => cases h.symm.trans h'
  | long h =>
    cases hy with
    | long h' =>
      cases h.symm.trans h'
      rfl
    | int h' | param h' | unary h' | pair h' => cases h.symm.trans h'
  | param h =>
    cases hy with
    | param h' =>
      cases h.symm.trans h'
      rfl
    | int h' | long h' | unary h' | pair h' => cases h.symm.trans h'
  | unary h hop _ ih =>
    cases hy with
    | unary h' hop' ha' =>
      cases h.symm.trans h'
      cases hop.symm.trans hop'
      rw [ih ha']
    | int h' | long h' | param h' | pair h' => cases h.symm.trans h'
  | pair h hop _ _ iha ihb =>
    cases hy with
    | pair h' hop' ha' hb' =>
      cases h.symm.trans h'
      cases hop.symm.trans hop'
      rw [iha ha', ihb hb']
    | int h' | long h' | param h' | unary h' => cases h.symm.trans h'

/-! ### Terms and declarations -/

/-- An expression in names, with the types that operations depend on. -/
inductive Term
  | var (name : String)
  | int (value : Int32)
  | long (value : Int64)
  | unary (op : UnaryOp) (ty : Ty) (a : Term)
  | pair (op : PairOp) (ty : Ty) (a b : Term)

/-- How an operation is written. -/
def UnaryOp.expr (md : Metadata) (ty : Ty) : UnaryOp → Expr → Expr
  | .negate => .negate
  | .convert => .cast (md.typeName ty)

/-- How an operation is written. -/
def PairOp.expr (ty : Ty) : PairOp → Expr → Expr → Expr
  | .arithmetic op => Context.binary op ty
  | .compare op => .compare op
  | .threeWay mode => .threeWay mode

namespace Term

variable {α : Type u}

/-- The value of a term in a scope of names. -/
def eval (I : Interpretation α) (scope : String → Option α) : Term → Option α
  | var name => scope name
  | int value => some (I.int value)
  | long value => some (I.long value)
  | unary op ty a => (a.eval I scope).map (I.unary op ty)
  | pair op ty a b => (a.eval I scope).bind fun x => (b.eval I scope).map (I.pair op ty x)

/-- The expression that a term is written as. -/
def expr (md : Metadata) : Term → Expr
  | var name => .name name
  | int value => .int value
  | long value => .long value
  | unary op ty a => op.expr md ty (a.expr md)
  | pair op ty a b => op.expr ty (a.expr md) (b.expr md)

/-- The printed form of a term. -/
def text (md : Metadata) (t : Term) : String :=
  (t.expr md).render

end Term

/-- The declaration of a name with its value. -/
structure Definition where
  type : String
  name : String
  value : Term

/-- The line of a declaration. -/
def Definition.text (md : Metadata) (d : Definition) : String :=
  d.type ++ " " ++ d.name ++ " = " ++ d.value.text md ++ ";\n"

/-- Carry out declarations, first to last. -/
def execute {α : Type u} (I : Interpretation α) (scope : String → Option α)
    (defs : List Definition) : Option (String → Option α) :=
  defs.foldlM (fun scope d =>
    (d.value.eval I scope).map fun x => Function.update scope d.name (some x)) scope

theorem execute_concat {α : Type u} {I : Interpretation α} {scope scope' : String → Option α}
    {defs : List Definition} {d : Definition} {x : α} (hdefs : execute I scope defs = some scope')
    (hd : d.value.eval I scope' = some x) :
    execute I scope (defs ++ [d]) = some (Function.update scope' d.name (some x)) := by
  rw [execute] at hdefs
  rw [execute, List.foldlM_append, hdefs]
  simp [hd]

/-- The text of an operation depends on the text of its operand only. -/
theorem render_unary {md : Metadata} {ty : Ty} {op : UnaryOp} {a a' : Expr}
    (h : a.render = a'.render) : (op.expr md ty a).render = (op.expr md ty a').render := by
  cases op with
  | negate => exact congrArg (fun t => "(-" ++ t ++ ")") h
  | convert => exact congrArg (fun t => "((" ++ md.typeName ty ++ ")" ++ t ++ ")") h

/-- The text of an operation depends on the texts of its operands only. -/
theorem render_pair {ty : Ty} {op : PairOp} {a a' b b' : Expr} (ha : a.render = a'.render)
    (hb : b.render = b'.render) : (op.expr ty a b).render = (op.expr ty a' b').render := by
  cases op with
  | arithmetic op =>
    simp only [PairOp.expr, Context.binary]
    split
    · exact congrArg₂ (fun l r => "((int)((uint)" ++ l ++ " >> " ++ r ++ "))") ha hb
    · exact congrArg₂ (fun l r => "((long)((ulong)" ++ l ++ " >> " ++ r ++ "))") ha hb
    · exact congrArg₂ (fun l r => "(" ++ l ++ " " ++ op.symbol ++ " " ++ r ++ ")") ha hb
  | compare op =>
    exact congrArg₂ (fun l r => "(" ++ l ++ " " ++ op.symbol ++ " " ++ r ++ ")") ha hb
  | threeWay mode => exact congrArg₂ (Expr.threeWayText mode) ha hb

/-! ### What an arithmetic node becomes -/

theorem express_unary {id : NodeId} {kind : NodeKind} {op : UnaryOp} (h : unaryOp? kind = some op)
    (ty : Ty) (operands : List NodeId) (a : Expr) :
    cx.express id ⟨kind, ty, operands⟩ [a] = .ok (op.expr cx.metadata ty a) := by
  cases kind with
  | negate | convert =>
    obtain rfl := Option.some.inj h
    rfl
  | _ => cases h

theorem express_pair {id : NodeId} {kind : NodeKind} {op : PairOp} (h : pairOp? kind = some op)
    (ty : Ty) (operands : List NodeId) (a b : Expr) :
    cx.express id ⟨kind, ty, operands⟩ [a, b] = .ok (op.expr ty a b) := by
  cases kind with
  | binary | compare | threeWay =>
    obtain rfl := Option.some.inj h
    rfl
  | _ => cases h

theorem express_param (id : NodeId) {index : Nat} (h : index < cx.method.params.length) (ty : Ty)
    (operands : List NodeId) (args : List Expr) : ∃ p, cx.method.params[index]? = some p ∧
      cx.express id ⟨.param index, ty, operands⟩ args = .ok (.name (Identifier.ofName p.name)) := by
  obtain ⟨p, hp⟩ : ∃ p, cx.method.params[index]? = some p := ⟨_, List.getElem?_eq_getElem h⟩
  exact ⟨p, hp, by simp [Context.express, hp]⟩

/-! ### Evaluation succeeds -/

namespace Context.ArithmeticBelow

variable (hroot : cx.ArithmeticBelow root)

include hroot

theorem operands_eq {id : NodeId} {node : Node} (hid : ReflTransGen cx.Operand root id)
    (hnode : cx.graph.get? id = some node) :
    cx.evaluated node = node.operands ∧ cx.graph.operands id = node.operands := by
  obtain ⟨node', hnode', harith⟩ := hroot.nodes hid
  obtain rfl := Option.some.inj (hnode.symm.trans hnode')
  exact ⟨evaluated_of_arithmetic harith, operands_of_get? hnode⟩

/-- Demands are operands, and no node is below itself. -/
theorem ends (s : Emitter) (id : NodeId) : Ends cx s id := fun a _ hcycle =>
  hroot.acyclic a (TransGen.mono (fun _ _ => operand_of_demands) a a hcycle)

end Context.ArithmeticBelow

/-- An arithmetic node gets an expression from as many operands as it has. -/
theorem exists_express {id : NodeId} {node : Node} {args : List Expr} (h : cx.Arithmetic node)
    (hlen : args.length = node.operands.length) : ∃ e, cx.express id node args = .ok e := by
  cases h with
  | int | long => exact ⟨_, rfl⟩
  | param h =>
    obtain ⟨p, -, he⟩ := express_param id h _ _ args
    exact ⟨_, he⟩
  | unary h =>
    obtain ⟨a, rfl⟩ := List.length_eq_one_iff.1 hlen
    exact ⟨_, express_unary h _ _ a⟩
  | pair h =>
    obtain ⟨a, b, rfl⟩ := List.length_eq_two.1 hlen
    exact ⟨_, express_pair h _ _ a b⟩

/-- What has an expression becomes that expression. -/
theorem rendering_of_express {id : NodeId} {node : Node} {args : List Expr} {e : Expr}
    (he : cx.express id node args = .ok e) : cx.rendering id node args = .ok (.expr e) := by
  rw [Context.rendering]
  split
  · rename_i hkind
    rw [Context.express, hkind] at he
    cases he
  · rw [he]
    rfl

theorem exists_produce (id : NodeId) {node : Node} {args : List Value} (h : cx.Arithmetic node)
    (hlen : args.length = node.operands.length) (s : Emitter) :
    ∃ v s', produce cx id node args s = .ok v s' := by
  obtain ⟨e, he⟩ : ∃ e, cx.express id node (args.map Value.expr) = .ok e :=
    exists_express h (by simpa using hlen)
  obtain ⟨v, s', hsettle⟩ := exists_settle id node e (s.render id)
  refine ⟨v, s', ?_⟩
  simp only [produce, Emit.bind_ok, Emit.lift_ok, Emit.modify_ok]
  exact ⟨_, s, ⟨rendering_of_express he, rfl⟩, (), _, rfl, hsettle⟩

/-- One level of evaluation succeeds at an arithmetic node if the evaluation of its operands does. -/
theorem exists_evaluateBy_ok (hroot : cx.ArithmeticBelow root) {id : NodeId}
    (hid : ReflTransGen cx.Operand root id) {f : NodeId → Emit Value}
    (hf : ∀ operand, Demands cx {} id operand → ∀ s, ∃ v s', f operand s = .ok v s')
    (s : Emitter) : ∃ v s', evaluateBy cx f id s = .ok v s' := by
  rw [evaluateBy_eq]
  cases s.value? id with
  | some v => exact ⟨v, s, rfl⟩
  | none =>
    obtain ⟨node, hnode, harith⟩ := hroot.nodes hid
    obtain ⟨args, s₁, hargs⟩ := Emit.exists_mapM_ok
      (fun operand hoperand => hf operand ⟨rfl, node, hnode, hoperand⟩) s
    have hlen : args.length = node.operands.length :=
      evaluated_of_arithmetic harith ▸ Emit.length_of_mapM_ok hargs
    obtain ⟨v, s', hprod⟩ := exists_produce id harith hlen s₁
    refine ⟨v, s', ?_⟩
    simp only [hnode]
    rw [Emit.bind_of_ok hargs, hprod]

/-- The induction is on the number of nodes below, counted as if no node had a name: an operand has
fewer of them. -/
theorem exists_evaluate (hroot : cx.ArithmeticBelow root) {id : NodeId}
    (hid : ReflTransGen cx.Operand root id) (s : Emitter) :
    ∃ v s', evaluate cx id s = .ok v s' := by
  induction hn : (demanded cx {} id).card using Nat.strongRecOn generalizing id s with
  | _ n ih =>
    rw [recursive_evaluate id s (hroot.ends s id)]
    refine exists_evaluateBy_ok hroot hid (fun operand hdemanded s => ?_) s
    have hlt := (hroot.ends {} id).card_demanded_lt hdemanded
    exact ih _ (hn ▸ hlt) (hid.tail (operand_of_demands hdemanded)) s rfl

/-! ### Names hold values -/

section meaning

variable {α : Type u} {I : Interpretation α} {args : Nat → α} {scope : String → Option α}

/-- The parameters below a node have their values in a scope. -/
def Context.Enters (cx : Context) (root : NodeId) (args : Nat → α) (scope : String → Option α) :
    Prop :=
  ∀ i p, cx.ParamBelow root i p → scope (Identifier.ofName p.name) = some (args i)

open Classical in
/-- Parameters with different identifiers can have any values. -/
theorem Context.ArithmeticBelow.exists_enters (hroot : cx.ArithmeticBelow root) (args : Nat → α) :
    ∃ scope, cx.Enters root args scope := by
  refine ⟨fun name => if h : ∃ i p, cx.ParamBelow root i p ∧ Identifier.ofName p.name = name then
    some (args h.choose) else none, fun i p hp => ?_⟩
  have h : ∃ j q, cx.ParamBelow root j q ∧ Identifier.ofName q.name = Identifier.ofName p.name :=
    ⟨i, p, hp, rfl⟩
  obtain ⟨q, hq, hname⟩ := h.choose_spec
  dsimp only
  rw [dif_pos h, hroot.distinct hq hp hname]

/-- In a scope the parameters have their values, and so has every node below `root` that the emitter
has a name for. -/
structure Holds (cx : Context) (root : NodeId) (I : Interpretation α) (args : Nat → α) (s : Emitter)
    (scope : String → Option α) : Prop where
  enters : cx.Enters root args scope
  values : ∀ {id v}, ReflTransGen cx.Operand root id → s.value? id = some v →
    ∃ t x, v.expr = .temp t ∧ scope t.name = some x ∧ Denotes cx I args id x

theorem Holds.mono (h : Holds cx root I args s' scope)
    (hnames : ∀ {id v}, s.value? id = some v → s'.value? id = some v) :
    Holds cx root I args s scope :=
  ⟨h.enters, fun hid hv => h.values hid (hnames hv)⟩

end meaning

/-- A term has the value of a node in every scope that goes with the emitter. -/
def Computes (cx : Context) (root : NodeId) (s : Emitter) (term : Term) (id : NodeId) : Prop :=
  ∀ {α : Type u} {I : Interpretation α} {args : Nat → α} {scope : String → Option α},
    Holds cx root I args s scope → ∃ x, term.eval I scope = some x ∧ Denotes cx I args id x

/-- The value of a node is printed as a term that computes it. -/
def Expresses (cx : Context) (root : NodeId) (s : Emitter) (id : NodeId) (v : Value) : Prop :=
  ∃ term, v.expr.render = term.text cx.metadata ∧ Computes.{u} cx root s term id

/-- The rows written so far are declarations, and carrying them out gives a scope that goes with the
emitter. -/
structure Translated (cx : Context) (root : NodeId) (s : Emitter) (defs : List Definition) :
    Prop where
  rows : s.rows.map Row.render = defs.map (Definition.text cx.metadata)
  indent : s.indent = 0
  flat : s.isNested = false
  numbered : Numbered cx s
  runs : ∀ (α : Type u) (I : Interpretation α) (args : Nat → α) (scope : String → Option α),
    cx.Enters root args scope →
      ∃ scope', execute I scope defs = some scope' ∧ Holds cx root I args s scope'

theorem Expresses.mono {id : NodeId} {v : Value} (h : Expresses.{u} cx root s id v)
    (hnames : ∀ {id v}, s.value? id = some v → s'.value? id = some v) :
    Expresses.{u} cx root s' id v := by
  obtain ⟨term, htext, hterm⟩ := h
  exact ⟨term, htext, fun hscope => hterm (hscope.mono hnames)⟩

/-- The name of a node computes it. -/
theorem expresses_name {id : NodeId} {v : Value} {t : Temp} (hid : ReflTransGen cx.Operand root id)
    (hv : s.value? id = some v) (ht : v.expr = .temp t) : Expresses.{u} cx root s id v := by
  refine ⟨.var t.name, by rw [ht]; rfl, fun hscope => ?_⟩
  obtain ⟨t', x, ht', hx, hdenotes⟩ := hscope.values hid hv
  obtain rfl := Expr.temp.inj (ht.symm.trans ht')
  exact ⟨x, hx, hdenotes⟩

/-- The expression of a node computes it if those of its operands do. -/
theorem computes_express {id : NodeId} {node : Node} {vs : List Value} {e : Expr}
    (hid : ReflTransGen cx.Operand root id) (hnode : cx.graph.get? id = some node)
    (harith : cx.Arithmetic node)
    (hvs : List.Forall₂ (Expresses.{u} cx root s) node.operands vs)
    (he : cx.express id node (vs.map Value.expr) = .ok e) :
    ∃ term, e.render = term.text cx.metadata ∧ Computes.{u} cx root s term id := by
  cases harith with
  | @int value =>
    obtain rfl := Except.ok.inj he
    exact ⟨.int value, rfl, fun _ => ⟨_, rfl, .int hnode⟩⟩
  | @long value =>
    obtain rfl := Except.ok.inj he
    exact ⟨.long value, rfl, fun _ => ⟨_, rfl, .long hnode⟩⟩
  | @param index ty h =>
    obtain ⟨p, hp, hname⟩ := express_param id h ty [] (vs.map Value.expr)
    obtain rfl := Except.ok.inj (hname.symm.trans he)
    exact ⟨.var (Identifier.ofName p.name), rfl,
      fun hscope => ⟨_, hscope.enters index p ⟨id, ty, [], hid, hnode, hp⟩, .param hnode⟩⟩
  | @unary kind op ty a h =>
    obtain ⟨v, _, ⟨term, htext, hterm⟩, hnil, rfl⟩ := List.forall₂_cons_left_iff.1 hvs
    cases hnil
    obtain rfl := Except.ok.inj ((express_unary h ty [a] v.expr).symm.trans he)
    refine ⟨.unary op ty term, render_unary htext, fun hscope => ?_⟩
    obtain ⟨x, hx, hdenotes⟩ := hterm hscope
    exact ⟨_, by rw [Term.eval, hx]; rfl, .unary hnode h hdenotes⟩
  | @pair kind op ty a b h =>
    obtain ⟨v, _, ⟨term, htext, hterm⟩, hrest, rfl⟩ := List.forall₂_cons_left_iff.1 hvs
    obtain ⟨w, _, ⟨term', htext', hterm'⟩, hnil, rfl⟩ := List.forall₂_cons_left_iff.1 hrest
    cases hnil
    obtain rfl := Except.ok.inj ((express_pair h ty [a, b] v.expr w.expr).symm.trans he)
    refine ⟨.pair op ty term term', render_pair htext htext', fun hscope => ?_⟩
    obtain ⟨x, hx, hdenotes⟩ := hterm hscope
    obtain ⟨y, hy, hdenotes'⟩ := hterm' hscope
    exact ⟨_, by rw [Term.eval, hx, hy]; rfl, .pair hnode h hdenotes hdenotes'⟩

/-! ### Evaluation writes what it means -/

namespace Translated

variable {defs : List Definition} {id : NodeId}

theorem start (hroot : cx.ArithmeticBelow root) : Translated.{u} cx root (Emitter.start cx) [] := by
  have hrows : (Emitter.start cx).rows = [] := List.map_eq_nil_iff.1 (Emitter.lines_start cx)
  refine ⟨by rw [hrows]; rfl, ?_, ?_, .start, fun α I args scope hscope => ?_⟩
  · exact Emitter.declarePhis_induct (P := fun s => s.indent = 0) rfl fun _ h => h
  · rw [Emitter.isNested, Emitter.scopes_start]
    rfl
  · refine ⟨scope, rfl, hscope, fun {id v} hid hv => ?_⟩
    -- only phis have names yet, and none is arithmetic
    obtain ⟨phi, hphi, rfl, -⟩ := Emitter.value?_start hv
    obtain ⟨node, hnode, harith⟩ := hroot.nodes hid
    rw [get?_of_mem_phis hphi] at hnode
    obtain rfl := Option.some.inj hnode
    cases (kind_of_arithmetic harith).1

theorem render (h : Translated.{u} cx root s defs) (id : NodeId) :
    Translated.{u} cx root (s.render id) defs :=
  ⟨h.rows, h.indent, h.flat, h.numbered.congr rfl rfl fun hv => hv, fun α I args scope hscope => by
    obtain ⟨scope', hrun, hholds⟩ := h.runs α I args scope hscope
    exact ⟨scope', hrun, hholds.mono fun hv => hv⟩⟩

/-- A node that is kept gets a declaration, whose name is new. -/
theorem materialize (hroot : cx.ArithmeticBelow root) (h : Translated.{u} cx root s defs)
    {e : Expr} {term : Term} (hbelow : s.Below e)
    (htext : e.render = term.text cx.metadata) (hterm : Computes.{u} cx root s term id) (ty : Ty)
    (keep : Bool) :
    Translated.{u} cx root (s.materialize cx id ty e keep)
      (defs ++ [⟨cx.metadata.declaredType ty, (s.nextTemp .var).name, term⟩]) := by
  have hline : s.keepLine cx id ty e keep =
      .define id (cx.metadata.declaredType ty) (s.nextTemp .var) e := by
    rw [Emitter.keepLine, Emitter.isApart, h.flat, Bool.and_false]
    rfl
  refine ⟨?_, ?_, ?_, h.numbered.materialize id ty keep hbelow, fun α I args scope hscope => ?_⟩
  · rw [Emitter.materialize_eq, List.map_append, List.map_append, h.rows, hline, h.indent]
    congr 1
    simp [Row.render, indentation, Line.render, Definition.text, htext, String.append_assoc]
  · rw [Emitter.materialize_eq]
    exact h.indent
  · have hflat := h.flat
    rw [Emitter.isNested] at hflat ⊢
    rw [Emitter.materialize_eq]
    cases keep <;> simpa using hflat
  · obtain ⟨scope', hrun, hholds⟩ := h.runs α I args scope hscope
    obtain ⟨x, hx, hdenotes⟩ := hterm hholds
    refine ⟨_, execute_concat hrun hx, fun i p hp => ?_, fun {j v} hj hv => ?_⟩
    · rw [Function.update_of_ne (hroot.unreserved hp _)]
      exact hholds.enters i p hp
    · rw [Emitter.value?_materialize] at hv
      split_ifs at hv with heq
      · obtain rfl := Option.some.inj hv
        exact ⟨_, x, rfl, Function.update_self _ _ _, heq ▸ hdenotes⟩
      · obtain ⟨t, y, ht, hy, hdenotes'⟩ := hholds.values hj hv
        refine ⟨t, y, ht, ?_, hdenotes'⟩
        -- the temporary of another node was handed out before
        have hne : t.name ≠ (s.nextTemp .var).name := by
          intro hname
          obtain ⟨t', ht', hindex, -⟩ := h.numbered.values hv
          obtain rfl := Expr.temp.inj (ht.symm.trans ht')
          rw [Temp.name_injective hname] at hindex
          exact Nat.lt_irrefl _ hindex
        rw [Function.update_of_ne hne]
        exact hy

/-- Rendering a node whose operands are expressed. -/
theorem produced (hroot : cx.ArithmeticBelow root) (h : Translated.{u} cx root s defs)
    (hid : ReflTransGen cx.Operand root id) {node : Node} {vs : List Value} {v : Value}
    (hnode : cx.graph.get? id = some node)
    (hvs : List.Forall₂ (Expresses.{u} cx root s) (cx.evaluated node) vs)
    (hbelow : ∀ a ∈ vs, s.Below a.expr) (hprod : Produced cx id node vs s v s') :
    ∃ more, Translated.{u} cx root s' (defs ++ more) ∧ Expresses.{u} cx root s' id v := by
  obtain ⟨node', hnode', harith⟩ := hroot.nodes hid
  obtain rfl := Option.some.inj (hnode.symm.trans hnode')
  rw [evaluated_of_arithmetic harith] at hvs
  have hvalue := hprod.value? id
  cases hprod with
  | inline he =>
    obtain ⟨term, htext, hterm⟩ := computes_express hid hnode harith hvs he
    exact ⟨[], by simpa using h.render id, term, htext,
      fun hscope => hterm (hscope.mono fun hv => hv)⟩
  | @kept e he hk =>
    obtain ⟨term, htext, hterm⟩ := computes_express hid hnode harith hvs he
    have hexpr : (s.render id).Below e := by
      intro t ht
      obtain ⟨a, ha, hta⟩ := temps_express he ht
      obtain ⟨arg, harg, rfl⟩ := List.mem_map.1 ha
      exact hbelow arg harg t hta
    refine ⟨_, (h.render id).materialize hroot hexpr htext
      (fun hscope => hterm (hscope.mono fun hv => hv)) _ _, ?_⟩
    exact expresses_name hid (hvalue.trans (if_pos ⟨rfl, hk⟩)) rfl
  | array hkind => exact absurd hkind (kind_of_arithmetic harith).2

end Translated

/-- Evaluation writes declarations and gives each node a term that computes it. -/
theorem Evaluates.translated (hroot : cx.ArithmeticBelow root) {ids : List NodeId} {vs : List Value}
    (h : Evaluates cx ids s vs s') (hids : ∀ id ∈ ids, ReflTransGen cx.Operand root id)
    {defs : List Definition} (hs : Translated.{u} cx root s defs) :
    ∃ more, Translated.{u} cx root s' (defs ++ more) ∧
      List.Forall₂ (Expresses.{u} cx root s') ids vs := by
  induction h generalizing defs with
  | nil s => exact ⟨[], by simpa using hs, .nil⟩
  | @known id rest s s' v vs hv hrest ih =>
    obtain ⟨more, hs', hvs⟩ := ih (fun j hj => hids j (List.mem_cons_of_mem _ hj)) hs
    obtain ⟨t, ht, -⟩ := hs.numbered.values hv
    have hname := expresses_name (hids id List.mem_cons_self) hv ht
    exact ⟨more, hs', .cons (hname.mono hrest.value?_of_some) hvs⟩
  | @render id node rest s s₁ s₂ s' args v vs hv hnode hargs hv₁ hprod hrest ihargs ihrest =>
    have hid := hids id List.mem_cons_self
    have hoperands : ∀ operand ∈ cx.evaluated node, ReflTransGen cx.Operand root operand := by
      intro operand hoperand
      obtain ⟨hevaluated, hops⟩ := hroot.operands_eq hid hnode
      rw [hevaluated, ← hops] at hoperand
      exact hid.tail hoperand
    obtain ⟨more₁, hs₁, hargs'⟩ := ihargs hoperands hs
    have hbelow := (hs.numbered.evaluates hargs).2.2
    obtain ⟨more₂, hs₂, hexpresses⟩ := hs₁.produced hroot hid hnode hargs' hbelow hprod
    obtain ⟨more₃, hs', hvs⟩ := ihrest (fun j hj => hids j (List.mem_cons_of_mem _ hj)) hs₂
    refine ⟨more₁ ++ more₂ ++ more₃, by simpa using hs', .cons ?_ hvs⟩
    exact hexpresses.mono hrest.value?_of_some

/-- Evaluating an arithmetic node at the start succeeds. What is written are declarations, and the
returned expression is a term, such that carrying out the declarations and then evaluating the term
gives the value that the node has by recursion on its operands. -/
theorem evaluate_keeps_value (hroot : cx.ArithmeticBelow root) :
    ∃ (v : Value) (s' : Emitter) (defs : List Definition) (result : Term),
      evaluate cx root (Emitter.start cx) = .ok v s' ∧
      s'.rows.map Row.render = defs.map (Definition.text cx.metadata) ∧
      v.expr.render = result.text cx.metadata ∧
      ∀ (α : Type u) (I : Interpretation α) (args : Nat → α),
        (∃ scope, cx.Enters root args scope) ∧
        ∀ scope, cx.Enters root args scope →
          ∃ x, (∀ y, Denotes cx I args root y ↔ y = x) ∧
            (execute I scope defs).bind (result.eval I) = some x := by
  obtain ⟨v, s', hok⟩ := exists_evaluate hroot .refl (Emitter.start cx)
  have hids : ∀ id ∈ [root], ReflTransGen cx.Operand root id := by
    intro id hid
    rw [List.mem_singleton.1 hid]
  obtain ⟨defs, hs', hvs⟩ :=
    (evaluates_of_ok hok).translated hroot hids (.start hroot)
  obtain ⟨⟨result, htext, hresult⟩, -⟩ := List.forall₂_cons.1 hvs
  refine ⟨v, s', defs, result, hok, hs'.rows, htext, fun α I args => ⟨hroot.exists_enters args, ?_⟩⟩
  intro scope hscope
  obtain ⟨scope', hrun, hholds⟩ := hs'.runs α I args scope hscope
  obtain ⟨x, hx, hdenotes⟩ := hresult hholds
  refine ⟨x, fun y => ⟨fun hy => hy.unique hdenotes, fun hy => hy ▸ hdenotes⟩, ?_⟩
  rw [List.nil_append] at hrun
  rw [hrun]
  exact hx

/-- The square of a sum, converted and added to itself: two nodes are used twice. -/
def squaredSum : Context where
  cls := { name := ⟨"Kernel"⟩ }
  method :=
    { name := "run"
      params := [⟨"a", .int⟩, ⟨"b", .int⟩]
      graph := ⟨#[.param 0 .int, .param 1 .int, ⟨.binary .add, .int, [0, 1]⟩,
        ⟨.binary .mul, .int, [2, 2]⟩, .convert 3 .long, ⟨.binary .add, .long, [4, 3]⟩]⟩ }

/-- Sums and products of integers of any size. -/
def integers : Interpretation Int where
  int := Int32.toInt
  long := Int64.toInt
  unary
    | .negate, _, x => -x
    | .convert, _, x => x
  pair
    | .arithmetic .mul, _, x, y => x * y
    | _, _, x, y => x + y

theorem lt_of_operand_squaredSum {id operand : NodeId} (h : squaredSum.Operand id operand) :
    operand < id := by
  have hall : ∀ id < 6, ∀ operand ∈ squaredSum.graph.operands id, operand < id := by decide
  by_cases hid : id < 6
  · exact hall id hid operand h
  · have hnone : squaredSum.graph.get? id = none := Array.getElem?_eq_none (Nat.le_of_not_lt hid)
    simp [Context.Operand, Graph.operands, hnone] at h

theorem arithmeticBelow_squaredSum : squaredSum.ArithmeticBelow 5 := by
  have hparam : ∀ {i p}, squaredSum.ParamBelow 5 i p →
      i = 0 ∧ p = ⟨"a", .int⟩ ∨ i = 1 ∧ p = ⟨"b", .int⟩ := by
    rintro i p ⟨id, ty, operands, -, -, hp⟩
    match i with
    | 0 => exact .inl ⟨rfl, (Option.some.inj hp).symm⟩
    | 1 => exact .inr ⟨rfl, (Option.some.inj hp).symm⟩
    | i + 2 => cases hp
  have hdown : ∀ {a b}, TransGen squaredSum.Operand a b → b < a := by
    intro a b hab
    induction hab with
    | single h => exact lt_of_operand_squaredSum h
    | tail _ h ih => exact Nat.lt_trans (lt_of_operand_squaredSum h) ih
  refine ⟨fun id hcycle => Nat.lt_irrefl id (hdown hcycle), fun {id} hid => ?_,
    fun {i j p q} hp hq hname => ?_, fun {i p} hp t hname => ?_⟩
  · have hle : id ≤ 5 := by
      rcases reflTransGen_iff_eq_or_transGen.1 hid with rfl | hlt
      · exact Nat.le_refl _
      · exact Nat.le_of_lt (hdown hlt)
    match id, hle with
    | 0, _ | 1, _ => exact ⟨_, rfl, .param (by decide)⟩
    | 2, _ | 3, _ | 5, _ => exact ⟨_, rfl, .pair rfl⟩
    | 4, _ => exact ⟨_, rfl, .unary rfl⟩
  · rcases hparam hp with ⟨rfl, rfl⟩ | ⟨rfl, rfl⟩ <;>
      rcases hparam hq with ⟨rfl, rfl⟩ | ⟨rfl, rfl⟩
    · rfl
    · exact absurd hname (by decide)
    · exact absurd hname (by decide)
    · rfl
  · -- the names of temporaries have more than one letter
    have hlength : (Identifier.ofName p.name).toList.length = 1 := by
      rcases hparam hp with ⟨-, rfl⟩ | ⟨-, rfl⟩ <;> decide
    rw [hname] at hlength
    obtain ⟨kind, index⟩ := t
    cases kind <;> simp [Temp.name] at hlength

theorem evaluate_keeps_value_squaredSum :
    ∃ (v : Value) (s' : Emitter) (defs : List Definition) (result : Term),
      evaluate squaredSum 5 (Emitter.start squaredSum) = .ok v s' ∧
      s'.rows.map Row.render = defs.map (Definition.text squaredSum.metadata) ∧
      v.expr.render = result.text squaredSum.metadata ∧
      ∃ scope, squaredSum.Enters 5 (fun i => if i = 0 then 3 else 4) scope ∧
        (execute integers scope defs).bind (result.eval integers) = some 98 := by
  obtain ⟨v, s', defs, result, hok, hrows, htext, hmeaning⟩ :=
    evaluate_keeps_value.{0} arithmeticBelow_squaredSum
  let args (i : Nat) : Int := if i = 0 then 3 else 4
  obtain ⟨⟨scope, hscope⟩, hruns⟩ := hmeaning Int integers args
  obtain ⟨x, hunique, hx⟩ := hruns scope hscope
  have hsum : ∃ y, Denotes squaredSum integers args 2 y ∧ y = 7 :=
    ⟨_, .pair rfl rfl (.param rfl) (.param rfl), rfl⟩
  obtain ⟨_, hsum, rfl⟩ := hsum
  have hsquare : ∃ y, Denotes squaredSum integers args 3 y ∧ y = 49 :=
    ⟨_, .pair rfl rfl hsum hsum, rfl⟩
  obtain ⟨_, hsquare, rfl⟩ := hsquare
  have hvalue : ∃ y, Denotes squaredSum integers args 5 y ∧ y = 98 :=
    ⟨_, .pair rfl rfl (.unary rfl rfl hsquare) hsquare, rfl⟩
  obtain ⟨_, hvalue, rfl⟩ := hvalue
  obtain rfl := (hunique 98).1 hvalue
  exact ⟨v, s', defs, result, hok, hrows, htext, scope, hscope, hx⟩

end KernelForge.Source
