import KernelForge.Proofs.Naming
import KernelForge.Proofs.Units

/-!
# Calls inside a unit

Every call in the text of a function is written for a call node of its method (`Origin`). A call of a
method of the kernel class names a function of the unit, unless it resolves to a constructor, of which
no function is made. A helper has its prototype before every definition and takes its arguments in the
order in which calls pass them; the entry function has no prototype and takes the kernel arguments
first.
-/

namespace KernelForge.Source

/-! ### Calls in expressions and lines -/

namespace Expr

mutual

/-- The calls in an expression, each with its arguments. -/
def calls : Expr → List (String × List Expr)
  | temp _ | name _ | int _ | long _ | float _ | double _ | string _ => []
  | negate value | cast _ value | member value _ => value.calls
  | binary _ lhs rhs | shiftUnsigned _ lhs rhs | compare _ lhs rhs | threeWay _ lhs rhs
  | element lhs rhs | assign lhs rhs => lhs.calls ++ rhs.calls
  | call function args => (function, args) :: callsAll args
  | vector _ args => callsAll args

/-- The calls in several expressions. -/
def callsAll : List Expr → List (String × List Expr)
  | [] => []
  | e :: rest => e.calls ++ callsAll rest

end

theorem callsAll_eq (es : List Expr) : callsAll es = es.flatMap calls := by
  induction es with
  | nil => rfl
  | cons e rest ih => rw [callsAll, ih, List.flatMap_cons]

theorem collects_calls : Collects calls fun function args => [(function, args)] := by
  constructor <;> intros <;> simp [calls, callsAll_eq]

end Expr

/-- The calls in a line. -/
def Line.calls (l : Line) : List (String × List Expr) :=
  l.exprs.flatMap Expr.calls

/-- The node that a call is written for, with the expressions of its operands. -/
structure Origin (cx : Context) (c : String × List Expr) where
  id : NodeId
  node : Node
  target : Invocation
  operands : List Expr
  hnode : cx.graph.get? id = some node
  hkind : node.kind = .invoke target
  hoperands : operands.length = (cx.evaluated node).length
  hcall : cx.call id node target operands = .ok (.call c.1 c.2)

variable {cx : Context}

/-- Every call in an expression is written for a node. -/
def Traced (cx : Context) (e : Expr) : Prop :=
  ∀ c ∈ e.calls, Nonempty (Origin cx c)

theorem traced_temp (t : Temp) : Traced cx (.temp t) := by
  intro c hc
  rw [Expr.calls] at hc
  cases hc

theorem traced_express {id : NodeId} {node : Node} {args : List Expr} {e : Expr}
    (hnode : cx.graph.get? id = some node) (hlen : args.length = (cx.evaluated node).length)
    (hargs : ∀ a ∈ args, Traced cx a) (h : cx.express id node args = .ok e) : Traced cx e := by
  intro c hc
  obtain ⟨a, ha, hca⟩ | ⟨target, function, passed, hkind, rfl, hx⟩ :=
    mem_of_express Expr.collects_calls h hc
  · exact hargs a ha c hca
  · obtain rfl := List.mem_singleton.1 hx
    rw [Context.express, hkind] at h
    exact ⟨⟨id, node, target, args, hnode, hkind, hlen, h⟩⟩

theorem Spells.length_eq {named : NodeId → Temp → Prop} {ids : List NodeId} {es : List Expr}
    (h : Spells cx named ids es) : es.length = ids.length := by
  induction h with
  | nil => rfl
  | name _ _ ih => simp [ih]
  | inline _ _ _ _ _ _ ih => simp [ih]

theorem Spells.traced {named : NodeId → Temp → Prop} {ids : List NodeId} {es : List Expr}
    (h : Spells cx named ids es) : ∀ e ∈ es, Traced cx e := by
  induction h with
  | nil => simp
  | name _ _ ih => exact List.forall_mem_cons.2 ⟨traced_temp _, ih⟩
  | inline hnode _ hargs he _ ihargs ihrest =>
    exact List.forall_mem_cons.2 ⟨traced_express hnode hargs.length_eq ihargs he, ihrest⟩

theorem Line.Spelled.traced {named : NodeId → Temp → Prop} {roots : List NodeId}
    {staged : List Temp} {l : Line} (h : l.Spelled cx named roots staged) :
    ∀ c ∈ l.calls, Nonempty (Origin cx c) := by
  have hspells : ∀ {e}, (∃ id ∈ roots, Spells cx named [id] [e]) → Traced cx e :=
    fun ⟨_, _, h⟩ => h.traced _ (List.mem_singleton_self _)
  have hbecomes : ∀ {id e}, Becomes cx named id e → Traced cx e :=
    fun ⟨_, _, hnode, hargs, he⟩ => traced_express hnode hargs.length_eq hargs.traced he
  have hcalls : ∀ {e : Expr}, l.exprs = [e] → Traced cx e →
      ∀ c ∈ l.calls, Nonempty (Origin cx c) := by
    intro e hexprs he
    rwa [Line.calls, hexprs, List.flatMap_singleton]
  have hnone : l.exprs = [] → ∀ c ∈ l.calls, Nonempty (Origin cx c) := by
    intro hexprs
    simp [Line.calls, hexprs]
  cases l with
  | define | store | effect => exact hcalls rfl (hbecomes h)
  | stage | openIf | openSwitch => exact hcalls rfl (hspells h)
  | ret value =>
    cases value with
    | none => exact hnone rfl
    | some e => exact hcalls rfl (hspells h)
  | feed _ _ e =>
    refine hcalls rfl ?_
    obtain h | ⟨t, -, rfl⟩ := h
    · exact hspells h
    · exact traced_temp t
  | _ => exact hnone rfl

/-! ### Resolution -/

/-- The function that an item defines. -/
def Item.definition? : Item → Option Function
  | .definition f => some f
  | _ => none

/-- The functions that a unit defines, in order. -/
def functions (cls : KernelClass) (entry : Method) : List Function :=
  (items cls entry).filterMap Item.definition?

/-- The function that is made of a method, unless it is a constructor. -/
def functionOf (m : Method) : Function :=
  ⟨if m.name = entryName then .entry else .helper, m⟩

section resolution

variable {cls : KernelClass} {entry m : Method}

theorem functions_eq (cls : KernelClass) (entry : Method) :
    functions cls entry = cls.helpers.map (⟨.helper, ·⟩) ++ [⟨.entry, entry⟩] := by
  have hpragma : (if cls.usesDouble then [Item.pragma, .blank] else []).filterMap
      Item.definition? = [] := by
    split <;> rfl
  have hprototypes : (prototypes cls).filterMap Item.definition? = [] := by
    unfold prototypes
    split <;> simp [Item.definition?]
  have hhelpers : ∀ ms : List Method,
      (ms.flatMap fun m => [Item.definition ⟨.helper, m⟩, .blank]).filterMap Item.definition? =
        ms.map (⟨.helper, ·⟩) := by
    intro ms
    induction ms with
    | nil => rfl
    | cons m ms ih =>
      rw [List.flatMap_cons, List.filterMap_append, ih]
      rfl
  simp [functions, items, hpragma, hprototypes, hhelpers, Item.definition?]

theorem mem_functions {f : Function} :
    f ∈ functions cls entry ↔ .definition f ∈ items cls entry := by
  rw [functions, List.mem_filterMap]
  constructor
  · rintro ⟨i, hi, hf⟩
    cases i <;> cases hf
    exact hi
  · exact fun h => ⟨_, h, rfl⟩

theorem role_of_mem_functions {f : Function} (h : f ∈ functions cls entry) :
    f.role = .helper ∨ f = ⟨.entry, entry⟩ := by
  rw [functions_eq, List.mem_append, List.mem_singleton] at h
  refine h.imp_left fun h => ?_
  obtain ⟨m, -, rfl⟩ := List.mem_map.1 h
  rfl

theorem method_of_mem_functions {f : Function} (h : f ∈ functions cls entry) :
    f.method ∈ entry :: cls.helpers := by
  rw [functions_eq, List.mem_append, List.mem_singleton] at h
  obtain h | rfl := h
  · obtain ⟨m, hm, rfl⟩ := List.mem_map.1 h
    exact List.mem_cons_of_mem _ hm
  · exact List.mem_cons_self

theorem role_of_prototype {f : Function} (h : .prototype f ∈ items cls entry) :
    f.role = .helper := by
  simp only [items, prototypes, List.mem_append, List.mem_flatMap, List.mem_cons,
    List.not_mem_nil, reduceCtorEq, or_false, and_false] at h
  split_ifs at h <;> simp at h
  · obtain ⟨m, -, rfl⟩ := h
    rfl
  · obtain ⟨m, -, rfl⟩ := h
    rfl

theorem name_of_method? {name : String} (h : cls.method? name = some m) : m.name = name := by
  simpa using List.find?_some h

/-- The first method of the entry's name is the entry, unless it is a constructor. -/
theorem entry?_of_method? (h : cls.method? entryName = some m) (hm : m.isConstructor = false) :
    cls.entry? = some m := by
  have hname := name_of_method? h
  obtain ⟨-, before, after, hmethods, hbefore⟩ := List.find?_eq_some_iff_append.1 h
  refine List.find?_eq_some_iff_append.2 ⟨by simp [hname, hm], before, after, hmethods, ?_⟩
  intro m' hm'
  have hother := hbefore m' hm'
  simp_all

theorem mem_functions_of_method? {name : String} (hentry : cls.entry? = some entry)
    (h : cls.method? name = some m) (hm : m.isConstructor = false) :
    functionOf m ∈ functions cls entry := by
  obtain rfl := name_of_method? h
  rw [functions_eq, functionOf]
  split_ifs with hname
  · rw [hname] at h
    obtain rfl := Option.some.inj (hentry.symm.trans (entry?_of_method? h hm))
    simp
  · have hhelper : m ∈ cls.helpers :=
      List.mem_filter.2 ⟨List.mem_of_find?_eq_some h, by simp [hname, hm]⟩
    simp [hhelper]

/-- The prototype of a helper stands before every definition. -/
theorem prototype_before {f caller : Function} (hf : f ∈ functions cls entry)
    (hrole : f.role = .helper) {before after : List Item}
    (hitems : items cls entry = before ++ .definition caller :: after) :
    .prototype f ∈ before := by
  have hhelper : .prototype f ∈ prototypes cls := by
    rw [functions_eq, List.mem_append, List.mem_singleton] at hf
    obtain hf | rfl := hf
    · obtain ⟨m, hm, rfl⟩ := List.mem_map.1 hf
      have hnonempty : cls.helpers.isEmpty = false := by
        cases hempty : cls.helpers with
        | nil =>
          rw [hempty] at hm
          cases hm
        | cons => rfl
      rw [prototypes, hnonempty]
      simp [hm]
    · cases hrole
  -- no definition stands among the prototypes or before them
  have hfirst : .definition caller ∉
      (if cls.usesDouble then [Item.pragma, .blank] else []) ++ prototypes cls := by
    unfold prototypes
    split <;> split <;> simp
  rw [items, List.append_assoc] at hitems
  rcases List.append_eq_append_iff.1 hitems with ⟨mid, rfl, -⟩ | ⟨mid, hfront, hback⟩
  · simp [hhelper]
  · cases mid with
    | nil =>
      rw [List.append_nil] at hfront
      rw [← hfront]
      exact List.mem_append_right _ hhelper
    | cons i mid =>
      obtain rfl := (List.cons.inj hback).1
      exact absurd (hfront ▸ by simp) hfirst

end resolution

/-! ### Arguments and parameters -/

/-- What a call passes for a parameter: the operand in the place of an own parameter, or the name of
a kernel argument for that argument. -/
inductive Passes (operands : List Expr) (params : List Variable) : Expr → Parameter → Prop
  | own {i : Nat} {e : Expr} {v : Variable} (he : operands[i]? = some e)
      (hv : params[i]? = some v) : Passes operands params e (.own v)
  | argument (field : Variable) :
      Passes operands params (.name (Identifier.ofName field.name)) (.argument field)

theorem Passes.eq_name {operands : List Expr} {params : List Variable} {e : Expr}
    {field : Variable} (h : Passes operands params e (.argument field)) :
    e = .name (Identifier.ofName field.name) := by
  cases h
  rfl

theorem passes_own {operands : List Expr} {params : List Variable}
    (h : operands.length = params.length) :
    List.Forall₂ (Passes operands params) operands (params.map .own) := by
  refine List.forall₂_iff_get.2 ⟨by simp [h], fun i hi hi' => ?_⟩
  have hparam : i < params.length := h ▸ hi
  simpa using Passes.own (List.getElem?_eq_getElem hi) (List.getElem?_eq_getElem hparam)

theorem passes_forwarded (cx : Context) (operands : List Expr) (params : List Variable) :
    List.Forall₂ (Passes operands params) cx.forwarded (cx.cls.fields.map .argument) := by
  rw [Context.forwarded, List.forall₂_map_left_iff, List.forall₂_map_right_iff, List.forall₂_same]
  exact fun field _ => .argument field

/-- A call of a method of the kernel class resolves to one, and passes the operands and then the
kernel arguments. -/
theorem Origin.own {c : String × List Expr} (i : Origin cx c)
    (howner : i.target.owner = cx.cls.name) :
    ∃ m, cx.cls.method? i.target.method = some m ∧ c.1 = Identifier.ofName m.name ∧
      c.2 = i.operands ++ cx.forwarded := by
  have h := i.hcall
  simp only [Context.call] at h
  cases hm : cx.cls.method? i.target.method with
  | none =>
    rw [hm] at h
    split_ifs at h
  | some m =>
    rw [hm] at h
    split_ifs at h
    obtain ⟨hname, hargs⟩ := Expr.call.inj (Except.ok.inj h)
    exact ⟨m, rfl, hname.symm, hargs.symm⟩

/-- The call `c` in `caller`, with `operands` for its own parameters, agrees with the function
`callee` of the unit that it names. -/
structure Linked (cls : KernelClass) (entry : Method) (caller callee : Function)
    (operands : List Expr) (c : String × List Expr) : Prop where
  name : c.1 = callee.name
  defined : .definition callee ∈ items cls entry
  /-- The header declares the parameters. -/
  header : signature ⟨cls, callee.method⟩ callee.role = .ok (callee.result cls ++ " " ++
    callee.name ++ "(" ++
      parameterText ((callee.parameters cls).map (Parameter.declare cls.metadata)) ++ ")")
  /-- If no other function has its name. -/
  once : ∀ before after, functions cls entry = before ++ callee :: after →
    (∀ f ∈ before ++ after, f.name ≠ callee.name) →
      ((functions cls entry).map Function.name).count c.1 = 1
  declared : callee.role = .helper → ∀ before after,
    items cls entry = before ++ .definition caller :: after → .prototype callee ∈ before
  /-- In the entry function, the entry function itself is declared by its own header. -/
  recursive : callee.role = .entry → caller.role = .entry → callee = caller
  passes : callee.role = .helper ∨ cls.fields = [] ∨ callee.method.params = [] →
    operands.length = callee.method.params.length →
      List.Forall₂ (Passes operands callee.method.params) c.2 (callee.parameters cls)

section linked

variable {cls : KernelClass} {entry : Method}

theorem generate_ok {src : KernelSource} (h : generate cls = .ok src) :
    ∃ entry texts, cls.entry? = some entry ∧
      (items cls entry).mapM (Item.text cls) = .ok texts ∧ src.text = String.join texts := by
  obtain ⟨entry, texts, hentry, htexts, rfl⟩ := eq_of_generate h
  exact ⟨entry, texts, hentry, htexts, rfl⟩

/-- A definition that has a text has a header and a body. -/
theorem definition_ok {f : Function} {text : String}
    (h : (Item.definition f).text cls = .ok text) :
    (∃ header, signature ⟨cls, f.method⟩ f.role = .ok header) ∧
      ∃ out, emitBody ⟨cls, f.method⟩ = .ok out := by
  simp only [Item.text, bind, Except.bind] at h
  split at h
  · cases h
  · rename_i header hheader
    split at h
    · cases h
    · rename_i out hout
      exact ⟨⟨header, hheader⟩, out, hout⟩

theorem passes_callee {operands : List Expr} {f : Function}
    (hrole : f.role = .helper ∨ cls.fields = [] ∨ f.method.params = [])
    (hlen : operands.length = f.method.params.length) (caller : Method) :
    List.Forall₂ (Passes operands f.method.params)
      (operands ++ Context.forwarded ⟨cls, caller⟩) (f.parameters cls) := by
  have hown := passes_own hlen
  have hforwarded := passes_forwarded ⟨cls, caller⟩ operands f.method.params
  cases hf : f.role with
  | helper =>
    simp only [Function.parameters, hf]
    exact List.rel_append hown hforwarded
  | entry =>
    simp only [Function.parameters, hf]
    obtain hhelper | hfields | hparams := hrole
    · rw [hf] at hhelper
      cases hhelper
    · simpa [Context.forwarded, hfields] using hown
    · rw [hparams, List.length_nil, List.length_eq_zero_iff] at hlen
      simpa [hparams, hlen] using hforwarded

theorem count_name_eq_one {f : Function} {before after : List Function}
    (h : ∀ g ∈ before ++ after, g.name ≠ f.name) :
    ((before ++ f :: after).map Function.name).count f.name = 1 := by
  have hnone : f.name ∉ (before ++ after).map Function.name := by
    rw [List.mem_map]
    rintro ⟨g, hg, hname⟩
    exact h g hg hname
  have hcount := List.count_eq_zero_of_not_mem hnone
  rw [List.map_append, List.count_append] at hcount
  rw [List.map_append, List.map_cons, List.count_append, List.count_cons_self]
  omega

/-- A call of a method of the kernel class that does not resolve to a constructor is linked. -/
theorem Origin.linked {texts : List String} (hentry : cls.entry? = some entry)
    (htexts : (items cls entry).mapM (Item.text cls) = .ok texts) {caller : Function}
    (hcaller : caller ∈ functions cls entry) {c : String × List Expr}
    (i : Origin ⟨cls, caller.method⟩ c) (howner : i.target.owner = cls.name) :
    ∃ m, cls.method? i.target.method = some m ∧
      (m.isConstructor = false → Linked cls entry caller (functionOf m) i.operands c) := by
  obtain ⟨m, hm, hname, hargs⟩ := i.own howner
  refine ⟨m, hm, fun hconstructor => ?_⟩
  have hmem := mem_functions_of_method? hentry hm hconstructor
  have hname : c.1 = (functionOf m).name := hname
  refine ⟨hname, mem_functions.1 hmem, ?_, fun before after hfunctions hother => ?_,
    fun hrole before after hitems => prototype_before hmem hrole hitems,
    fun hcallee hcaller' => ?_, fun hrole hlen => ?_⟩
  · obtain ⟨text, -, htext⟩ := exists_mem_of_mapM_ok htexts (mem_functions.1 hmem)
    obtain ⟨⟨header, hheader⟩, -⟩ := definition_ok htext
    rw [hheader, signature_ok hheader]
  · rw [hname, hfunctions]
    exact count_name_eq_one hother
  · have hunique : ∀ f ∈ functions cls entry, f.role = .entry → f = ⟨.entry, entry⟩ := by
      intro f hf hrole
      exact (role_of_mem_functions hf).resolve_left (by simp [hrole])
    rw [hunique _ hmem hcallee, hunique _ hcaller hcaller']
  · rw [hargs]
    exact passes_callee hrole hlen caller.method

end linked

/-- In a generated unit every call is written for a call node, and every call of a method of the
kernel class that does not resolve to a constructor is linked. -/
theorem own_calls_linked {cls : KernelClass} {src : KernelSource} (h : generate cls = .ok src) :
    ∃ entry texts, cls.entry? = some entry ∧
      (items cls entry).mapM (Item.text cls) = .ok texts ∧ src.text = String.join texts ∧
      ∀ caller ∈ functions cls entry, ∃ out s,
        emitBody ⟨cls, caller.method⟩ = .ok out ∧ out.2 = s.text ∧
        Reached ⟨cls, caller.method⟩ (bodyEvents caller.method.body) [] s ∧
        ∀ l ∈ s.lines, ∀ c ∈ l.calls, Nonempty (Origin ⟨cls, caller.method⟩ c) ∧
          ∀ i : Origin ⟨cls, caller.method⟩ c, i.target.owner = cls.name →
            ∃ m, cls.method? i.target.method = some m ∧
              (m.isConstructor = false → Linked cls entry caller (functionOf m) i.operands c) := by
  obtain ⟨entry, texts, hentry, htexts, htext⟩ := generate_ok h
  refine ⟨entry, texts, hentry, htexts, htext, fun caller hcaller => ?_⟩
  obtain ⟨text, -, hdefinition⟩ := exists_mem_of_mapM_ok htexts (mem_functions.1 hcaller)
  obtain ⟨-, out, hout⟩ := definition_ok hdefinition
  obtain ⟨s, hs, hfinish⟩ := reached_of_emitBody hout
  exact ⟨out, s, hout, (finish_ok hfinish).2, hs, fun l hl c hc =>
    ⟨(hs.spelled l hl).traced c hc, fun i howner => i.linked hentry htexts hcaller howner⟩⟩

theorem exists_mapM_ok {α β ε : Type} {f : α → Except ε β} :
    ∀ {xs : List α}, (∀ x ∈ xs, ∃ y, f x = .ok y) → ∃ ys, xs.mapM f = .ok ys
  | [], _ => ⟨[], rfl⟩
  | x :: xs, h => by
    obtain ⟨y, hy⟩ := h x List.mem_cons_self
    obtain ⟨ys, hys⟩ := exists_mapM_ok fun x hx => h x (List.mem_cons_of_mem _ hx)
    exact ⟨y :: ys, by rw [List.mapM_cons, hy, hys]; rfl⟩

/-- A unit is generated if the entry returns nothing and the bodies of all functions are emitted. -/
theorem exists_generate {cls : KernelClass} {entry : Method} (hentry : cls.entry? = some entry)
    (hvoid : entry.returns.isVoid = true)
    (hbodies : ∀ m ∈ entry :: cls.helpers, ∃ out, emitBody ⟨cls, m⟩ = .ok out) :
    ∃ src, generate cls = .ok src := by
  have hheader : ∀ f : Function, f.role = .helper ∨ f = ⟨.entry, entry⟩ →
      ∃ header, signature ⟨cls, f.method⟩ f.role = .ok header := by
    rintro f (hrole | rfl)
    · exact ⟨_, by rw [hrole]; rfl⟩
    · exact ⟨_, by simp only [signature, hvoid]; rfl⟩
  have htext : ∀ i ∈ items cls entry, ∃ text, i.text cls = .ok text := by
    intro i hi
    cases i with
    | pragma | blank => exact ⟨_, rfl⟩
    | prototype f =>
      obtain ⟨header, hheader⟩ := hheader f (.inl (role_of_prototype hi))
      exact ⟨_, by rw [Item.text, hheader]; rfl⟩
    | definition f =>
      have hf := mem_functions.2 hi
      obtain ⟨header, hheader⟩ := hheader f (role_of_mem_functions hf)
      obtain ⟨out, hout⟩ := hbodies f.method (method_of_mem_functions hf)
      exact ⟨_, by rw [Item.text, hheader, hout]; rfl⟩
  obtain ⟨texts, htexts⟩ := exists_mapM_ok htext
  exact ⟨_, by rw [generate_eq, hentry]; simp only [htexts, bind, Except.bind]; rfl⟩

/-- An entry that calls a helper. -/
def startDoubled : Method where
  name := entryName
  params := [⟨"i", .int⟩]
  graph := ⟨#[.receiver ⟨"Kernel"⟩, .param 0 .int,
    .invoke ⟨.«virtual», ⟨"Kernel"⟩, "doubled"⟩ .int [0, 1]]⟩
  body := [.effect 2]

/-- A helper that calls another one. -/
def doubled : Method where
  name := "doubled"
  params := [⟨"i", .int⟩]
  returns := .int
  graph := ⟨#[.receiver ⟨"Kernel"⟩, .param 0 .int, .int 2,
    .invoke ⟨.«virtual», ⟨"Kernel"⟩, "times"⟩ .int [0, 1, 2], .ret (some 3)]⟩
  body := [.effect 3, .ret 4]

def times : Method where
  name := "times"
  params := [⟨"i", .int⟩, ⟨"n", .int⟩]
  returns := .int
  graph := ⟨#[.param 0 .int, .param 1 .int, ⟨.binary .mul, .int, [0, 1]⟩, .ret (some 2)]⟩
  body := [.ret 3]

/-- A class whose helpers are defined in the order in which they call each other. -/
def chained : KernelClass where
  name := ⟨"Kernel"⟩
  fields := [⟨"data", .array .int⟩]
  methods := [startDoubled, doubled, times]

theorem own_calls_linked_chained :
    ∃ src s, generate chained = .ok src ∧
      Reached ⟨chained, doubled⟩ (bodyEvents doubled.body) [] s ∧
      (∃ l ∈ s.lines, ("times", [.name "i", .int 2, .name "data"]) ∈ l.calls) ∧
      ((functions chained startDoubled).map Function.name).count "times" = 1 ∧
      (∀ before after,
        items chained startDoubled = before ++ .definition ⟨.helper, doubled⟩ :: after →
          .prototype ⟨.helper, times⟩ ∈ before) ∧
      List.Forall₂ (Passes [.name "i", .int 2] times.params) [.name "i", .int 2, .name "data"]
        (Function.parameters chained ⟨.helper, times⟩) := by
  have hhelpers : chained.helpers = [doubled, times] := by cbv
  have hentry : chained.entry? = some startDoubled := by cbv
  obtain ⟨src, hsrc⟩ : ∃ src, generate chained = .ok src := by
    refine exists_generate hentry rfl ?_
    rw [hhelpers]
    simp only [List.forall_mem_cons]
    exact ⟨exists_emitBody (by cbv), exists_emitBody (by cbv), exists_emitBody (by cbv), by simp⟩
  obtain ⟨entry, -, hentry', -, -, hcalls⟩ := own_calls_linked hsrc
  obtain rfl := Option.some.inj (hentry.symm.trans hentry')
  obtain ⟨-, s, -, -, hs, hlinked⟩ := hcalls ⟨.helper, doubled⟩ (by simp [functions_eq, hhelpers])
  have hlines : s.lines = [.define 3 "int" ⟨.var, 0⟩
      (.call "times" [.name "i", .int 2, .name "data"]), .ret (some (.temp ⟨.var, 0⟩))] :=
    eq_of_reached (f := Emitter.lines) hs (by cbv)
  have hline : Line.define 3 "int" ⟨.var, 0⟩ (.call "times" [.name "i", .int 2, .name "data"]) ∈
      s.lines := by simp [hlines]
  have hcall : ("times", [.name "i", .int 2, .name "data"]) ∈ (Line.define 3 "int" ⟨.var, 0⟩
      (.call "times" [.name "i", .int 2, .name "data"])).calls := by
    simp [Line.calls, Line.exprs, Expr.calls]
  obtain ⟨m, hm, hlink⟩ := (hlinked _ hline _ hcall).2
    ⟨3, .invoke ⟨.«virtual», ⟨"Kernel"⟩, "times"⟩ .int [0, 1, 2], _, [.name "i", .int 2], by cbv,
      rfl, by cbv, by cbv⟩ rfl
  have htimes : chained.method? "times" = some times := by cbv
  obtain rfl := Option.some.inj (htimes.symm.trans hm)
  have hlink := hlink rfl
  have hfunctions : functions chained startDoubled =
      [⟨.helper, doubled⟩] ++ ⟨.helper, times⟩ :: [⟨.entry, startDoubled⟩] := by
    rw [functions_eq, hhelpers]
    rfl
  exact ⟨src, s, hsrc, hs, ⟨_, hline, hcall⟩, hlink.once _ _ hfunctions (by decide),
    hlink.declared rfl, hlink.passes (.inl rfl) rfl⟩

/-- A helper that calls a constructor, the entry and a method with two definitions. -/
def again : Method where
  name := "again"
  params := [⟨"i", .int⟩]
  graph := ⟨#[.receiver ⟨"Kernel"⟩, .param 0 .int,
    .invoke ⟨.special, ⟨"Kernel"⟩, "<init>"⟩ .void [0],
    .invoke ⟨.«virtual», ⟨"Kernel"⟩, entryName⟩ .void [0, 1],
    .invoke ⟨.«virtual», ⟨"Kernel"⟩, "scale"⟩ .void [0, 1]]⟩
  body := [.effect 2, .effect 3, .effect 4]

def construct : Method where
  name := "<init>"
  isConstructor := true

def startAgain : Method where
  name := entryName
  params := [⟨"i", .int⟩]

def scale : Method where
  name := "scale"
  params := [⟨"i", .int⟩]

def scaleBy : Method where
  name := "scale"
  params := [⟨"i", .int⟩, ⟨"j", .int⟩]

/-- A class with a constructor, an entry that has a parameter, and two methods of one name. -/
def miscalled : KernelClass where
  name := ⟨"Kernel"⟩
  fields := [⟨"data", .array .int⟩]
  methods := [construct, startAgain, scale, scaleBy, again]

/-- The name of the function that an item declares. -/
def Item.declared? : Item → Option String
  | .prototype f | .definition f => some f.name
  | _ => none

/-- A call in the text of a function that is written for a call of a method of the class, with as
many operands as the method that it resolves to has parameters. -/
def IsOwnCall (cls : KernelClass) (caller : Method) (lines : List Line) (c : String × List Expr) :
    Prop :=
  (∃ l ∈ lines, c ∈ l.calls) ∧ ∃ i : Origin ⟨cls, caller⟩ c, i.target.owner = cls.name ∧
    ∃ m, cls.method? i.target.method = some m ∧ i.operands.length = m.params.length

/-- A helper calls the entry, which is declared nowhere before and takes its arguments in another
order; a method with two definitions; and a constructor, which has none. -/
theorem own_calls_open_miscalled :
    (∃ src, generate miscalled = .ok src) ∧
      ∃ s, Reached ⟨miscalled, again⟩ (bodyEvents again.body) [] s ∧
        (IsOwnCall miscalled again s.lines ("process_work_item", [.name "i", .name "data"]) ∧
          (∃ front, items miscalled startAgain = front ++ [.definition ⟨.entry, startAgain⟩] ∧
            .definition ⟨.helper, again⟩ ∈ front ∧
            "process_work_item" ∉ front.filterMap Item.declared?) ∧
          ¬ List.Forall₂ (Passes [.name "i"] startAgain.params) [.name "i", .name "data"]
            (Function.parameters miscalled ⟨.entry, startAgain⟩)) ∧
        (IsOwnCall miscalled again s.lines ("scale", [.name "i", .name "data"]) ∧
          ((functions miscalled startAgain).map Function.name).count "scale" = 2) ∧
        (IsOwnCall miscalled again s.lines ("_init_", [.name "data"]) ∧
          "_init_" ∉ (functions miscalled startAgain).map Function.name) := by
  have hhelpers : miscalled.helpers = [scale, scaleBy, again] := by cbv
  have hbodies : ∀ m ∈ startAgain :: miscalled.helpers,
      ∃ out, emitBody ⟨miscalled, m⟩ = .ok out := by
    rw [hhelpers]
    simp only [List.forall_mem_cons]
    exact ⟨exists_emitBody (by cbv), exists_emitBody (by cbv), exists_emitBody (by cbv),
      exists_emitBody (by cbv), by simp⟩
  obtain ⟨out, hout⟩ := hbodies again (by simp [hhelpers])
  obtain ⟨s, hs, -⟩ := reached_of_emitBody hout
  have hlines : s.lines = [.effect 2 (.call "_init_" [.name "data"]),
      .effect 3 (.call "process_work_item" [.name "i", .name "data"]),
      .effect 4 (.call "scale" [.name "i", .name "data"])] :=
    eq_of_reached (f := Emitter.lines) hs (by cbv)
  -- each of the three lines consists of one call
  have hcalls : ∀ id {c}, .effect id (.call c.1 c.2) ∈ s.lines → ∃ l ∈ s.lines, c ∈ l.calls :=
    fun _ _ hl => ⟨_, hl, by simp [Line.calls, Line.exprs, Expr.calls]⟩
  refine ⟨exists_generate (by cbv) rfl hbodies, s, hs, ⟨⟨hcalls 3 (by simp [hlines]), ?_⟩, ?_, ?_⟩,
    ⟨⟨hcalls 4 (by simp [hlines]), ?_⟩, ?_⟩, ⟨hcalls 2 (by simp [hlines]), ?_⟩, ?_⟩
  · exact ⟨⟨3, _, _, [.name "i"], rfl, rfl, by cbv, by cbv⟩, rfl, startAgain, by cbv, rfl⟩
  · have hdouble : miscalled.usesDouble = false := by cbv
    refine ⟨_, rfl, by simp [hhelpers], ?_⟩
    rw [hdouble, prototypes, hhelpers]
    decide
  · -- the entry takes the kernel argument first, and the call passes it last
    rintro (_ | ⟨hfirst, -⟩)
    exact absurd (Expr.name.inj hfirst.eq_name) (by decide)
  · exact ⟨⟨4, _, _, [.name "i"], rfl, rfl, by cbv, by cbv⟩, rfl, scale, by cbv, rfl⟩
  · rw [functions_eq, hhelpers]
    decide
  · exact ⟨⟨2, _, _, [], rfl, rfl, by cbv, by cbv⟩, rfl, construct, by cbv, rfl⟩
  · rw [functions_eq, hhelpers]
    decide

end KernelForge.Source
