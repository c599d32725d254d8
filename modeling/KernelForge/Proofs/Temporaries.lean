import KernelForge.Proofs.Emission

/-!
# Temporaries in expressions and lines

Which temporaries an expression names, which of them a line needs and which it declares. The braces of
a list of lines give, for every brace still open at its end, the temporaries declared directly in it;
a temporary is in scope if it is declared at the top of the function or in an open brace.
-/

namespace KernelForge.Source

/-- Different temporaries have different names. -/
theorem Temp.name_injective : Function.Injective Temp.name := by
  have hdigits : ∀ {m n : Nat}, (toString m).toList = (toString n).toList → m = n := by
    intro m n h
    have h : Nat.toDigits 10 m = Nat.toDigits 10 n := by simpa using h
    rw [← Nat.ofDigitChars_ten_toDigits (n := m), h, Nat.ofDigitChars_ten_toDigits]
  rintro ⟨kind, m⟩ ⟨kind', n⟩ h
  have h := congrArg String.toList h
  cases kind <;> cases kind' <;>
    simp only [Temp.name, String.toList_append, String.reduceToList, List.cons_append,
      List.nil_append, List.cons.injEq, true_and] at h
  · rw [hdigits h]
  · exact absurd h.1 (by decide)
  · exact absurd h.1 (by decide)
  · rw [hdigits h]

namespace Expr

mutual

/-- The temporaries that an expression names. -/
def temps : Expr → List Temp
  | temp t => [t]
  | name _ | int _ | long _ | float _ | double _ | string _ => []
  | negate value | cast _ value | member value _ => value.temps
  | binary _ lhs rhs | shiftUnsigned _ lhs rhs | compare _ lhs rhs | threeWay _ lhs rhs
  | element lhs rhs | assign lhs rhs => lhs.temps ++ rhs.temps
  | call _ args | vector _ args => tempsAll args

/-- The temporaries that several expressions name. -/
def tempsAll : List Expr → List Temp
  | [] => []
  | e :: rest => e.temps ++ tempsAll rest

end

theorem tempsAll_eq (es : List Expr) : tempsAll es = es.flatMap temps := by
  induction es with
  | nil => rfl
  | cons e rest ih => rw [tempsAll, ih, List.flatMap_cons]

/-- A list that an expression collects from its parts, of which calls contribute something of their
own. -/
structure Collects {α : Type} (g : Expr → List α) (ofCall : String → List Expr → List α) :
    Prop where
  name : ∀ identifier, g (name identifier) = []
  int : ∀ value, g (int value) = []
  long : ∀ value, g (long value) = []
  float : ∀ bits, g (float bits) = []
  double : ∀ bits, g (double bits) = []
  string : ∀ text, g (string text) = []
  negate : ∀ value, g (negate value) = g value
  cast : ∀ type value, g (cast type value) = g value
  member : ∀ object identifier, g (member object identifier) = g object
  binary : ∀ op lhs rhs, g (binary op lhs rhs) = g lhs ++ g rhs
  shiftUnsigned : ∀ wide lhs rhs, g (shiftUnsigned wide lhs rhs) = g lhs ++ g rhs
  compare : ∀ op lhs rhs, g (compare op lhs rhs) = g lhs ++ g rhs
  threeWay : ∀ mode lhs rhs, g (threeWay mode lhs rhs) = g lhs ++ g rhs
  element : ∀ array index, g (element array index) = g array ++ g index
  assign : ∀ target value, g (assign target value) = g target ++ g value
  call : ∀ function args, g (call function args) = ofCall function args ++ args.flatMap g
  vector : ∀ type args, g (vector type args) = args.flatMap g

theorem collects_temps : Collects temps fun _ _ => [] := by
  constructor <;> intros <;> simp [temps, tempsAll_eq]

end Expr

/-! ### Expressions of nodes -/

section express

variable {α : Type} {g : Expr → List α} {x : α} {id : NodeId} {args : List Expr} {e : Expr}

theorem mem_of_unary {f : Expr → Expr} (hf : ∀ a, g (f a) = g a)
    (h : Context.unary id args f = .ok e) (hx : x ∈ g e) : ∃ a ∈ args, x ∈ g a := by
  unfold Context.unary at h
  split at h
  · rw [← Except.ok.inj h, hf] at hx
    exact ⟨_, List.mem_cons_self, hx⟩
  · cases h

theorem mem_of_pair {f : Expr → Expr → Expr} (hf : ∀ a b, g (f a b) = g a ++ g b)
    (h : Context.pair id args f = .ok e) (hx : x ∈ g e) : ∃ a ∈ args, x ∈ g a := by
  unfold Context.pair at h
  split at h
  · rw [← Except.ok.inj h, hf] at hx
    simpa using hx
  · cases h

theorem mem_of_triple {f : Expr → Expr → Expr → Expr}
    (hf : ∀ a b c, g (f a b c) = g a ++ g b ++ g c)
    (h : Context.triple id args f = .ok e) (hx : x ∈ g e) : ∃ a ∈ args, x ∈ g a := by
  unfold Context.triple at h
  split at h
  · rw [← Except.ok.inj h, hf] at hx
    simpa [or_assoc] using hx
  · cases h

variable {cx : Context} {ofCall : String → List Expr → List α} (hg : Expr.Collects g ofCall)
include hg

theorem eq_nil_of_argument {field : String} (h : cx.argument field = .ok e) : g e = [] := by
  unfold Context.argument at h
  split at h
  · rw [← Except.ok.inj h, hg.name]
  · cases h

/-- What a call collects is its own or comes from an operand; the kernel arguments it passes on
contribute nothing. -/
theorem mem_of_call {node : Node} {target : Invocation} (h : cx.call id node target args = .ok e)
    (hx : x ∈ g e) :
    (∃ a ∈ args, x ∈ g a) ∨
      ∃ function passed, e = .call function passed ∧ x ∈ ofCall function passed := by
  have hforwarded : ∀ a ∈ cx.forwarded, g a = [] := by
    intro a ha
    obtain ⟨field, _, rfl⟩ := List.mem_map.1 ha
    rw [hg.name]
  unfold Context.call at h
  simp only at h
  split_ifs at h
  · split at h
    · cases h
    · rw [← Except.ok.inj h, hg.call, List.mem_append, List.mem_flatMap] at hx
      rcases hx with hx | ⟨a, ha, hxa⟩
      · exact .inr ⟨_, _, (Except.ok.inj h).symm, hx⟩
      · rcases List.mem_append.1 ha with ha | ha
        · exact .inl ⟨a, ha, hxa⟩
        · rw [hforwarded a ha] at hxa
          cases hxa
  · split at h
    · cases h
    · cases h
    · cases h
    all_goals
      split at h
      · cases h
      · obtain rfl := Except.ok.inj h
        split_ifs at hx ⊢
        · exact .inl (by simpa [hg.vector] using hx)
        · rw [hg.call, List.mem_append, List.mem_flatMap] at hx
          exact hx.symm.imp_right fun hx => ⟨_, _, rfl, hx⟩

/-- What the expression of a node collects comes from an operand, or the node is a call. -/
theorem mem_of_express {node : Node} (h : cx.express id node args = .ok e) (hx : x ∈ g e) :
    (∃ a ∈ args, x ∈ g a) ∨ ∃ target function passed, node.kind = .invoke target ∧
      e = .call function passed ∧ x ∈ ofCall function passed := by
  cases hk : node.kind with
  | int | long | float | double | string =>
    simp only [Context.express, hk, Except.ok.injEq] at h
    simp [← h, hg.int, hg.long, hg.float, hg.double, hg.string] at hx
  | param index =>
    simp only [Context.express, hk] at h
    split at h
    · rw [← Except.ok.inj h, hg.name] at hx
      cases hx
    · cases h
  | binary op =>
    simp only [Context.express, hk] at h
    refine .inl (mem_of_pair (fun a b => ?_) h hx)
    unfold Context.binary
    split <;> simp only [hg.binary, hg.shiftUnsigned]
  | negate =>
    simp only [Context.express, hk] at h
    exact .inl (mem_of_unary hg.negate h hx)
  | convert =>
    simp only [Context.express, hk] at h
    exact .inl (mem_of_unary (hg.cast _) h hx)
  | compare =>
    simp only [Context.express, hk] at h
    exact .inl (mem_of_pair (hg.compare _) h hx)
  | threeWay =>
    simp only [Context.express, hk] at h
    exact .inl (mem_of_pair (hg.threeWay _) h hx)
  | arrayLoad =>
    simp only [Context.express, hk] at h
    exact .inl (mem_of_pair hg.element h hx)
  | arrayStore =>
    simp only [Context.express, hk] at h
    exact .inl (mem_of_triple (fun a b c => by rw [hg.assign, hg.element]) h hx)
  | getField field =>
    simp only [Context.express, hk] at h
    split_ifs at h
    · split at h
      · rw [eq_nil_of_argument hg h] at hx
        cases hx
      · cases h
    · exact .inl (mem_of_unary (hg.member · _) h hx)
  | putField field =>
    simp only [Context.express, hk] at h
    split_ifs at h
    · split at h
      · cases harg : cx.argument field with
        | error err => simp [harg, Except.map] at h
        | ok target =>
          rw [harg] at h
          rw [← Except.ok.inj h, hg.assign, eq_nil_of_argument hg harg] at hx
          exact .inl ⟨_, List.mem_cons_self, hx⟩
      · cases h
    · exact .inl (mem_of_pair (fun a b => by rw [hg.assign, hg.member]) h hx)
  | invoke target =>
    simp only [Context.express, hk] at h
    refine (mem_of_call hg h hx).imp_right ?_
    rintro ⟨function, passed, he, hx⟩
    exact ⟨target, function, passed, rfl, he, hx⟩
  | _ =>
    simp only [Context.express, hk] at h
    cases h

end express

/-- An expression names no temporary that its operands do not name. -/
theorem temps_express {cx : Context} {id : NodeId} {node : Node} {args : List Expr} {e : Expr}
    {t : Temp} (h : cx.express id node args = .ok e) (ht : t ∈ e.temps) :
    ∃ a ∈ args, t ∈ a.temps := by
  obtain ha | ⟨_, _, _, _, _, hcall⟩ := mem_of_express Expr.collects_temps h ht
  · exact ha
  · cases hcall

/-! ### Lines -/

namespace Line

/-- The expressions in a line. -/
def exprs : Line → List Expr
  | .define _ _ _ e | .store _ _ e | .stage _ _ e | .feed _ _ e | .effect _ e | .ret (some e)
  | .openIf e | .openSwitch e => [e]
  | _ => []

/-- The temporaries that a line reads. -/
def reads (l : Line) : List Temp :=
  l.exprs.flatMap Expr.temps

/-- The temporary that a line declares. -/
def declared? : Line → Option Temp
  | .define _ _ t _ | .stage _ t _ => some t
  | _ => none

/-- The temporaries that a line names without declaring them: those it reads and the one that it
assigns. -/
def needs (l : Line) : List Temp :=
  match l with
  | .store _ t _ | .feed _ t _ => t :: l.reads
  | _ => l.reads

/-- The temporaries whose names a line writes. -/
def names (l : Line) : List Temp :=
  l.needs ++ l.declared?.toList

/-- The open braces after a line, each with the temporaries declared in it, innermost first. -/
def brace (stack : List (List Temp)) : Line → List (List Temp)
  | .define _ _ t _ | .stage _ t _ => stack.modifyHead (t :: ·)
  | .openBlock _ | .openIf _ | .openSwitch _ | .openCase _ => [] :: stack
  | .otherwise => [] :: stack.tail
  | .close => stack.tail
  | _ => stack

end Line

/-- The open braces after some lines of a function, the last one being that of the function. -/
def braces (lines : List Line) : List (List Temp) :=
  lines.foldl Line.brace [[]]

theorem braces_concat (lines : List Line) (l : Line) :
    braces (lines ++ [l]) = l.brace (braces lines) := by
  simp [braces]

/-- A temporary can be named after some lines: it is declared at the top, or in a brace that is still
open. -/
def InScope (top : List Temp) (lines : List Line) (t : Temp) : Prop :=
  t ∈ top ∨ ∃ scope ∈ braces lines, t ∈ scope

/-- Whatever a line names is in scope there. -/
def WellScoped (top : List Temp) (lines : List Line) : Prop :=
  ∀ before l after, lines = before ++ l :: after → ∀ t ∈ l.needs, InScope top before t

theorem WellScoped.mono {top top' : List Temp} {lines : List Line} (h : WellScoped top lines)
    (htop : top ⊆ top') : WellScoped top' lines :=
  fun before l after hlines t ht => (h before l after hlines t ht).imp_left fun hmem => htop hmem

theorem WellScoped.concat {top : List Temp} {lines : List Line} {l : Line}
    (h : WellScoped top lines) (hl : ∀ t ∈ l.needs, InScope top lines t) :
    WellScoped top (lines ++ [l]) := by
  intro before l' after hlines t ht
  rcases List.eq_nil_or_concat after with rfl | ⟨after, last, rfl⟩
  · obtain ⟨rfl, hlast⟩ := List.append_inj' hlines rfl
    obtain rfl : l = l' := by simpa using hlast
    exact hl t ht
  · have hsplit : lines ++ [l] = (before ++ l' :: after) ++ [last] := by simp [hlines]
    exact h before l' after (List.append_inj' hsplit rfl).1 t ht

end KernelForge.Source
