import KernelForge.Proofs.Pieces

/-!
# Running lines

Lines that follow one another are run on a store, which holds the values of the temporaries and
whatever else there is. What an expression means is left open, except that a temporary stands for
its value and a literal for the same value everywhere.
-/

namespace KernelForge.Source

namespace Expr

/-- A literal, or a variable that is one of the first `n` temporaries. -/
def IsSettled (n : Nat) (e : Expr) : Prop :=
  e.isLiteral = true ∨ ∃ t, e = .temp t ∧ t.kind = .var ∧ t.index < n

/-- What is settled names no phi. -/
theorem IsSettled.kind_eq {n : Nat} {e : Expr} (h : e.IsSettled n) {t : Temp} (ht : t ∈ e.temps) :
    t.kind = .var := by
  obtain hlit | ⟨t', rfl, hkind, -⟩ := h
  · rw [temps_of_isLiteral hlit] at ht
    cases ht
  · rw [temps, List.mem_singleton] at ht
    exact ht ▸ hkind

end Expr

namespace Line

/-- The temporary that a line gives a value. -/
def assigned? : Line → Option Temp
  | .define _ _ t _ | .store _ t _ | .stage _ t _ | .feed _ t _ => some t
  | _ => none

/-- Whether a line assigns a phi. -/
def AssignsPhi (l : Line) : Prop :=
  ∃ t ∈ l.assigned?, t.kind = .phi

/-- Whether a line reads a phi. -/
def ReadsPhi (l : Line) : Prop :=
  ∃ t ∈ l.reads, t.kind = .phi

end Line

/-- The values of the temporaries of a function, and everything else: arguments, objects, arrays. -/
structure Store (V W : Type) where
  temps : Temp → V
  world : W

/-- What expressions mean. An expression has a value, and since it may contain calls and
assignments, evaluating it may change the store. A temporary stands for its value, and a literal for
the same value everywhere. -/
structure Meaning (V W : Type) where
  eval : Expr → Store V W → V × Store V W
  temp : ∀ t σ, eval (.temp t) σ = (σ.temps t, σ)
  literal : ∀ {e}, e.isLiteral = true → ∃ v, ∀ σ, eval e σ = (v, σ)

namespace Meaning

variable {V W : Type} (M : Meaning V W)

/-- Give a temporary the value of an expression. -/
def assign (t : Temp) (e : Expr) (σ : Store V W) : Store V W :=
  let r := M.eval e σ
  { r.2 with temps := Function.update r.2.temps t r.1 }

/-- Run a line that is carried out and then followed by the next one. -/
def step (σ : Store V W) : Line → Store V W
  | .define _ _ t e | .store _ t e | .stage _ t e | .feed _ t e => M.assign t e σ
  | .effect _ e => (M.eval e σ).2
  | _ => σ

/-- Run lines one after the other. -/
def run (lines : List Line) (σ : Store V W) : Store V W :=
  lines.foldl M.step σ

/-- In some lines, temporaries are assigned by the lines only: no expression in them assigns a part
of what a temporary holds. -/
def Spares (lines : List Line) : Prop :=
  ∀ l ∈ lines, ∀ e ∈ l.exprs, ∀ σ, (M.eval e σ).2.temps = σ.temps

variable {M} {lines more : List Line} {l : Line} {σ σ' : Store V W} {t : Temp} {e : Expr} {n : Nat}

theorem Spares.left (h : M.Spares (lines ++ more)) : M.Spares lines :=
  fun l hl => h l (List.mem_append_left _ hl)

theorem Spares.right (h : M.Spares (lines ++ more)) : M.Spares more :=
  fun l hl => h l (List.mem_append_right _ hl)

variable (M) in
theorem run_append (lines more : List Line) (σ : Store V W) :
    M.run (lines ++ more) σ = M.run more (M.run lines σ) :=
  List.foldl_append

variable (M) in
@[simp] theorem temps_assign_self (t : Temp) (e : Expr) (σ : Store V W) :
    (M.assign t e σ).temps t = (M.eval e σ).1 :=
  Function.update_self ..

/-- A line leaves every temporary alone that it does not assign. -/
theorem temps_step (h : M.Spares [l]) (ht : l.assigned? ≠ some t) :
    (M.step σ l).temps t = σ.temps t := by
  have hassign : ∀ {t' : Temp} {e : Expr}, e ∈ l.exprs → l.assigned? = some t' →
      (M.assign t' e σ).temps t = σ.temps t := by
    intro t' e he ht'
    have hne : t ≠ t' := fun heq => ht (ht'.trans (congrArg some heq.symm))
    have hspared := congrFun (h l List.mem_cons_self e he σ) t
    exact (Function.update_of_ne hne _ _).trans hspared
  cases l with
  | define | store | stage | feed => exact hassign List.mem_cons_self rfl
  | effect => exact congrFun (h _ List.mem_cons_self _ List.mem_cons_self σ) t
  | _ => rfl

/-- Lines leave every temporary alone that none of them assigns. -/
theorem temps_run (h : M.Spares lines) (ht : ∀ l ∈ lines, l.assigned? ≠ some t) :
    (M.run lines σ).temps t = σ.temps t := by
  induction lines generalizing σ with
  | nil => rfl
  | cons l rest ih =>
    have hfirst : M.Spares ([l] ++ rest) := h
    rw [run, List.foldl_cons]
    exact (ih hfirst.right fun l' hl' => ht l' (List.mem_cons_of_mem _ hl')).trans
      (temps_step hfirst.left (ht l List.mem_cons_self))

/-- What is settled has the same value in stores that agree on the variables it may name. -/
theorem eval_congr (h : e.IsSettled n)
    (hagree : ∀ t, t.kind = .var → t.index < n → σ.temps t = σ'.temps t) :
    (M.eval e σ).1 = (M.eval e σ').1 := by
  obtain hlit | ⟨t, rfl, hkind, hindex⟩ := h
  · obtain ⟨v, hv⟩ := M.literal hlit
    rw [hv, hv]
  · rw [M.temp, M.temp]
    exact hagree t hkind hindex

end Meaning

end KernelForge.Source
