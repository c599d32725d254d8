import Mathlib
import KernelForge.Kernel.Visit

/-!
# A walk visits exactly what can be reached

The depth-first walk keeps a list of pending nodes and a list of seen ones. It lists a node exactly if
a chain of steps leads to it from one of the roots.
-/

namespace KernelForge.Graph

open Relation

variable {g : Graph} {next : NodeId → Node → List NodeId}

/-- One step of a walk: from a node of the graph to one that it leads to. -/
def LeadsTo (g : Graph) (next : NodeId → Node → List NodeId) (a b : NodeId) : Prop :=
  ∃ node, g.get? a = some node ∧ b ∈ next a node

/-- The walk forgets neither what it saw nor what was pending. -/
theorem mem_visitFrom {pending seen : List NodeId} {m : NodeId} (h : m ∈ seen ∨ m ∈ pending) :
    m ∈ g.visitFrom next pending seen := by
  fun_induction visitFrom g next pending seen with
  | case1 seen => simpa using h
  | case2 seen id rest hs ih =>
    apply ih
    rcases h with h | h
    · exact .inl h
    · rcases List.mem_cons.1 h with rfl | h
      · exact .inl hs
      · exact .inr h
  | case3 seen id rest hs hnode ih =>
    apply ih
    rcases h with h | h
    · exact .inl (List.mem_cons_of_mem _ h)
    · rcases List.mem_cons.1 h with rfl | h
      · exact .inl List.mem_cons_self
      · exact .inr h
  | case4 seen id rest hs node hnode ih =>
    apply ih
    rcases h with h | h
    · exact .inl (List.mem_cons_of_mem _ h)
    · rcases List.mem_cons.1 h with rfl | h
      · exact .inl List.mem_cons_self
      · exact .inr (List.mem_append_right _ h)

/-- What is visited from here on leads to visited nodes only. -/
theorem closed_visitFrom {pending seen : List NodeId} {a b : NodeId}
    (ha : a ∈ g.visitFrom next pending seen) (hseen : a ∉ seen) (hab : LeadsTo g next a b) :
    b ∈ g.visitFrom next pending seen := by
  fun_induction visitFrom g next pending seen with
  | case1 seen => exact absurd (List.mem_reverse.1 ha) hseen
  | case2 seen id rest hs ih => exact ih ha hseen
  | case3 seen id rest hs hnode ih =>
    by_cases haid : a = id
    · obtain ⟨node, hget, _⟩ := hab
      rw [haid, hnode] at hget
      cases hget
    · exact ih ha (by simp [haid, hseen])
  | case4 seen id rest hs node hnode ih =>
    by_cases haid : a = id
    · obtain ⟨node', hget, hb⟩ := hab
      rw [haid, hnode] at hget
      cases hget
      rw [haid] at hb
      exact mem_visitFrom (.inr (List.mem_append_left _ (List.mem_reverse.2 hb)))
    · exact ih ha (by simp [haid, hseen])

/-- Only what a pending node leads to is visited. -/
theorem reaches_of_mem_visitFrom {pending seen : List NodeId} {m : NodeId}
    (h : m ∈ g.visitFrom next pending seen) :
    m ∈ seen ∨ ∃ r ∈ pending, ReflTransGen (LeadsTo g next) r m := by
  fun_induction visitFrom g next pending seen with
  | case1 seen => exact .inl (List.mem_reverse.1 h)
  | case2 seen id rest hs ih =>
    rcases ih h with h | ⟨r, hr, hreach⟩
    · exact .inl h
    · exact .inr ⟨r, List.mem_cons_of_mem _ hr, hreach⟩
  | case3 seen id rest hs hnode ih =>
    rcases ih h with h | ⟨r, hr, hreach⟩
    · rcases List.mem_cons.1 h with rfl | h
      · exact .inr ⟨m, List.mem_cons_self, .refl⟩
      · exact .inl h
    · exact .inr ⟨r, List.mem_cons_of_mem _ hr, hreach⟩
  | case4 seen id rest hs node hnode ih =>
    rcases ih h with h | ⟨r, hr, hreach⟩
    · rcases List.mem_cons.1 h with rfl | h
      · exact .inr ⟨m, List.mem_cons_self, .refl⟩
      · exact .inl h
    · rcases List.mem_append.1 hr with hr | hr
      · exact .inr ⟨id, List.mem_cons_self, .head ⟨node, hnode, List.mem_reverse.1 hr⟩ hreach⟩
      · exact .inr ⟨r, List.mem_cons_of_mem _ hr, hreach⟩

/-- A walk visits exactly what its roots lead to. -/
theorem mem_visit_iff {roots : List NodeId} {m : NodeId} :
    m ∈ g.visit next roots ↔ ∃ r ∈ roots, ReflTransGen (LeadsTo g next) r m := by
  constructor
  · intro h
    rcases reaches_of_mem_visitFrom h with h | ⟨r, hr, hreach⟩
    · cases h
    · exact ⟨r, List.mem_reverse.1 hr, hreach⟩
  · rintro ⟨r, hr, hreach⟩
    induction hreach with
    | refl => exact mem_visitFrom (.inr (List.mem_reverse.2 hr))
    | tail _ hstep ih => exact closed_visitFrom ih (by simp) hstep

end KernelForge.Graph
