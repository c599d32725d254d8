import KernelForge.Kernel.Graph

/-!
# Visiting what a node reaches

A depth-first walk over a graph that may have cycles. Every node is visited once; the walk ends
because each step either takes a node that was not seen before or shortens the list of pending ones.
-/

namespace KernelForge.Graph

/-- The number of nodes of the graph that are not in `seen`. -/
def unseen (g : Graph) (seen : List NodeId) : Nat :=
  ((List.range g.size).filter (!seen.contains ·)).length

theorem filter_seen_cons (g : Graph) (id : NodeId) (seen : List NodeId) :
    (List.range g.size).filter (!(id :: seen).contains ·) =
      ((List.range g.size).filter (!seen.contains ·)).filter (· != id) := by
  rw [List.filter_filter]
  congr 1
  funext n
  by_cases h : n = id <;> simp [h]

theorem unseen_cons_le (g : Graph) (id : NodeId) (seen : List NodeId) :
    g.unseen (id :: seen) ≤ g.unseen seen := by
  rw [unseen, unseen, filter_seen_cons]
  exact List.length_filter_le _ _

/-- Seeing a node of the graph for the first time leaves fewer unseen. -/
theorem unseen_cons_lt {g : Graph} {id : NodeId} {seen : List NodeId} (h : id < g.size)
    (hs : ¬ id ∈ seen) : g.unseen (id :: seen) < g.unseen seen := by
  rw [unseen, unseen, filter_seen_cons]
  exact List.length_filter_lt_length_iff_exists.2 ⟨id, by simp [h, hs], by simp⟩

/-- Visit everything reachable from `pending` through `next` and list it in the order of the visits,
after what was seen before. The first pending node is visited first; the nodes that a visited node
leads to come before the others, last one first. -/
def visitFrom (g : Graph) (next : NodeId → Node → List NodeId) (pending seen : List NodeId) :
    List NodeId :=
  match pending with
  | [] => seen.reverse
  | id :: rest =>
    if _hs : id ∈ seen then visitFrom g next rest seen
    else
      match _h : g.get? id with
      | none => visitFrom g next rest (id :: seen)
      | some node => visitFrom g next ((next id node).reverse ++ rest) (id :: seen)
termination_by (g.unseen seen, pending.length)
decreasing_by
  · exact Prod.Lex.right _ (by simp)
  · exact Prod.Lex.right' _ (unseen_cons_le g id seen) (by simp)
  · exact Prod.Lex.left _ _ (unseen_cons_lt (lt_size_of_get? _h) _hs)

/-- Visit everything reachable from `roots`, the last root first. -/
def visit (g : Graph) (next : NodeId → Node → List NodeId) (roots : List NodeId) : List NodeId :=
  g.visitFrom next roots.reverse []

end KernelForge.Graph
