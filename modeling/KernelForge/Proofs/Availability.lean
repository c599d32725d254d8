import KernelForge.Proofs.Effects

/-!
# Whether a value can be evaluated early

Before a planned value is evaluated, a check looks below it for what stands in the way: a phi that is
still to be assigned, or a side effect that has not run. The check is a loop over a stack of nodes
that remembers what it has seen, so it comes to an end on graphs with cycles too: every round takes a
node off the stack, and the operands of a node are put on it only once (`answer?_eq`).

What the loop finds is a matter of paths alone: a value is held back exactly if some path through
nodes without a name leads from it to an obstacle (`blocked_iff`).
-/

namespace KernelForge

/-! ### Counting operands -/

namespace Graph

/-- The number of operands in a graph. -/
def slots (g : Graph) : Nat :=
  ((List.range g.size).map fun id => (g.operands id).length).sum

/-- The number of operands of the nodes that are not in `seen`. -/
def slotsLeft (g : Graph) (seen : List NodeId) : Nat :=
  (((List.range g.size).filter (!seen.contains ·)).map fun id => (g.operands id).length).sum

theorem slotsLeft_nil (g : Graph) : g.slotsLeft [] = g.slots := by
  simp [slotsLeft, slots]

theorem slotsLeft_cons_le (g : Graph) (id : NodeId) (seen : List NodeId) :
    g.slotsLeft (id :: seen) ≤ g.slotsLeft seen := by
  rw [slotsLeft, slotsLeft, filter_seen_cons]
  exact (List.filter_sublist.map _).sum_le_sum fun _ _ => Nat.zero_le _

/-- Seeing a node for the first time uses up its operands. -/
theorem slotsLeft_cons_of_notMem {g : Graph} {id : NodeId} {node : Node} {seen : List NodeId}
    (hnode : g.get? id = some node) (hseen : id ∉ seen) :
    node.operands.length + g.slotsLeft (id :: seen) = g.slotsLeft seen := by
  have hnodup : ((List.range g.size).filter (!seen.contains ·)).Nodup := List.nodup_range.filter _
  have hmem : id ∈ (List.range g.size).filter (!seen.contains ·) := by
    simpa [hseen] using lt_size_of_get? hnode
  have hoperands : node.operands = g.operands id := by simp [operands, hnode]
  rw [slotsLeft, slotsLeft, filter_seen_cons, ← hnodup.erase_eq_filter, hoperands]
  exact List.sum_map_erase (fun id => (g.operands id).length) hmem

/-- A walk lists what it saw before first. -/
theorem exists_visitFrom_eq {g : Graph} {next : NodeId → Node → List NodeId}
    (pending seen : List NodeId) :
    ∃ tail, g.visitFrom next pending seen = seen.reverse ++ tail := by
  fun_induction visitFrom g next pending seen with
  | case1 seen => exact ⟨[], (List.append_nil _).symm⟩
  | case2 seen id rest hs ih => exact ih
  | case3 seen id rest hs hnode ih =>
    obtain ⟨tail, htail⟩ := ih
    exact ⟨id :: tail, by rw [htail]; simp⟩
  | case4 seen id rest hs node hnode ih =>
    obtain ⟨tail, htail⟩ := ih
    exact ⟨id :: tail, by rw [htail]; simp⟩

end Graph

namespace Source

open Relation

variable {cx : Context} {s : Emitter} {unstable : List NodeId}

/-! ### What stands in the way -/

/-- A node stands in the way of an early evaluation: a phi that is still to be assigned, whether it has
a name or not, or a side effect that has no name yet. -/
def Hinders (cx : Context) (unstable : List NodeId) (s : Emitter) (id : NodeId) : Prop :=
  id ∈ unstable ∨ s.value? id = none ∧ cx.isEffect id = true

/-- A path through evaluated operands, over nodes without a name, leads to a node that stands in the
way. -/
def Blocked (cx : Context) (unstable : List NodeId) (s : Emitter) (id : NodeId) : Prop :=
  ∃ m, ReflTransGen (Demands cx s) id m ∧ Hinders cx unstable s m

/-- Only a node outside the graph is an obstacle without standing in the way. -/
theorem hinders_iff {id : NodeId} (h : obstacle? cx s unstable id ≠ some .outside) :
    Hinders cx unstable s id ↔ obstacle? cx s unstable id ≠ none := by
  unfold obstacle? at h ⊢
  by_cases hunstable : id ∈ unstable
  · simp [Hinders, hunstable]
  · cases hv : s.value? id with
    | some v => simp [Hinders, hunstable, hv, Emitter.isBound]
    | none =>
      cases hnode : cx.graph.get? id with
      | none => simp [hunstable, hv, hnode, Emitter.isBound] at h
      | some node => simp [Hinders, hunstable, hv, isEffect_of_get? hnode, Emitter.isBound]

/-- What a value needs is what it asks for. -/
theorem mem_needed {id m : NodeId} :
    m ∈ needed cx s id ↔ ReflTransGen (Demands cx s) id m := by
  have hstep : cx.graph.LeadsTo (fun id node => if s.isBound id then [] else cx.evaluated node) =
      Demands cx s := by
    funext a b
    refine propext ⟨?_, ?_⟩
    · rintro ⟨node, hnode, hb⟩
      dsimp only at hb
      split_ifs at hb with hbound
      · cases hb
      · exact ⟨s.not_isBound_iff.1 (by simpa using hbound), node, hnode, hb⟩
    · rintro ⟨ha, node, hnode, hb⟩
      exact ⟨node, hnode, by simpa [s.not_isBound_iff.2 ha] using hb⟩
  rw [needed, Graph.mem_visit_iff, hstep]
  simp

/-- The answer of the check to a list of nodes that it looks at in turn. -/
def verdict (cx : Context) (s : Emitter) (unstable ids : List NodeId) : Except Error Bool :=
  match ids.findSome? fun n => (obstacle? cx s unstable n).map (n, ·) with
  | none => .ok true
  | some (n, .outside) => .error (.outside n cx.method.name)
  | some (_, _) => .ok false

theorem isAvailable_eq (id : NodeId) :
    isAvailable cx s unstable id = verdict cx s unstable (needed cx s id) :=
  rfl

/-- Whenever the check gives an answer, it says whether the value is blocked. -/
theorem blocked_iff {id : NodeId} {available : Bool}
    (h : isAvailable cx s unstable id = .ok available) :
    Blocked cx unstable s id ↔ available = false := by
  rw [isAvailable_eq, verdict] at h
  split at h
  · rename_i hnone
    obtain rfl := Except.ok.inj h
    simp only [Bool.true_eq_false, iff_false]
    rintro ⟨m, hreach, hhinders⟩
    have hclear : obstacle? cx s unstable m = none := by
      simpa using List.findSome?_eq_none_iff.1 hnone m (mem_needed.2 hreach)
    exact (hinders_iff (by simp [hclear])).1 hhinders hclear
  · cases h
  · rename_i m o houtside hfound
    obtain rfl := Except.ok.inj h
    simp only [iff_true]
    obtain ⟨n, hn, hsome⟩ := List.exists_of_findSome?_eq_some hfound
    obtain ⟨o', ho', hpair⟩ := Option.map_eq_some_iff.1 hsome
    obtain ⟨rfl, rfl⟩ := Prod.mk.inj hpair
    have hinside : obstacle? cx s unstable n ≠ some .outside := by
      rw [ho']
      rintro ⟨⟩
      exact houtside rfl
    exact ⟨n, mem_needed.1 hn, (hinders_iff hinside).2 (by simp [ho'])⟩

/-! ### The loop -/

/-- The loop of the check between two rounds: the nodes to look at, the next one first, and the nodes
seen so far. -/
structure Check where
  pending : List NodeId
  seen : List NodeId := []

namespace Check

/-- One round takes a node off the stack. The loop stops at the first one that stands in the way or
lies outside the graph; the operands of any other node without a name are looked at next. -/
def round (cx : Context) (s : Emitter) (unstable : List NodeId) (c : Check) :
    Except Error Bool ⊕ Check :=
  match c.pending with
  | [] => .inl (.ok true)
  | id :: rest =>
    if id ∈ c.seen then .inr { c with pending := rest }
    else if unstable.contains id then .inl (.ok false)
    else if s.isBound id then .inr ⟨rest, id :: c.seen⟩
    else match cx.graph.get? id with
      | none => .inl (.error (.outside id cx.method.name))
      | some node =>
        if node.hasSideEffects then .inl (.ok false)
        else .inr ⟨(cx.evaluated node).reverse ++ rest, id :: c.seen⟩

/-- The answer of the loop, if it gives one within a number of rounds. -/
def answer? (cx : Context) (s : Emitter) (unstable : List NodeId) :
    Nat → Check → Option (Except Error Bool)
  | 0, _ => none
  | rounds + 1, c =>
    match c.round cx s unstable with
    | .inl answer => some answer
    | .inr c => answer? cx s unstable rounds c

variable {seen rest : List NodeId} {id : NodeId}

theorem round_of_seen (hseen : id ∈ seen) :
    round cx s unstable ⟨id :: rest, seen⟩ = .inr ⟨rest, seen⟩ := by
  simp [round, hseen]

theorem round_of_bound (hseen : id ∉ seen) (hid : obstacle? cx s unstable id = none)
    (hbound : s.isBound id = true) :
    round cx s unstable ⟨id :: rest, seen⟩ = .inr ⟨rest, id :: seen⟩ := by
  have hstable : id ∉ unstable := fun h => by simp [obstacle?, h] at hid
  simp [round, hseen, hstable, hbound]

theorem round_of_clear {node : Node} (hseen : id ∉ seen) (hid : obstacle? cx s unstable id = none)
    (hunbound : s.isBound id = false) (hnode : cx.graph.get? id = some node) :
    round cx s unstable ⟨id :: rest, seen⟩ =
      .inr ⟨(cx.evaluated node).reverse ++ rest, id :: seen⟩ := by
  have hstable : id ∉ unstable := fun h => by simp [obstacle?, h] at hid
  have hpure : node.hasSideEffects = false := by
    simpa [obstacle?, hstable, hunbound, hnode] using hid
  simp [round, hseen, hstable, hunbound, hnode, hpure]

/-- The answer that an obstacle leads to. -/
def answerTo (cx : Context) (id : NodeId) : Obstacle → Except Error Bool
  | .outside => .error (.outside id cx.method.name)
  | .unstablePhi | .sideEffect => .ok false

theorem round_of_obstacle? {o : Obstacle} (hseen : id ∉ seen)
    (hid : obstacle? cx s unstable id = some o) :
    round cx s unstable ⟨id :: rest, seen⟩ = .inl (answerTo cx id o) := by
  unfold obstacle? at hid
  unfold round
  simp only [hseen, if_false]
  split_ifs at hid ⊢ with hunstable hbound
  · obtain rfl := Option.some.inj hid
    rfl
  · cases hnode : cx.graph.get? id with
    | none =>
      rw [hnode] at hid
      obtain rfl := Option.some.inj hid
      rfl
    | some node =>
      simp only [hnode] at hid ⊢
      split_ifs at hid ⊢
      obtain rfl := Option.some.inj hid
      rfl

end Check

/-- The first obstacle that is looked at decides. -/
theorem verdict_of_obstacle? {seen tail : List NodeId} {id : NodeId} {o : Obstacle}
    (hseen : ∀ m ∈ seen, obstacle? cx s unstable m = none)
    (hid : obstacle? cx s unstable id = some o) :
    verdict cx s unstable ((id :: seen).reverse ++ tail) = Check.answerTo cx id o := by
  have hfirst : (((id :: seen).reverse ++ tail).findSome? fun n =>
      (obstacle? cx s unstable n).map (n, ·)) = some (id, o) := by
    rw [List.reverse_cons, List.append_assoc, List.findSome?_append,
      List.findSome?_eq_none_iff.2 (by simpa using hseen)]
    simp [hid]
  rw [verdict, hfirst]
  cases o <;> rfl

section loop

variable {seen : List NodeId} (hseen : ∀ m ∈ seen, obstacle? cx s unstable m = none)

include hseen

/-- An obstacle ends the loop, whatever the walk that collects everything would meet after it. -/
theorem answer?_of_obstacle? {id : NodeId} {o : Obstacle} {rounds : Nat} (rest pending : List NodeId)
    (hid : id ∉ seen) (hobstacle : obstacle? cx s unstable id = some o)
    {next : NodeId → Node → List NodeId} :
    Check.answer? cx s unstable (rounds + 1) ⟨id :: rest, seen⟩ =
      some (verdict cx s unstable (cx.graph.visitFrom next pending (id :: seen))) := by
  obtain ⟨tail, htail⟩ := Graph.exists_visitFrom_eq pending (id :: seen)
  rw [Check.answer?, Check.round_of_obstacle? hid hobstacle, htail,
    verdict_of_obstacle? hseen hobstacle]

/-- The loop answers within a round for every pending node, one for every operand that it has not put
on the stack yet, and a last one. The induction follows the walk that collects what a value needs,
which meets the nodes in the same order. -/
theorem answer?_eq (pending : List NodeId) {rounds : Nat}
    (hrounds : pending.length + cx.graph.slotsLeft seen < rounds) :
    Check.answer? cx s unstable rounds ⟨pending, seen⟩ =
      some (verdict cx s unstable (cx.graph.visitFrom
        (fun id node => if s.isBound id then [] else cx.evaluated node) pending seen)) := by
  fun_induction Graph.visitFrom cx.graph
      (fun id node => if s.isBound id then [] else cx.evaluated node) pending seen
      generalizing rounds with
  | case1 seen =>
    obtain _ | rounds := rounds
    · omega
    have hclear : (seen.reverse.findSome? fun n => (obstacle? cx s unstable n).map (n, ·)) = none :=
      List.findSome?_eq_none_iff.2 (by simpa using hseen)
    simp [Check.answer?, Check.round, verdict, hclear]
  | case2 seen id rest hs ih =>
    obtain _ | rounds := rounds
    · omega
    rw [List.length_cons] at hrounds
    rw [Check.answer?, Check.round_of_seen hs]
    exact ih hseen (by omega)
  | case3 seen id rest hs hnode ih =>
    obtain _ | rounds := rounds
    · omega
    rw [List.length_cons] at hrounds
    have hslots := cx.graph.slotsLeft_cons_le id seen
    cases hid : obstacle? cx s unstable id with
    | some o => exact answer?_of_obstacle? hseen _ _ hs hid
    | none =>
      -- a node outside the graph is no obstacle only if it has a name
      have hbound : s.isBound id = true := by
        unfold obstacle? at hid
        split_ifs at hid with _ hbound
        · exact hbound
        · rw [hnode] at hid
          cases hid
      rw [Check.answer?, Check.round_of_bound hs hid hbound]
      exact ih (List.forall_mem_cons.2 ⟨hid, hseen⟩) (by omega)
  | case4 seen id rest hs node hnode ih =>
    obtain _ | rounds := rounds
    · omega
    rw [List.length_cons] at hrounds
    cases hid : obstacle? cx s unstable id with
    | some o => exact answer?_of_obstacle? hseen _ _ hs hid
    | none =>
      have hslots := Graph.slotsLeft_cons_of_notMem hnode hs
      have hclear : ∀ m ∈ id :: seen, obstacle? cx s unstable m = none :=
        List.forall_mem_cons.2 ⟨hid, hseen⟩
      cases hbound : s.isBound id with
      | true =>
        rw [Check.answer?, Check.round_of_bound hs hid hbound]
        simp only [hbound, if_true, List.reverse_nil, List.nil_append] at ih ⊢
        exact ih hclear (by omega)
      | false =>
        have hlength := cx.length_evaluated_le node
        rw [Check.answer?, Check.round_of_clear hs hid hbound hnode]
        simp only [hbound, Bool.false_eq_true, if_false] at ih ⊢
        exact ih hclear (by rw [List.length_append, List.length_reverse]; omega)

end loop

/-- On every graph the loop comes to an end, with the answer of the check. -/
theorem answer?_isAvailable (s : Emitter) (unstable : List NodeId) (id : NodeId) :
    Check.answer? cx s unstable (cx.graph.slots + 2) { pending := [id] } =
      some (isAvailable cx s unstable id) := by
  have hrounds : [id].length + cx.graph.slotsLeft [] < cx.graph.slots + 2 := by
    rw [Graph.slotsLeft_nil, List.length_singleton]
    omega
  exact answer?_eq (by simp) [id] hrounds

end Source

end KernelForge
