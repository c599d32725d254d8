import KernelForge.Proofs.Execution
import KernelForge.Proofs.Memory
import KernelForge.Proofs.PhiNames

/-!
# Phis are assigned in parallel

On an edge every phi takes its new value at once, whatever phis the incoming values read. Lines are
run one after the other on a store of temporaries. The lines of an edge first keep the incoming
values and then assign the phis. A kept value is a literal or stands in a variable that no later
line assigns, so it is still the same when its phi is assigned (`staged_incoming`), and no two
assignments are for the same phi.
-/

namespace KernelForge.Source

variable {cx : Context} {s s' : Emitter} {source : NodeId}

/-! ### Lines that keep values -/

/-- A line that assigns no phi and, if anything, a variable that is not one of the first `n`
temporaries. -/
def Line.IsFresh (n : Nat) (l : Line) : Prop :=
  l.IsQuiet ∧ ∀ t ∈ l.assigned?, t.kind = .var ∧ n ≤ t.index

theorem Line.IsFresh.mono {m n : Nat} {l : Line} (h : l.IsFresh n) (hle : m ≤ n) : l.IsFresh m :=
  h.imp_right fun hassigned t ht => (hassigned t ht).imp_right hle.trans

/-- Only fresh variables are assigned between two states. -/
structure AddsFresh (s s' : Emitter) : Prop where
  counter : s.counter ≤ s'.counter
  lines : Emitter.Adds (Line.IsFresh s.counter) s s'

namespace AddsFresh

theorem of_lines (hcounter : s.counter ≤ s'.counter) (hlines : s'.lines = s.lines) :
    AddsFresh s s' :=
  ⟨hcounter, .of_lines hlines⟩

theorem trans {s₁ : Emitter} (h₁ : AddsFresh s s₁) (h₂ : AddsFresh s₁ s') : AddsFresh s s' :=
  ⟨h₁.counter.trans h₂.counter, h₁.lines.trans (h₂.lines.mono fun _ hl => hl.mono h₁.counter)⟩

/-- A line that assigns the next temporary. -/
theorem next {l : Line} (hquiet : l.IsQuiet) (hl : l.assigned? = some (s.nextTemp .var))
    (hlines : s'.lines = s.lines ++ [l]) (hcounter : s'.counter = s.counter + 1) :
    AddsFresh s s' := by
  refine ⟨hcounter ▸ Nat.le_succ _, [l], hlines, fun l' hl' => ?_⟩
  rw [List.mem_singleton.1 hl']
  refine ⟨hquiet, fun t ht => ?_⟩
  rw [← Option.some.inj (hl.symm.trans ht)]
  exact ⟨rfl, le_rfl⟩

end AddsFresh

theorem Produced.addsFresh {id : NodeId} {node : Node} {args : List Value} {v : Value}
    (h : Produced cx id node args s v s') : AddsFresh s s' := by
  cases h with
  | inline => exact .of_lines le_rfl rfl
  | @kept e =>
    have hline := Emitter.lines_materialize (s.render id) cx id node.ty e
      (node.hasSideEffects || s.pinned.contains id)
    refine .next (.of_isKeep (Emitter.isKeep_keepLine _ _ _ _ _)) ?_ hline
      (by rw [Emitter.materialize_eq]; rfl)
    unfold Emitter.keepLine
    split <;> rfl
  | array => exact .of_lines (Nat.le_succ _) rfl

theorem Evaluates.addsFresh {ids : List NodeId} {vs : List Value} (h : Evaluates cx ids s vs s') :
    AddsFresh s s' := by
  induction h with
  | nil => exact .of_lines le_rfl rfl
  | known _ _ ih => exact ih
  | render _ _ _ _ hprod _ ihargs ihrest => exact (ihargs.trans hprod.addsFresh).trans ihrest

theorem addsFresh_stage (s : Emitter) (type : String) (e : Expr) :
    AddsFresh s (s.countTemp.write (.stage type (s.nextTemp .var) e)) :=
  .next ⟨rfl, rfl⟩ rfl (Emitter.lines_write _ _) rfl

theorem FlowsIn.addsFresh {staged : Bool} {moves : List (NodeId × NodeId)}
    {assignments : List (NodeId × Expr)} (h : FlowsIn cx staged moves s assignments s') :
    AddsFresh s s' := by
  induction h with
  | nil => exact .of_lines le_rfl rfl
  | direct heval _ _ _ ih => exact heval.addsFresh.trans ih
  | stage _ heval _ ih => exact (heval.addsFresh.trans (addsFresh_stage _ _ _)).trans ih

/-- What is settled keeps its value when fresh variables are assigned. -/
theorem Meaning.eval_run {V W : Type} {M : Meaning V W} {lines : List Line} {e : Expr} {n : Nat}
    {σ : Store V W} (h : e.IsSettled n) (hspares : M.Spares lines)
    (hfresh : ∀ l ∈ lines, l.IsFresh n) : (M.eval e (M.run lines σ)).1 = (M.eval e σ).1 := by
  refine eval_congr h fun t _ hindex => temps_run hspares fun l hl ht => ?_
  exact absurd ((hfresh l hl).2 t ht).2 (Nat.not_le.2 hindex)

/-! ### Moves of an edge -/

/-- A step that takes values only and succeeds everywhere met no slot without a value. -/
theorem reduceOption_of_mapM_ok {α β ε : Type} {f : Option α → Except ε β} {g : α → β}
    {xs : List (Option α)} {ys : List β} (h : xs.mapM f = .ok ys)
    (hsome : ∀ a, f (some a) = .ok (g a)) (hnone : ∀ b, f none ≠ .ok b) :
    ys = xs.reduceOption.map g ∧ none ∉ xs := by
  have hall := forall₂_of_mapM_ok h
  clear h
  induction hall with
  | nil => simp
  | @cons x y _ _ hx _ ih =>
    obtain ⟨rfl, hrest⟩ := ih
    cases x with
    | none => exact absurd hx (hnone y)
    | some a =>
      obtain rfl := Except.ok.inj ((hsome a).symm.trans hx)
      simp [hrest]

/-- A predecessor has one slot for each time that it is listed. -/
theorem length_inputsFrom (phi : Phi) (source : NodeId) :
    (phi.inputsFrom source).length = phi.predecessors.count source := by
  have hslots : ((phi.predecessors.zipIdx.filter (·.1 == source)).map Prod.fst).length =
      (phi.predecessors.filter (· == source)).length := by
    conv_rhs => rw [← List.zipIdx_map_fst 0 phi.predecessors, List.filter_map]
    rfl
  rw [List.length_map] at hslots
  rw [Phi.inputsFrom, List.length_map, hslots, List.count_eq_countP, List.countP_eq_length_filter]

/-- The moves of one phi. -/
def movesOf (source : NodeId) (phi : Phi) : List (NodeId × NodeId) :=
  ((phi.inputsFrom source).reduceOption.filter (· != phi.id)).map (phi.id, ·)

/-- Every slot of the predecessor has a value if the moves of an edge are known, and a phi moves
unless it keeps its own value. -/
theorem phiMoves_eq {moves : List (NodeId × NodeId)} (h : phiMoves cx source = .ok moves) :
    moves = cx.graph.phis.flatMap (movesOf source) ∧
      ∀ phi ∈ cx.graph.phis, none ∉ phi.inputsFrom source := by
  simp only [phiMoves, bind, Except.bind] at h
  split at h
  · cases h
  · rename_i lists hok
    obtain rfl := Except.ok.inj h
    have hlists := forall₂_of_mapM_ok hok
    clear h hok
    generalize cx.graph.phis = phis at hlists ⊢
    induction hlists with
    | nil => simp
    | @cons phi entries phis lists hentries _ ih =>
      obtain ⟨rfl, hnone⟩ := reduceOption_of_mapM_ok hentries (fun _ => rfl) fun _ hfail => by
        cases hfail
      obtain ⟨hmoves, hnones⟩ := ih
      refine ⟨?_, List.forall_mem_cons.2 ⟨hnone, hnones⟩⟩
      rw [List.flatten_cons, List.filter_append, hmoves, List.flatMap_cons, List.filter_map]
      rfl

/-- What moves on an edge that leaves `source`, where each phi has at most one slot for it. -/
structure MovesOnce (cx : Context) (source : NodeId) (moves : List (NodeId × NodeId)) : Prop where
  /-- A phi has no slot for the predecessor, or one with a value. -/
  inputs : ∀ phi ∈ cx.graph.phis, phi.inputsFrom source = [] ∨
    ∃ value, phi.inputsFrom source = [some value]
  phis : (moves.map Prod.fst).Nodup
  moved : ∀ {phi value}, phi ∈ cx.graph.phis → phi.inputsFrom source = [some value] →
    value ≠ phi.id → (phi.id, value) ∈ moves
  kept : ∀ {phi}, phi ∈ cx.graph.phis → phi.inputsFrom source = [] ∨
    phi.inputsFrom source = [some phi.id] → phi.id ∉ moves.map Prod.fst

theorem movesOnce_of_ok {moves : List (NodeId × NodeId)} (h : phiMoves cx source = .ok moves)
    (honce : ∀ phi ∈ cx.graph.phis, phi.predecessors.count source ≤ 1) :
    MovesOnce cx source moves := by
  obtain ⟨rfl, hsome⟩ := phiMoves_eq h
  have hinputs : ∀ phi ∈ cx.graph.phis, phi.inputsFrom source = [] ∨
      ∃ value, phi.inputsFrom source = [some value] := by
    intro phi hphi
    have hlength := honce phi hphi
    rw [← length_inputsFrom] at hlength
    match hin : phi.inputsFrom source, hlength with
    | [], _ => exact .inl rfl
    | [none], _ => exact absurd (hin ▸ List.mem_cons_self) (hsome phi hphi)
    | [some value], _ => exact .inr ⟨value, rfl⟩
  have hof : ∀ {phi move}, move ∈ movesOf source phi → move.1 = phi.id := by
    intro phi move hmove
    obtain ⟨_, _, rfl⟩ := List.mem_map.1 hmove
    rfl
  have hkeys : ∀ phi ∈ cx.graph.phis, ((movesOf source phi).map Prod.fst).Sublist [phi.id] := by
    intro phi hphi
    obtain hin | ⟨value, hin⟩ := hinputs phi hphi
    · simp [movesOf, hin]
    · by_cases hself : value = phi.id <;> simp [movesOf, hin, hself]
  refine ⟨hinputs, ?_, fun {phi value} hphi hin hne => ?_, fun {phi} hphi hin hmem => ?_⟩
  · refine List.Nodup.sublist ?_ cx.graph.nodup_phis
    rw [List.map_flatMap, List.map_eq_flatMap]
    exact List.Sublist.flatMap_right _ hkeys
  · exact List.mem_flatMap.2 ⟨phi, hphi, by simp [movesOf, hin, hne]⟩
  · obtain ⟨move, hmove, hid⟩ := List.mem_map.1 hmem
    obtain ⟨phi', hphi', hmove⟩ := List.mem_flatMap.1 hmove
    obtain rfl := List.inj_on_of_nodup_map cx.graph.nodup_phis hphi' hphi
      ((hof hmove).symm.trans hid)
    obtain hin | hin := hin <;> simp [movesOf, hin] at hmove

/-! ### Staging -/

/-- The value of a constant is a literal, or it stands in a variable that was handed out. -/
theorem Evaluates.isSettled {id : NodeId} {node : Node} {v : Value} (hs : Numbered cx s)
    (hphis : PhisNamed cx s) (h : Evaluates cx [id] s [v] s')
    (hnode : cx.graph.get? id = some node) (hconst : node.kind.isConstant = true) :
    v.expr.IsSettled s'.counter := by
  cases h with
  | known hv hrest =>
    cases hrest
    have hphi : id ∉ cx.graph.phis.map Phi.id := by
      intro hmem
      obtain ⟨phi, hphi, rfl⟩ := List.mem_map.1 hmem
      rw [get?_of_mem_phis hphi] at hnode
      obtain rfl := Option.some.inj hnode
      cases hconst
    obtain ⟨t, ht, hkind⟩ := hphis.others hv hphi
    exact .inr ⟨t, ht, hkind, hs.below hv t (by rw [ht, Expr.temps, List.mem_singleton])⟩
  | @render _ node' _ _ s₁ _ _ _ _ _ _ hnode' _ _ hprod hrest =>
    rw [hnode] at hnode'
    obtain rfl := Option.some.inj hnode'
    cases hrest
    have hnext : ∀ {s₂ : Emitter}, s₂.counter = s₁.counter + 1 →
        (Expr.temp (s₁.nextTemp .var)).IsSettled s₂.counter := fun hcounter =>
      .inr ⟨_, rfl, rfl, hcounter ▸ Nat.lt_succ_self _⟩
    cases hprod with
    | inline he => exact .inl (isLiteral_of_isConstant hconst he)
    | kept => exact hnext (by rw [Emitter.materialize_eq]; rfl)
    | array => exact hnext rfl

/-- On an edge with several moves an incoming value is settled once it was rendered, and then it is
the value that the rendered expression had. -/
theorem staged_incoming {move : NodeId × NodeId} {a : NodeId × Expr} (hs : Numbered cx s)
    (hphis : PhisNamed cx s) (h : incoming cx true move s = .ok a s') :
    ∃ v s₁ keep, evaluate cx move.2 s = .ok v s₁ ∧ s'.lines = s₁.lines ++ keep ∧
      a.1 = move.1 ∧ a.2.IsSettled s'.counter ∧
      ∀ {V W : Type} (M : Meaning V W) (σ : Store V W),
        (M.eval a.2 (M.run keep σ)).1 = (M.eval v.expr σ).1 := by
  obtain ⟨v, s₁, heval, ⟨⟨node, hnode, hconst⟩, rfl, rfl⟩ | ⟨-, rfl, rfl⟩⟩ := incoming_ok h
  · exact ⟨v, s', [], heval, (List.append_nil _).symm, rfl,
      (evaluates_of_ok heval).isSettled hs hphis hnode (hconst rfl), fun _ _ => rfl⟩
  · refine ⟨v, s₁, _, heval, Emitter.lines_write _ _, rfl,
      .inr ⟨_, rfl, rfl, Nat.lt_succ_self _⟩, fun M σ => ?_⟩
    rw [M.temp]
    exact M.temps_assign_self _ _ _

theorem FlowsIn.settled {moves : List (NodeId × NodeId)} {assignments : List (NodeId × Expr)}
    (hs : Numbered cx s) (hphis : PhisNamed cx s) (h : FlowsIn cx true moves s assignments s') :
    ∀ a ∈ assignments, ∃ n, a.2.IsSettled n := by
  induction h with
  | nil => simp
  | direct heval hnode hconst _ ih =>
    refine List.forall_mem_cons.2 ⟨⟨_, heval.isSettled hs hphis hnode (hconst rfl)⟩, ?_⟩
    exact ih (hs.evaluate heval).1 (hphis.evaluates heval)
  | stage _ heval _ ih =>
    obtain ⟨hs₁, -, hbelow⟩ := hs.evaluate heval
    refine List.forall_mem_cons.2 ⟨⟨_, .inr ⟨_, rfl, rfl, Nat.lt_succ_self _⟩⟩, ?_⟩
    exact ih (hs₁.stage hbelow _) ((hphis.evaluates heval).stage _)

/-- What is assigned are the phis that move. -/
theorem FlowsIn.map_fst {staged : Bool} {moves : List (NodeId × NodeId)}
    {assignments : List (NodeId × Expr)} (h : FlowsIn cx staged moves s assignments s') :
    assignments.map Prod.fst = moves.map Prod.fst := by
  induction h with
  | nil => rfl
  | direct _ _ _ _ ih | stage _ _ _ ih => rw [List.map_cons, List.map_cons, ih]

/-- The incoming values before and after that of one move. -/
theorem mapM_incoming_append {staged : Bool} {done rest : List (NodeId × NodeId)}
    {move : NodeId × NodeId} {assignments : List (NodeId × Expr)}
    (h : (done ++ move :: rest).mapM (incoming cx staged) s = .ok assignments s') :
    ∃ before s₁ a s₂ after, done.mapM (incoming cx staged) s = .ok before s₁ ∧
      incoming cx staged move s₁ = .ok a s₂ ∧
      rest.mapM (incoming cx staged) s₂ = .ok after s' ∧ assignments = before ++ a :: after := by
  rw [List.mapM_append, List.mapM_cons] at h
  simp only [Emit.bind_ok, Emit.pure_ok] at h
  obtain ⟨before, s₁, hbefore, _, _, ⟨a, s₂, ha, after, _, hafter, rfl, rfl⟩, rfl, rfl⟩ := h
  exact ⟨before, s₁, a, s₂, after, hbefore, ha, hafter, rfl⟩

/-- The expression of an incoming value on the edge that leaves `source`: what evaluation gives when
the turn of its move comes, after the lines `before`. -/
inductive RendersIncoming (cx : Context) (source : NodeId) (s : Emitter) (phi value : NodeId)
    (before : List Line) : Expr → Prop
  | intro {moves done rest : List (NodeId × NodeId)} {assignments : List (NodeId × Expr)}
      {s₁ s₂ : Emitter} {v : Value} (hmoves : phiMoves cx source = .ok moves)
      (hsplit : moves = done ++ (phi, value) :: rest)
      (hdone : done.mapM (incoming cx (decide (1 < moves.length))) s = .ok assignments s₁)
      (heval : evaluate cx value s₁ = .ok v s₂) (hlines : s₂.lines = s.lines ++ before) :
      RendersIncoming cx source s phi value before v.expr

section rendersIncoming

variable {moves : List (NodeId × NodeId)} {assignments : List (NodeId × Expr)} {staging : List Line}
  {phi value : NodeId} (hs : Numbered cx s) (hphis : PhisNamed cx s)
  (hmoves : phiMoves cx source = .ok moves)
  (hin : moves.mapM (incoming cx (decide (1 < moves.length))) s = .ok assignments s')
  (hstaging : s'.lines = s.lines ++ staging) (hmove : (phi, value) ∈ moves)

include hs hphis hmoves hin hstaging hmove

/-- After the lines that keep the incoming values, what is assigned to a phi has the value that the
incoming expression had where it was rendered. -/
theorem rendersIncoming_of_mem :
    ∃ before e kept, RendersIncoming cx source s phi value before e ∧ before <+: staging ∧
      (phi, kept) ∈ assignments ∧ ∀ {V W : Type} (M : Meaning V W) (σ : Store V W),
        M.Spares staging → (M.eval kept (M.run staging σ)).1 = (M.eval e (M.run before σ)).1 := by
  obtain ⟨done, rest, hsplit⟩ := List.append_of_mem hmove
  rw [hsplit] at hin
  obtain ⟨_, s₁, a, s₂, _, hdone, ha, hrest, rfl⟩ := mapM_incoming_append hin
  rw [← hsplit] at hdone ha hrest
  have hdone_flow := flowsIn_of_ok hdone
  have hrest_flow := flowsIn_of_ok hrest
  obtain ⟨-, first, hfirst, -⟩ := hdone_flow.addsFresh
  obtain ⟨-, last, hlast, hfresh⟩ := hrest_flow.addsFresh
  by_cases hmany : 1 < moves.length
  · -- the value is kept, or it is a constant, and no later line assigns it
    rw [decide_eq_true hmany] at ha
    obtain ⟨v, s₃, keep, heval, hkeep, hid, hsettled, hvalue⟩ :=
      staged_incoming (hs.flowsIn hdone_flow).1 (hphis.flowsIn hdone_flow) ha
    obtain ⟨-, second, hsecond, -⟩ := (evaluates_of_ok heval).addsFresh
    obtain rfl : (first ++ second) ++ (keep ++ last) = staging := by
      rw [hlast, hkeep, hsecond, hfirst] at hstaging
      simpa using hstaging
    have hincoming : RendersIncoming cx source s phi value (first ++ second) v.expr :=
      .intro hmoves hsplit hdone heval (by rw [hsecond, hfirst, List.append_assoc])
    obtain ⟨_, kept⟩ := a
    obtain rfl := hid
    refine ⟨_, v.expr, kept, hincoming, ⟨_, rfl⟩, ?_, fun M σ hspares => ?_⟩
    · exact List.mem_append_right _ List.mem_cons_self
    · rw [M.run_append, M.run_append, Meaning.eval_run hsettled hspares.right.right hfresh, hvalue]
  · -- it is the only move, and its expression is assigned as it was rendered
    rw [decide_eq_false hmany] at ha
    obtain ⟨rfl, rfl⟩ : done = [] ∧ rest = [] := by
      rw [hsplit, List.length_append, List.length_cons] at hmany
      exact ⟨List.eq_nil_of_length_eq_zero (by omega), List.eq_nil_of_length_eq_zero (by omega)⟩
    obtain ⟨v, s₃, heval, ⟨-, rfl, rfl⟩ | ⟨hstaged, -⟩⟩ := incoming_ok ha
    · have hend : s' = s₂ := by cases hrest_flow; rfl
      subst hend
      refine ⟨staging, v.expr, v.expr, .intro hmoves hsplit hdone heval hstaging, List.prefix_rfl,
        ?_, fun _ _ _ => rfl⟩
      exact List.mem_append_right _ List.mem_cons_self
    · cases hstaged

end rendersIncoming

/-! ### Assignments -/

/-- The line that assigns a phi: every phi has a temporary of its own. -/
def IsFeed (cx : Context) (a : NodeId × Expr) (l : Line) : Prop :=
  ∃ i phi, cx.graph.phis[i]? = some phi ∧ phi.id = a.1 ∧ l = .feed a.1 ⟨.phi, i⟩ a.2

theorem Feeds.isFeed {assignments : List (NodeId × Expr)} (hphis : PhisNamed cx s)
    (hkeys : ∀ a ∈ assignments, a.1 ∈ cx.graph.phis.map Phi.id) (h : Feeds assignments s s') :
    ∃ feeds, s'.lines = s.lines ++ feeds ∧ List.Forall₂ (IsFeed cx) assignments feeds := by
  induction h with
  | nil => exact ⟨[], (List.append_nil _).symm, .nil⟩
  | @cons id e rest s s' ty t hv _ ih =>
    obtain ⟨hfirst, hrest⟩ := List.forall_mem_cons.1 hkeys
    obtain ⟨feeds, hlines, hfeeds⟩ := ih (hphis.write _) hrest
    obtain ⟨phi, hphi, rfl⟩ := List.mem_map.1 hfirst
    obtain ⟨i, hi⟩ := List.getElem?_of_mem hphi
    obtain ⟨-, rfl⟩ : phi.ty = ty ∧ (⟨.phi, i⟩ : Temp) = t := by
      simpa using (hphis.phis hi).symm.trans hv
    exact ⟨_ :: feeds, by simp [hlines], .cons ⟨i, phi, hi, rfl, rfl⟩ hfeeds⟩

/-- A phi has one position. -/
theorem phi_position_unique {i j : Nat} {phi phi' : Phi} (hi : cx.graph.phis[i]? = some phi)
    (hj : cx.graph.phis[j]? = some phi') (hid : phi.id = phi'.id) : i = j := by
  have hlt : i < (cx.graph.phis.map Phi.id).length := by
    rw [List.length_map]
    exact (List.getElem?_eq_some_iff.1 hi).1
  refine (List.getElem?_inj hlt cx.graph.nodup_phis).1 ?_
  rw [List.getElem?_map, List.getElem?_map, hi, hj, Option.map_some, Option.map_some, hid]

theorem IsFeed.assigned?_ne {a : NodeId × Expr} {l : Line} (h : IsFeed cx a l) {i : Nat} {phi : Phi}
    (hi : cx.graph.phis[i]? = some phi) (hne : phi.id ≠ a.1) : l.assigned? ≠ some ⟨.phi, i⟩ := by
  obtain ⟨j, phi', hj, hid, rfl⟩ := h
  intro heq
  obtain rfl : j = i := by simpa [Line.assigned?] using heq
  obtain rfl := Option.some.inj (hi.symm.trans hj)
  exact hne hid

section feeds

variable {V W : Type} {M : Meaning V W} {assignments : List (NodeId × Expr)} {feeds : List Line}
  {i : Nat} {phi : Phi} (h : List.Forall₂ (IsFeed cx) assignments feeds) (hspares : M.Spares feeds)
  (hi : cx.graph.phis[i]? = some phi)

include h hspares hi

/-- Assignments leave every other phi alone. -/
theorem run_feeds_other (hkey : phi.id ∉ assignments.map Prod.fst) (σ : Store V W) :
    (M.run feeds σ).temps ⟨.phi, i⟩ = σ.temps ⟨.phi, i⟩ := by
  refine Meaning.temps_run hspares ?_
  clear hspares
  induction h with
  | nil => simp
  | cons hfirst _ ih =>
    rw [List.map_cons, List.mem_cons, not_or] at hkey
    exact List.forall_mem_cons.2 ⟨hfirst.assigned?_ne hi hkey.1, ih hkey.2⟩

/-- A phi gets the value that its new expression had before all assignments, if all expressions but
the first one are settled. -/
theorem run_feeds (hnodup : (assignments.map Prod.fst).Nodup)
    (hsettled : ∀ a ∈ assignments.tail, ∃ n, a.2.IsSettled n) {e : Expr}
    (ha : (phi.id, e) ∈ assignments) (σ : Store V W) :
    (M.run feeds σ).temps ⟨.phi, i⟩ = (M.eval e σ).1 := by
  induction h generalizing σ with
  | nil => cases ha
  | @cons a l rest feeds hfirst hrest ih =>
    obtain ⟨hnew, hnodup⟩ := List.nodup_cons.1 hnodup
    have hspares : M.Spares ([l] ++ feeds) := hspares
    rw [Meaning.run, List.foldl_cons, ← Meaning.run]
    obtain rfl | ha := List.mem_cons.1 ha
    · obtain ⟨j, phi', hj, hid, rfl⟩ := hfirst
      obtain rfl := phi_position_unique hi hj hid.symm
      rw [run_feeds_other hrest hspares.right hi hnew]
      exact M.temps_assign_self _ _ _
    · obtain ⟨n, he⟩ := hsettled _ ha
      rw [ih hspares.right hnodup (fun a ha => hsettled a (List.mem_of_mem_tail ha)) ha]
      refine Meaning.eval_congr he fun t hkind _ => Meaning.temps_step hspares.left fun ht => ?_
      obtain ⟨_, _, _, _, rfl⟩ := hfirst
      rw [← Option.some.inj ht] at hkind
      cases hkind

end feeds

/-! ### All at once -/

/-- Every line that reads a phi comes before the first line that assigns one. -/
def ReadsPhisFirst (lines : List Line) : Prop :=
  ∀ before l after, lines = before ++ l :: after → l.ReadsPhi →
    ∀ l' ∈ before ++ [l], ¬ l'.AssignsPhi

/-- Only the last line assigns a phi. -/
def AssignsPhiOnce (lines : List Line) : Prop :=
  ∃ init l, lines = init ++ [l] ∧ ∀ l' ∈ init, ¬ l'.AssignsPhi

/-- Lines that assign the phis of the edge that leaves `source` in parallel. -/
structure AssignsInParallel (cx : Context) (source : NodeId) (s : Emitter) (lines : List Line) :
    Prop where
  straight : Straight lines
  order : ReadsPhisFirst lines ∨ AssignsPhiOnce lines
  /-- The phi at a position is kept in the temporary of that number. -/
  named : ∀ {i phi}, cx.graph.phis[i]? = some phi →
    s.value? phi.id = some ⟨phi.ty, .temp ⟨.phi, i⟩⟩
  /-- A phi that no value flows into, or only its own, is unchanged. -/
  kept : ∀ {i phi}, cx.graph.phis[i]? = some phi →
    phi.inputsFrom source = [] ∨ phi.inputsFrom source = [some phi.id] →
      ∀ {V W : Type} (M : Meaning V W) (σ : Store V W), M.Spares lines →
        (M.run lines σ).temps ⟨.phi, i⟩ = σ.temps ⟨.phi, i⟩
  /-- Any other phi gets the value that its incoming expression has where it is rendered, and there
  all phis still have their old values. -/
  moved : ∀ {i phi}, cx.graph.phis[i]? = some phi →
    phi.inputsFrom source ≠ [] → phi.inputsFrom source ≠ [some phi.id] →
      ∃ value before e, phi.inputsFrom source = [some value] ∧
        RendersIncoming cx source s phi.id value before e ∧ before <+: lines ∧
          ∀ {V W : Type} (M : Meaning V W) (σ : Store V W), M.Spares lines →
            (∀ j, (M.run before σ).temps ⟨.phi, j⟩ = σ.temps ⟨.phi, j⟩) ∧
              (M.run lines σ).temps ⟨.phi, i⟩ = (M.eval e (M.run before σ)).1

/-- A phi that flows into a phi is rendered as its temporary. -/
theorem RendersIncoming.eq_temp {phi : NodeId} {before : List Line} {e : Expr} (hs : Reachable cx s)
    {j : Nat} {value : Phi} (hj : cx.graph.phis[j]? = some value)
    (h : RendersIncoming cx source s phi value.id before e) : e = .temp ⟨.phi, j⟩ := by
  obtain ⟨-, -, hdone, heval, -⟩ := h
  have hphis := hs.phisNamed.flowsIn (flowsIn_of_ok hdone)
  cases evaluates_of_ok heval with
  | known hv _ => rw [Option.some.inj (hv.symm.trans (hphis.phis hj))]
  | render hv => cases hv.symm.trans (hphis.phis hj)

/-- A phi that takes the value of a phi gets the old one, even if the two swap their values. -/
theorem AssignsInParallel.copied {lines : List Line} (h : AssignsInParallel cx source s lines)
    (hs : Reachable cx s) {i j : Nat} {phi value : Phi} (hi : cx.graph.phis[i]? = some phi)
    (hj : cx.graph.phis[j]? = some value) (hin : phi.inputsFrom source = [some value.id])
    {V W : Type} (M : Meaning V W) (σ : Store V W) (hspares : M.Spares lines) :
    (M.run lines σ).temps ⟨.phi, i⟩ = σ.temps ⟨.phi, j⟩ := by
  by_cases hself : value.id = phi.id
  · obtain rfl := phi_position_unique hi hj hself.symm
    exact h.kept hi (.inr (hself ▸ hin)) M σ hspares
  · obtain ⟨_, before, e, hvalue, hrenders, -, hrun⟩ :=
      h.moved hi (by simp [hin]) (by simpa [hin] using hself)
    obtain rfl : value.id = _ := by simpa [hin] using hvalue
    obtain rfl := hrenders.eq_temp hs hj
    obtain ⟨hold, hnew⟩ := hrun M σ hspares
    rw [hnew, M.temp]
    exact hold j

theorem not_assignsPhi_of_isFresh {n : Nat} {l : Line} (h : l.IsFresh n) : ¬ l.AssignsPhi := by
  rintro ⟨t, ht, hphi⟩
  rw [(h.2 t ht).1] at hphi
  cases hphi

/-- If all values were kept first, no assignment reads a phi. -/
theorem readsPhisFirst_of_settled {assignments : List (NodeId × Expr)} {staging feeds : List Line}
    (hstaging : ∀ l ∈ staging, ¬ l.AssignsPhi)
    (hfeeds : List.Forall₂ (IsFeed cx) assignments feeds)
    (hsettled : ∀ a ∈ assignments, ∃ n, a.2.IsSettled n) : ReadsPhisFirst (staging ++ feeds) := by
  have hreads : ∀ l ∈ feeds, ¬ l.ReadsPhi := by
    clear hstaging
    induction hfeeds with
    | nil => simp
    | cons hfirst _ ih =>
      obtain ⟨⟨n, he⟩, hrest⟩ := List.forall_mem_cons.1 hsettled
      refine List.forall_mem_cons.2 ⟨?_, ih hrest⟩
      rintro ⟨t, ht, hphi⟩
      obtain ⟨_, _, _, _, rfl⟩ := hfirst
      rw [Line.reads, Line.exprs, List.flatMap_singleton] at ht
      rw [he.kind_eq ht] at hphi
      cases hphi
  intro before l after hsplit hl l' hl'
  obtain ⟨early, -, rfl⟩ | ⟨late, rfl, hlate⟩ := List.append_eq_append_iff.1 hsplit
  · exact absurd hl (hreads l (by simp))
  · cases late with
    | nil =>
      rw [List.nil_append] at hlate
      exact absurd hl (hreads l (hlate ▸ List.mem_cons_self))
    | cons first late =>
      obtain ⟨rfl, -⟩ := List.cons.inj hlate
      refine hstaging l' ?_
      rw [List.append_cons]
      exact List.mem_append_left late hl'

/-- The lines of an edge: `staging` keeps the values of the moves, and `feeds` assigns them. -/
structure EdgeLines (cx : Context) (source : NodeId) (s : Emitter) (moves : List (NodeId × NodeId))
    (assignments : List (NodeId × Expr)) (staging feeds : List Line) : Prop where
  keys : assignments.map Prod.fst = moves.map Prod.fst
  quiet : ∀ l ∈ staging, l.IsQuiet ∧ ¬ l.AssignsPhi
  feeds : List.Forall₂ (IsFeed cx) assignments feeds
  settled : assignments.length ≤ 1 ∨ ∀ a ∈ assignments, ∃ n, a.2.IsSettled n
  renders : ∀ {phi value}, (phi, value) ∈ moves → ∃ before e kept,
    RendersIncoming cx source s phi value before e ∧ before <+: staging ∧
      (phi, kept) ∈ assignments ∧ ∀ {V W : Type} (M : Meaning V W) (σ : Store V W),
        M.Spares staging → (M.eval kept (M.run staging σ)).1 = (M.eval e (M.run before σ)).1

theorem edgeLines_of_ok (hs : Reachable cx s) (h : assignPhis cx source s = .ok () s') :
    ∃ moves assignments staging feeds, phiMoves cx source = .ok moves ∧
      s'.lines = s.lines ++ (staging ++ feeds) ∧
      EdgeLines cx source s moves assignments staging feeds := by
  simp only [assignPhis, Emit.bind_ok, Emit.lift_ok] at h
  obtain ⟨moves, _, ⟨hmoves, rfl⟩, assignments, s₁, hin, hfeed⟩ := h
  have hflow := flowsIn_of_ok hin
  have hkeys := hflow.map_fst
  have hphis : ∀ a ∈ assignments, a.1 ∈ cx.graph.phis.map Phi.id := by
    intro a ha
    obtain ⟨move, hmove, hid⟩ := List.mem_map.1 (hkeys ▸ List.mem_map_of_mem ha)
    obtain ⟨-, phi, hphi, hphi_id⟩ := mem_phiInputs_of_move hmoves hmove
    exact (hphi_id.trans hid) ▸ List.mem_map_of_mem hphi
  obtain ⟨-, staging, hstaging, hfresh⟩ := hflow.addsFresh
  obtain ⟨feeds, hlines, hfeeds⟩ := (feeds_of_ok hfeed).isFeed (hs.phisNamed.flowsIn hflow) hphis
  refine ⟨moves, assignments, staging, feeds, hmoves, by simp [hlines, hstaging], hkeys,
    fun l hl => ⟨(hfresh l hl).1, not_assignsPhi_of_isFresh (hfresh l hl)⟩, hfeeds, ?_,
    rendersIncoming_of_mem hs.numbered hs.phisNamed hmoves hin hstaging⟩
  by_cases hmany : 1 < moves.length
  · rw [decide_eq_true hmany] at hflow
    exact .inr (hflow.settled hs.numbered hs.phisNamed)
  · exact .inl (hflow.length_eq.trans_le (Nat.not_lt.1 hmany))

namespace EdgeLines

variable {moves : List (NodeId × NodeId)} {assignments : List (NodeId × Expr)}
  {staging feeds : List Line} (h : EdgeLines cx source s moves assignments staging feeds)

include h

theorem straight : Straight (staging ++ feeds) := by
  refine List.forall_mem_append.2 ⟨fun l hl => (h.quiet l hl).1.1, ?_⟩
  have hfeeds := h.feeds
  clear h
  induction hfeeds with
  | nil => simp
  | cons hfirst _ ih =>
    obtain ⟨_, _, _, _, rfl⟩ := hfirst
    exact List.forall_mem_cons.2 ⟨rfl, ih⟩

theorem order : ReadsPhisFirst (staging ++ feeds) ∨ AssignsPhiOnce (staging ++ feeds) := by
  have hquiet : ∀ l ∈ staging, ¬ l.AssignsPhi := fun l hl => (h.quiet l hl).2
  obtain hone | hsettled := h.settled
  · rw [h.feeds.length_eq] at hone
    match feeds, hone with
    | [], _ =>
      refine .inl fun before l after hsplit _ l' hl' => hquiet l' ?_
      rw [List.append_nil] at hsplit
      rw [hsplit, List.append_cons]
      exact List.mem_append_left after hl'
    | [l], _ => exact .inr ⟨staging, l, rfl, hquiet⟩
  · exact .inl (readsPhisFirst_of_settled hquiet h.feeds hsettled)

section run

variable {V W : Type} {M : Meaning V W} {lines : List Line}

/-- Where values are kept, all phis still have their old values. -/
theorem run_staging (hlines : lines ⊆ staging) (hspares : M.Spares lines) (j : Nat)
    (σ : Store V W) : (M.run lines σ).temps ⟨.phi, j⟩ = σ.temps ⟨.phi, j⟩ :=
  Meaning.temps_run hspares fun l hl ht => (h.quiet l (hlines hl)).2 ⟨_, ht, rfl⟩

variable {i : Nat} {phi : Phi} (hi : cx.graph.phis[i]? = some phi)
  (hspares : M.Spares (staging ++ feeds))

include hi hspares

theorem run_kept (hkey : phi.id ∉ moves.map Prod.fst) (σ : Store V W) :
    (M.run (staging ++ feeds) σ).temps ⟨.phi, i⟩ = σ.temps ⟨.phi, i⟩ := by
  rw [M.run_append, run_feeds_other h.feeds hspares.right hi (h.keys ▸ hkey),
    h.run_staging (List.Subset.refl _) hspares.left]

theorem run_moved (hnodup : (moves.map Prod.fst).Nodup) {e : Expr}
    (ha : (phi.id, e) ∈ assignments) (σ : Store V W) :
    (M.run (staging ++ feeds) σ).temps ⟨.phi, i⟩ = (M.eval e (M.run staging σ)).1 := by
  rw [M.run_append]
  refine run_feeds h.feeds hspares.right hi (h.keys ▸ hnodup) (fun a ha => ?_) ha _
  obtain hone | hsettled := h.settled
  · rw [List.eq_nil_of_length_eq_zero (l := assignments.tail) (by simp; omega)] at ha
    cases ha
  · exact hsettled a (List.mem_of_mem_tail ha)

end run

end EdgeLines

/-- On an edge all phis are assigned in parallel, whatever phis the incoming values read. -/
theorem phis_assigned_in_parallel (hs : Reachable cx s)
    (honce : ∀ phi ∈ cx.graph.phis, phi.predecessors.count source ≤ 1)
    (h : assignPhis cx source s = .ok () s') :
    ∃ lines, s'.lines = s.lines ++ lines ∧ AssignsInParallel cx source s lines := by
  obtain ⟨moves, assignments, staging, feeds, hmoves, hlines, hedge⟩ := edgeLines_of_ok hs h
  have honce := movesOnce_of_ok hmoves honce
  refine ⟨staging ++ feeds, hlines, hedge.straight, hedge.order, hs.phisNamed.phis,
    fun hi hin V W M σ hspares => ?_, fun {i phi} hi hfed hself => ?_⟩
  · exact hedge.run_kept hi hspares (honce.kept (List.mem_of_getElem? hi) hin) σ
  · have hphi := List.mem_of_getElem? hi
    obtain hin | ⟨value, hin⟩ := honce.inputs phi hphi
    · exact absurd hin hfed
    · have hne : value ≠ phi.id := fun heq => hself (heq ▸ hin)
      obtain ⟨before, e, kept, hrenders, hbefore, hkept, hvalue⟩ :=
        hedge.renders (honce.moved hphi hin hne)
      refine ⟨value, before, e, hin, hrenders, hbefore.trans (List.prefix_append _ _),
        fun M σ hspares => ⟨fun j => ?_, ?_⟩⟩
      · obtain ⟨later, rfl⟩ := hbefore
        exact hedge.run_staging (List.subset_append_left _ _) hspares.left.left j σ
      · rw [hedge.run_moved hi hspares honce.phis hkept, hvalue M σ hspares.left]

/-- A loop with two phis that swap their values, one that follows the first of them, one that takes
their sum, one that keeps its value and one that takes a constant. -/
def swappingLoop : Context where
  cls := { name := ⟨"Kernel"⟩ }
  method :=
    { name := "run"
      graph := ⟨#[.marker .start, .marker .goto, .int 1,
        .phi .int [(0, 2), (1, 4)], .phi .int [(0, 2), (1, 3)], .phi .int [(0, 2), (1, 3)],
        .phi .int [(0, 2), (1, 9)], .phi .int [(0, 2), (1, 7)], .phi .int [(0, 2), (1, 2)],
        ⟨.binary .add, .int, [3, 4]⟩]⟩
      body := [.edge 0, .block ⟨"L", true⟩ [.again 1 "L"]] }

theorem phis_assigned_in_parallel_swappingLoop :
    ∃ s s' lines, Reachable swappingLoop s ∧ assignPhis swappingLoop 1 s = .ok () s' ∧
      s'.lines = s.lines ++ lines ∧ AssignsInParallel swappingLoop 1 s lines ∧
      ∀ {V W : Type} (M : Meaning V W) (σ : Store V W), M.Spares lines →
        (M.run lines σ).temps ⟨.phi, 0⟩ = σ.temps ⟨.phi, 1⟩ ∧
          (M.run lines σ).temps ⟨.phi, 1⟩ = σ.temps ⟨.phi, 0⟩ := by
  obtain ⟨_, s', hrun⟩ := Emit.exists_ok
    (emitEvent swappingLoop (.edge 0) >>= fun _ => assignPhis swappingLoop 1)
    (Emitter.start swappingLoop) (by cbv)
  obtain ⟨_, s, hentry, hback⟩ := Emit.bind_ok.1 hrun
  have hs : Reachable swappingLoop s := .event .start hentry
  obtain ⟨lines, hlines, hparallel⟩ := phis_assigned_in_parallel hs (by decide) hback
  exact ⟨s, s', lines, hs, hback, hlines, hparallel, fun M σ hspares =>
    ⟨hparallel.copied hs rfl rfl rfl M σ hspares, hparallel.copied hs rfl rfl rfl M σ hspares⟩⟩

end KernelForge.Source
