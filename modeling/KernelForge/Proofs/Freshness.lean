import KernelForge.Proofs.Replay
import KernelForge.Proofs.Temporaries

/-!
# Temporaries are new when they are introduced

A line that gives a temporary its first value comes before every other line that names it, and no two
lines introduce the same temporary. The counter of the emitter is above the index of every temporary
that was named so far or is still remembered.
-/

namespace KernelForge.Source

variable {cx : Context} {s s' : Emitter}

namespace Line

/-- The temporary that a line gives its first value. -/
def introduces? : Line → Option Temp
  | .define _ _ t _ | .store _ t _ | .stage _ t _ => some t
  | _ => none

/-- The node whose value a line keeps, with its temporary. -/
def keeps? : Line → Option (NodeId × Temp)
  | .define id _ t _ | .store id t _ => some (id, t)
  | _ => none

theorem introduces?_of_keeps? {l : Line} {id : NodeId} {t : Temp} (h : l.keeps? = some (id, t)) :
    l.introduces? = some t := by
  cases l <;> simp_all [keeps?, introduces?]

theorem mem_names_of_introduces? {l : Line} {t : Temp} (h : l.introduces? = some t) :
    t ∈ l.names := by
  cases l <;> simp_all [introduces?, names, needs, declared?]

theorem mem_names_of_mem_reads {l : Line} {t : Temp} (h : t ∈ l.reads) : t ∈ l.names := by
  refine List.mem_append_left _ ?_
  unfold needs
  split
  · exact List.mem_cons_of_mem _ h
  · exact List.mem_cons_of_mem _ h
  · exact h

/-- A line that introduces a temporary names it and what it reads. -/
theorem names_of_introduces? {l : Line} {t t' : Temp} (h : l.introduces? = some t)
    (ht' : t' ∈ l.names) : t' = t ∨ t' ∈ l.reads := by
  cases l <;> simp_all [introduces?, names, needs, declared?, or_comm]

end Line

/-- No line names a temporary that a later line introduces, or that it introduces itself while it reads
it. -/
structure Ordered (lines : List Line) : Prop where
  earlier : lines.Pairwise fun l l' => ∀ t ∈ l'.introduces?, t ∉ l.names
  self : ∀ l ∈ lines, ∀ t ∈ l.introduces?, t ∉ l.reads

theorem Ordered.concat {lines : List Line} {l : Line} (h : Ordered lines)
    (hearlier : ∀ t ∈ l.introduces?, ∀ l' ∈ lines, t ∉ l'.names)
    (hself : ∀ t ∈ l.introduces?, t ∉ l.reads) : Ordered (lines ++ [l]) := by
  refine ⟨List.pairwise_append.2 ⟨h.earlier, List.pairwise_singleton _ _, ?_⟩, ?_⟩
  · intro l' hl' l₁ hl₁ t ht
    obtain rfl := List.mem_singleton.1 hl₁
    exact hearlier t ht l' hl'
  · intro l' hl'
    rcases List.mem_append.1 hl' with hl' | hl'
    · exact h.self l' hl'
    · obtain rfl := List.mem_singleton.1 hl'
      exact hself

/-- The line that introduces a temporary comes before every line that reads it. -/
theorem Ordered.mem_before {before after : List Line} {l l₀ : Line} {t : Temp}
    (h : Ordered (before ++ l :: after)) (hl₀ : l₀ ∈ before ++ l :: after)
    (ht : l₀.introduces? = some t) (hread : t ∈ l.reads) : l₀ ∈ before := by
  rcases List.mem_append.1 hl₀ with hl₀ | hl₀
  · exact hl₀
  · exfalso
    rcases List.mem_cons.1 hl₀ with rfl | hl₀
    · exact h.self l₀ (by simp) t ht hread
    · have hlater := (List.pairwise_append.1 h.earlier).2.1
      exact (List.pairwise_cons.1 hlater).1 l₀ hl₀ t ht (Line.mem_names_of_mem_reads hread)

/-- Only one line introduces a temporary. -/
theorem Ordered.unique {lines : List Line} {l l' : Line} {t : Temp} (h : Ordered lines)
    (hl : l ∈ lines) (hl' : l' ∈ lines) (ht : l.introduces? = some t)
    (ht' : l'.introduces? = some t) : l = l' := by
  obtain ⟨before, after, rfl⟩ := List.append_of_mem hl
  obtain ⟨-, hafter, hbefore⟩ := List.pairwise_append.1 h.earlier
  rcases List.mem_append.1 hl' with hl' | hl'
  · exact absurd (Line.mem_names_of_introduces? ht') (hbefore l' hl' l List.mem_cons_self t ht)
  · rcases List.mem_cons.1 hl' with rfl | hl'
    · rfl
    · exact absurd (Line.mem_names_of_introduces? ht)
        ((List.pairwise_cons.1 hafter).1 l' hl' t ht')

/-! ### The counter -/

/-- An expression names only temporaries that were handed out. -/
def Emitter.Below (s : Emitter) (e : Expr) : Prop :=
  ∀ t ∈ e.temps, t.index < s.counter

theorem Emitter.Below.mono {e : Expr} (h : s.Below e) (hcounter : s.counter ≤ s'.counter) :
    s'.Below e :=
  fun t ht => Nat.lt_of_lt_of_le (h t ht) hcounter

/-- Every temporary named or remembered so far was handed out, and each is introduced before it is
named. A constant that is remembered was kept by a line. -/
structure Numbered (cx : Context) (s : Emitter) : Prop where
  names : ∀ l ∈ s.lines, ∀ t ∈ l.names, t.index < s.counter
  ordered : Ordered s.lines
  values : ∀ {id v}, s.value? id = some v → ∃ t, v.expr = .temp t ∧ t.index < s.counter ∧
    ((cx.graph.get? id).any (·.kind.isConstant) → ∃ l ∈ s.lines, l.keeps? = some (id, t))

namespace Numbered

theorem below (h : Numbered cx s) {id : NodeId} {v : Value} (hv : s.value? id = some v) :
    s.Below v.expr := by
  obtain ⟨t, ht, hindex, -⟩ := h.values hv
  intro t' ht'
  rw [ht, Expr.temps, List.mem_singleton] at ht'
  exact ht' ▸ hindex

/-- Forgetting names and changing anything but the lines and the counter does no harm. -/
theorem congr (h : Numbered cx s) (hlines : s'.lines = s.lines) (hcounter : s'.counter = s.counter)
    (hvalues : ∀ {id v}, s'.value? id = some v → s.value? id = some v) : Numbered cx s' := by
  refine ⟨?_, hlines ▸ h.ordered, fun hv => ?_⟩
  · rw [hlines, hcounter]
    exact h.names
  · rw [hlines, hcounter]
    exact h.values (hvalues hv)

/-- A line that introduces nothing. -/
theorem write (h : Numbered cx s) {l : Line} (hl : l.introduces? = none)
    (hnames : ∀ t ∈ l.names, t.index < s.counter) : Numbered cx (s.write l) := by
  have hlines := s.lines_write l
  refine ⟨fun l' hl' => ?_, ?_, fun hv => ?_⟩
  · rw [hlines, List.mem_append, List.mem_singleton] at hl'
    rcases hl' with hl' | rfl
    · exact h.names l' hl'
    · exact hnames
  · rw [hlines]
    exact h.ordered.concat (by simp [hl]) (by simp [hl])
  · obtain ⟨t, ht, hindex, hconst⟩ := h.values hv
    refine ⟨t, ht, hindex, fun hc => ?_⟩
    obtain ⟨l', hl', hkeeps⟩ := hconst hc
    exact ⟨l', by rw [hlines]; exact List.mem_append_left _ hl', hkeeps⟩

/-- A line that introduces the next temporary. -/
theorem introduce (h : Numbered cx s) {l : Line} {t : Temp} (hl : l.introduces? = some t)
    (ht : t.index = s.counter) (hreads : ∀ t ∈ l.reads, t.index < s.counter)
    (hlines : s'.lines = s.lines ++ [l]) (hcounter : s'.counter = s.counter + 1)
    (hvalues : ∀ {id v}, s'.value? id = some v →
      s.value? id = some v ∨ v.expr = .temp t ∧ l.keeps? = some (id, t)) : Numbered cx s' := by
  have hnew : ∀ {t' : Temp}, t'.index < s.counter → t ≠ t' := by
    rintro t' hlt rfl
    exact Nat.lt_irrefl _ (ht ▸ hlt)
  refine ⟨fun l' hl' t' ht' => ?_, ?_, fun hv => ?_⟩
  · rw [hcounter]
    rw [hlines, List.mem_append, List.mem_singleton] at hl'
    rcases hl' with hl' | rfl
    · exact Nat.lt_succ_of_lt (h.names l' hl' t' ht')
    · rcases Line.names_of_introduces? hl ht' with rfl | hread
      · exact ht ▸ Nat.lt_succ_self _
      · exact Nat.lt_succ_of_lt (hreads t' hread)
  · rw [hlines]
    refine h.ordered.concat (fun t' ht' l' hl' hmem => ?_) fun t' ht' hread => ?_
    all_goals obtain rfl := Option.some.inj (hl.symm.trans ht')
    · exact hnew (h.names l' hl' t hmem) rfl
    · exact hnew (hreads t hread) rfl
  · rw [hlines, hcounter]
    rcases hvalues hv with hv | ⟨hexpr, hkeeps⟩
    · obtain ⟨t', ht', hindex, hconst⟩ := h.values hv
      refine ⟨t', ht', Nat.lt_succ_of_lt hindex, fun hc => ?_⟩
      obtain ⟨l', hl', hkeeps⟩ := hconst hc
      exact ⟨l', List.mem_append_left _ hl', hkeeps⟩
    · exact ⟨t, hexpr, ht ▸ Nat.lt_succ_self _, fun _ => ⟨l, by simp, hkeeps⟩⟩

/-! ### Evaluation -/

theorem materialize (h : Numbered cx s) (id : NodeId) (ty : Ty) {e : Expr} (keep : Bool)
    (he : s.Below e) : Numbered cx (s.materialize cx id ty e keep) := by
  have hline : (s.keepLine cx id ty e keep).keeps? = some (id, s.nextTemp .var) ∧
      (s.keepLine cx id ty e keep).reads = e.temps := by
    unfold Emitter.keepLine
    split <;> simp [Line.keeps?, Line.reads, Line.exprs]
  refine h.introduce (Line.introduces?_of_keeps? hline.1) rfl (hline.2 ▸ he)
    (s.lines_materialize cx id ty e keep) (by rw [Emitter.materialize_eq]) fun {j v} hv => ?_
  rw [Emitter.value?_materialize] at hv
  split_ifs at hv with hj
  · exact .inr ⟨by rw [← Option.some.inj hv], hj ▸ hline.1⟩
  · exact .inl hv

/-- A temporary that is declared at the top and never introduced by a line. -/
theorem declare (h : Numbered cx s) {id : NodeId} {d : Declaration} {ty : Ty} {t : Temp}
    (ht : t.index = s.counter) (hid : (cx.graph.get? id).any (·.kind.isConstant) = false) :
    Numbered cx ((s.countTemp.declare d).bind id ⟨ty, .temp t⟩) := by
  refine ⟨fun l hl t' ht' => Nat.lt_succ_of_lt (h.names l hl t' ht'), h.ordered, fun {j v} hv => ?_⟩
  rw [Emitter.value?_bind] at hv
  split_ifs at hv with hj
  · refine ⟨t, by rw [← Option.some.inj hv], ht ▸ Nat.lt_succ_self _, fun hc => ?_⟩
    rw [hj, hid] at hc
    cases hc
  · obtain ⟨t', ht', hindex, hconst⟩ := h.values hv
    exact ⟨t', ht', Nat.lt_succ_of_lt hindex, hconst⟩

theorem produced {id : NodeId} {node : Node} {args : List Value} {v : Value}
    (h : Numbered cx s) (hnode : cx.graph.get? id = some node)
    (hargs : ∀ a ∈ args, s.Below a.expr) (hprod : Produced cx id node args s v s') :
    Numbered cx s' ∧ s.counter ≤ s'.counter ∧ s'.Below v.expr := by
  have hexpress : ∀ {e}, cx.express id node (args.map Value.expr) = .ok e → s.Below e := by
    intro e he t ht
    obtain ⟨a, ha, hta⟩ := temps_express he ht
    obtain ⟨arg, harg, rfl⟩ := List.mem_map.1 ha
    exact hargs arg harg t hta
  have hrender : Numbered cx (s.render id) := h.congr rfl rfl fun hv => hv
  have hvalue := hprod.value? id
  cases hprod with
  | inline he hk => exact ⟨hrender, Nat.le_refl _, hexpress he⟩
  | kept he hk =>
    have hnew := hrender.materialize id node.ty (node.hasSideEffects || s.pinned.contains id)
      (hexpress he)
    refine ⟨hnew, ?_, hnew.below (hvalue.trans (if_pos ⟨rfl, hk⟩))⟩
    rw [Emitter.materialize_eq]
    exact Nat.le_succ _
  | @array element length hkind hk =>
    have hnew : Numbered cx (((s.render id).countTemp.declare (.array element (s.nextTemp .var)
        length)).bind id ⟨node.ty, .temp (s.nextTemp .var)⟩) :=
      hrender.declare rfl (by rw [hnode, Option.any_some, hkind]; rfl)
    exact ⟨hnew, Nat.le_succ _, hnew.below (hvalue.trans (if_pos ⟨rfl, hk⟩))⟩

theorem evaluates {ids : List NodeId} {vs : List Value} (h : Numbered cx s)
    (heval : Evaluates cx ids s vs s') :
    Numbered cx s' ∧ s.counter ≤ s'.counter ∧ ∀ v ∈ vs, s'.Below v.expr := by
  induction heval with
  | nil s => exact ⟨h, Nat.le_refl _, by simp⟩
  | known hv _ ih =>
    obtain ⟨hnew, hcounter, hbelow⟩ := ih h
    refine ⟨hnew, hcounter, fun w hw => ?_⟩
    rcases List.mem_cons.1 hw with rfl | hw
    · exact (h.below hv).mono hcounter
    · exact hbelow w hw
  | render _ hnode _ _ hprod _ ihargs ihrest =>
    obtain ⟨h₁, hcounter₁, hbelow₁⟩ := ihargs h
    obtain ⟨h₂, hcounter₂, hbelow₂⟩ := h₁.produced hnode hbelow₁ hprod
    obtain ⟨h₃, hcounter₃, hbelow₃⟩ := ihrest h₂
    refine ⟨h₃, Nat.le_trans hcounter₁ (Nat.le_trans hcounter₂ hcounter₃), fun w hw => ?_⟩
    rcases List.mem_cons.1 hw with rfl | hw
    · exact hbelow₂.mono hcounter₃
    · exact hbelow₃ w hw

/-- Evaluating a single node. -/
theorem evaluate {id : NodeId} {v : Value} (h : Numbered cx s)
    (heval : Evaluates cx [id] s [v] s') :
    Numbered cx s' ∧ s.counter ≤ s'.counter ∧ s'.Below v.expr := by
  obtain ⟨hnew, hcounter, hbelow⟩ := h.evaluates heval
  exact ⟨hnew, hcounter, hbelow v (List.mem_singleton_self v)⟩

/-! ### Hoisting and phis -/

theorem binds {unstable ids : List NodeId} (h : Numbered cx s)
    (hbinds : Binds cx unstable ids s s') : Numbered cx s' ∧ s.counter ≤ s'.counter := by
  induction hbinds with
  | nil => exact ⟨h, Nat.le_refl _⟩
  | known _ _ ih => exact ih h
  | now _ _ heval _ ih =>
    obtain ⟨h₁, hcounter, -⟩ := h.evaluate heval
    exact (ih h₁).imp_right (Nat.le_trans hcounter)
  | pin _ _ ih => exact ih (h.congr rfl rfl fun hv => hv)

theorem hoists {anchor : Anchor} (h : Numbered cx s) (hhoist : Hoists cx anchor s s') :
    Numbered cx s' ∧ s.counter ≤ s'.counter := by
  cases hhoist with
  | nothing _ heq =>
    subst heq
    exact ⟨h, Nat.le_refl _⟩
  | planned _ hbinds =>
    have hplan : Numbered cx { s with plan := s.plan.without anchor } := h.congr rfl rfl fun hv => hv
    exact hplan.binds hbinds

theorem stage (h : Numbered cx s) {e : Expr} (he : s.Below e) (type : String) :
    Numbered cx (s.countTemp.write (.stage type (s.nextTemp .var) e)) := by
  refine h.introduce rfl rfl (fun t ht => he t ?_) (Emitter.lines_write _ _) rfl fun hv => .inl hv
  simpa [Line.reads, Line.exprs] using ht

theorem flowsIn {staged : Bool} {moves : List (NodeId × NodeId)}
    {assignments : List (NodeId × Expr)} (h : Numbered cx s)
    (hin : FlowsIn cx staged moves s assignments s') :
    Numbered cx s' ∧ s.counter ≤ s'.counter ∧ ∀ a ∈ assignments, s'.Below a.2 := by
  induction hin with
  | nil => exact ⟨h, Nat.le_refl _, by simp⟩
  | direct heval _ _ _ ih =>
    obtain ⟨h₁, hcounter₁, hbelow₁⟩ := h.evaluate heval
    obtain ⟨h₂, hcounter₂, hbelow₂⟩ := ih h₁
    refine ⟨h₂, Nat.le_trans hcounter₁ hcounter₂, fun a ha => ?_⟩
    rcases List.mem_cons.1 ha with rfl | ha
    · exact hbelow₁.mono hcounter₂
    · exact hbelow₂ a ha
  | @stage phi value rest s s₁ s' v assignments _ heval _ ih =>
    obtain ⟨h₁, hcounter₁, hbelow₁⟩ := h.evaluate heval
    obtain ⟨h₂, hcounter₂, hbelow₂⟩ := ih (h₁.stage hbelow₁ _)
    have hcounter : s₁.counter + 1 ≤ s'.counter := hcounter₂
    refine ⟨h₂, by omega, fun a ha => ?_⟩
    rcases List.mem_cons.1 ha with rfl | ha
    · intro t ht
      rw [Expr.temps, List.mem_singleton] at ht
      exact ht ▸ hcounter
    · exact hbelow₂ a ha

theorem feeds {assignments : List (NodeId × Expr)} (h : Numbered cx s)
    (hbelow : ∀ a ∈ assignments, s.Below a.2) (hfeeds : Feeds assignments s s') :
    Numbered cx s' := by
  induction hfeeds with
  | nil => exact h
  | @cons phi e rest s s' ty t hv _ ih =>
    refine ih (h.write rfl fun t' ht' => ?_) fun a ha => hbelow a (List.mem_cons_of_mem _ ha)
    have ht' : t' = t ∨ t' ∈ e.temps := by
      simpa [Line.names, Line.needs, Line.declared?, Line.reads, Line.exprs] using ht'
    rcases ht' with rfl | ht'
    · exact h.below hv t' (by rw [Expr.temps]; exact List.mem_singleton_self t')
    · exact hbelow _ List.mem_cons_self t' ht'

theorem assigns {source : NodeId} (h : Numbered cx s) (hassign : Assigns cx source s s') :
    Numbered cx s' := by
  obtain ⟨_, hin, hfeed⟩ := hassign
  obtain ⟨h₁, -, hbelow⟩ := h.flowsIn hin
  exact h₁.feeds hbelow hfeed

/-! ### Events -/

/-- A line without names. -/
theorem writeBare (h : Numbered cx s) {l : Line} (hl : l.names = []) : Numbered cx (s.write l) := by
  refine h.write (Option.eq_none_iff_forall_ne_some.2 fun t ht => ?_) (by simp [hl])
  have hmem := Line.mem_names_of_introduces? ht
  rw [hl] at hmem
  cases hmem

theorem closeScope (h : Numbered cx s) : Numbered cx s.closeScope :=
  h.congr s.lines_closeScope s.counter_closeScope s.value?_of_closeScope

theorem closed (h : Numbered cx s) (rest : List Open) : Numbered cx (s.closed rest) := by
  have hopened : Numbered cx { s with opened := rest } := h.congr rfl rfl fun hv => hv
  exact hopened.closeScope.writeBare rfl

theorem indent (h : Numbered cx s) (n : Nat) : Numbered cx { s with indent := n } :=
  h.congr rfl rfl fun hv => hv

theorem writeDefault (h : Numbered cx s) : Numbered cx (writeDefault s) := by
  have hcase : Numbered cx (s.write (.openCase none)) := h.writeBare rfl
  have hend := (hcase.indent (s.indent + 1)).writeBare (l := .endCase) rfl
  exact (hend.indent (s.indent + 1 - 1)).writeBare rfl

theorem emitted {e : Event} (h : Numbered cx s) (he : Emitted cx e s s') : Numbered cx s' := by
  cases he with
  | effectKnown => exact h
  | effectVoid _ _ _ heval =>
    obtain ⟨h₁, -, hbelow⟩ := h.evaluate heval
    refine h₁.write rfl fun t ht => hbelow t ?_
    simpa [Line.names, Line.needs, Line.reads, Line.exprs, Line.declared?] using ht
  | effectKept _ _ _ heval => exact (h.evaluate heval).1
  | effectFresh _ _ _ heval =>
    obtain ⟨h₁, -, hbelow⟩ := h.evaluate heval
    exact h₁.materialize _ _ _ hbelow
  | ret => exact h.writeBare rfl
  | retValue _ heval =>
    obtain ⟨h₁, -, hbelow⟩ := h.evaluate heval
    refine h₁.write rfl fun t ht => hbelow t ?_
    simpa [Line.names, Line.needs, Line.reads, Line.exprs, Line.declared?] using ht
  | @startBlock b s s₁ _ hhoist =>
    have hlabels : Numbered cx { s with labels := b.label :: s.labels } :=
      h.congr rfl rfl fun hv => hv
    obtain ⟨h₁, -⟩ := hlabels.hoists hhoist
    exact (h₁.writeBare (l := .openBlock b) rfl).congr rfl rfl fun hv => hv
  | @finishBlock b _ used rest =>
    split
    · exact (h.closed rest).writeBare rfl
    · exact h.closed rest
  | startIf _ heval hhoist =>
    obtain ⟨h₁, -, hbelow⟩ := h.evaluate heval
    obtain ⟨h₂, hcounter⟩ := h₁.hoists hhoist
    refine Numbered.congr (h₂.write rfl fun t ht => hbelow.mono hcounter t ?_) rfl rfl fun hv => hv
    simpa [Line.names, Line.needs, Line.reads, Line.exprs, Line.declared?] using ht
  | @startElse id rest s _ =>
    have hopened : Numbered cx { s with opened := .branch id true :: rest } :=
      h.congr rfl rfl fun hv => hv
    exact (hopened.closeScope.writeBare (l := .otherwise) rfl).congr rfl rfl fun hv => hv
  | finishIf => exact h.closed _
  | startSwitch _ heval hhoist =>
    obtain ⟨h₁, -, hbelow⟩ := h.evaluate heval
    obtain ⟨h₂, hcounter⟩ := h₁.hoists hhoist
    refine Numbered.congr (h₂.write rfl fun t ht => hbelow.mono hcounter t ?_) rfl rfl fun hv => hv
    simpa [Line.names, Line.needs, Line.reads, Line.exprs, Line.declared?] using ht
  | @startCase _ key =>
    exact (h.writeBare (l := .openCase key) rfl).congr rfl rfl fun hv => hv
  | finishCase => exact (h.writeBare rfl).closed _
  | @finishSwitch id hasDefault rest s s₁ _ hdefault =>
    have h₁ : Numbered cx s₁ := by
      rw [hdefault]
      split
      · exact h
      · exact h.writeDefault
    have hopened : Numbered cx { s₁ with indent := s₁.indent - 1, opened := rest } :=
      h₁.congr rfl rfl fun hv => hv
    exact hopened.writeBare rfl
  | @leave _ label s _ _ hassign =>
    have hopened : Numbered cx { s with opened := markExit label s.opened } :=
      h.congr rfl rfl fun hv => hv
    exact (hopened.assigns hassign).writeBare rfl
  | again _ _ hassign => exact (h.assigns hassign).writeBare rfl
  | edge hassign => exact h.assigns hassign

theorem start : Numbered cx (Emitter.start cx) := by
  have hphis : Numbered cx (Emitter.declarePhis cx {}) := by
    apply Emitter.declarePhis_induct (P := Numbered cx)
    · exact ⟨by simp [Emitter.lines], ⟨by simp [Emitter.lines], by simp [Emitter.lines]⟩,
        fun hv => by cases hv⟩
    · intro s phi hphi h
      exact h.declare rfl (by rw [get?_of_mem_phis hphi]; rfl)
  exact hphis.congr rfl rfl fun hv => hv

end Numbered

theorem Reached.numbered {done rest : List Event} (h : Reached cx done rest s) : Numbered cx s :=
  h.induct (motive := fun _ _ s => Numbered cx s) .start fun _ he h => h.emitted he

end KernelForge.Source
