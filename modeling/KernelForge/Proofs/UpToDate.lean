import KernelForge.Proofs.Braces
import KernelForge.Proofs.DefiniteAssignment
import KernelForge.Proofs.Effects

/-!
# Temporaries are up to date on every path

A temporary that is declared in a brace is in scope only where the line that declares it was passed:
a jump never enters a brace. So an emitted program is definite about it (`definiteAll_of_placed`), if
no line outdates it while it stays in scope. A line that outdates it does no harm right before a jump
out of its brace, as at the end of a pass through a loop, since the brace has to be entered again
before the temporary can be read (`Calm`).

Nothing in the text keeps a jump from passing by the line that assigns a temporary declared at the
top. Whether it is assigned wherever it is read has to be checked for each program.
-/

namespace KernelForge.Source

open Relation

variable {stale : Temp → Line → Prop} {top : List Temp} {lines : List Line}
  {stack : List (List Temp)} {t : Temp}

/-! ### Temporaries in scope -/

/-- A temporary is declared in an open brace. -/
def Live (stack : List (List Temp)) (t : Temp) : Prop :=
  ∃ scope ∈ stack, t ∈ scope

/-- Braces that declare nothing. -/
theorem live_append {new : List (List Temp)} (hnew : ∀ scope ∈ new, scope = []) :
    Live (new ++ stack) t ↔ Live stack t := by
  constructor
  · rintro ⟨scope, hscope, ht⟩
    rcases List.mem_append.1 hscope with hscope | hscope
    · rw [hnew scope hscope] at ht
      cases ht
    · exact ⟨scope, hscope, ht⟩
  · rintro ⟨scope, hscope, ht⟩
    exact ⟨scope, List.mem_append_right _ hscope, ht⟩

theorem live_nil_cons : Live ([] :: stack) t ↔ Live stack t :=
  @live_append stack t [[]] (by simp)

/-- What is in scope after a line was in scope before it, or the line declares it. -/
theorem live_of_brace {l : Line} (h : Live (l.brace stack) t) :
    Live stack t ∨ l.declared? = some t := by
  obtain ⟨scope, hscope, ht⟩ := h
  have htail : ∀ {scope}, scope ∈ stack.tail → t ∈ scope → Live stack t :=
    fun hscope ht => ⟨_, List.mem_of_mem_tail hscope, ht⟩
  cases l with
  | define _ _ t' _ | stage _ t' _ =>
    cases stack with
    | nil => cases hscope
    | cons head outer =>
      rcases List.mem_cons.1 hscope with rfl | hscope
      · rcases List.mem_cons.1 ht with rfl | ht
        · exact .inr rfl
        · exact .inl ⟨head, List.mem_cons_self, ht⟩
      · exact .inl ⟨scope, List.mem_cons_of_mem _ hscope, ht⟩
  | openBlock | openIf | openSwitch | openCase =>
    exact .inl (live_nil_cons.1 ⟨scope, hscope, ht⟩)
  | otherwise =>
    obtain ⟨scope, hscope, ht⟩ := live_nil_cons.1 ⟨scope, hscope, ht⟩
    exact .inl (htail hscope ht)
  | close => exact .inl (htail hscope ht)
  | _ => exact .inl ⟨scope, hscope, ht⟩

theorem live_of_bracesFrom (h : Live (bracesFrom stack lines) t) :
    Live stack t ∨ ∃ l ∈ lines, l.declared? = some t := by
  induction lines using List.reverseRecOn with
  | nil => exact .inl h
  | append_singleton lines l ih =>
    rw [bracesFrom_append] at h
    rcases live_of_brace h with h | hl
    · exact (ih h).imp_right fun ⟨l', hl', hdeclared⟩ =>
        ⟨l', List.mem_append_left _ hl', hdeclared⟩
    · exact .inr ⟨l, by simp, hl⟩

/-- Balanced lines leave in scope what was in scope. -/
theorem Balanced.live (h : Balanced lines) (ht : Live stack t) :
    Live (bracesFrom stack lines) t := by
  cases stack with
  | nil =>
    obtain ⟨_, hscope, -⟩ := ht
    cases hscope
  | cons scope outer =>
    obtain ⟨new, hnew⟩ := h scope outer
    rw [hnew]
    obtain ⟨scope', hscope', ht⟩ := ht
    rcases List.mem_cons.1 hscope' with rfl | hscope'
    · exact ⟨new ++ scope', List.mem_cons_self, List.mem_append_right _ ht⟩
    · exact ⟨scope', List.mem_cons_of_mem _ hscope', ht⟩

/-! ### Lines that outdate nothing in scope -/

section spares

variable (stale)

/-- Lines outdate nothing that is in scope. -/
def Spares (lines : List Line) (stack : List (List Temp)) : Prop :=
  ∀ t, Live stack t → ∀ x ∈ lines, ¬ stale t x

/-- A line reads nothing that an earlier line outdates. -/
def ReadsFirst (lines : List Line) : Prop :=
  ∀ before l after, lines = before ++ l :: after → ∀ t ∈ l.reads, ∀ x ∈ before, ¬ stale t x

end spares

theorem Line.introduces?_of_declared? {l : Line} (h : l.declared? = some t) :
    l.introduces? = some t := by
  cases l <;> simp_all [declared?, introduces?]

/-- What is in scope after lines that do not outdate it was in scope before them, or they declare
it. -/
theorem known_of_live {known : Prop} (h : Live (bracesFrom stack lines) t)
    (hlines : ∀ x ∈ lines, ¬ stale t x) (hknown : Live stack t → known) :
    Known stale t known lines := by
  rcases live_of_bracesFrom h with hold | ⟨d, hd, hdeclared⟩
  · exact .inr ⟨hknown hold, hlines⟩
  · exact .inl (fresh_of_mem hd (Line.introduces?_of_declared? hdeclared) hlines)

/-! ### Programs that outdate nothing in scope -/

section calm

variable (stale)

mutual

/-- No line of a statement outdates what stays in scope, when the braces `stack` are open before it:
what is in scope after its piece, or at the place that a jump leads to. The braces that stay open
after a jump to a block around it are given by `targets`. -/
def Calm (targets : List (String × List (List Temp))) (stack : List (List Temp)) :
    Flow (List Line) → Prop
  | .step lines => Spares stale lines (bracesFrom stack lines)
  | .ret _ => True
  | .leave lines label | .again lines label =>
    ∀ kept, targets.lookup label = some kept → Spares stale lines kept
  | .block b enter body _ => Spares stale enter (bracesFrom stack enter) ∧
      CalmAll ((b.label, (bracesFrom stack enter).tail) :: targets) (bracesFrom stack enter) body
  | .branch enter thenBody _ elseBody _ => Spares stale enter (bracesFrom stack enter) ∧
      CalmAll targets (bracesFrom stack enter) thenBody ∧
      CalmAll targets (bracesFrom stack enter) elseBody
  | .switch enter arms _ => Spares stale enter (bracesFrom stack enter) ∧
      CalmArms targets ([] :: bracesFrom stack enter) arms

/-- No line of a program outdates what stays in scope. -/
def CalmAll (targets : List (String × List (List Temp))) (stack : List (List Temp)) :
    List (Flow (List Line)) → Prop
  | [] => True
  | f :: rest => Calm targets stack f ∧ CalmAll targets (bracesFrom stack f.notes.flatten) rest

/-- No line of the cases of a switch outdates what stays in scope. -/
def CalmArms (targets : List (String × List (List Temp))) (stack : List (List Temp)) :
    List (List Line × List (Flow (List Line)) × List Line) → Prop
  | [] => True
  | (_, body, _) :: rest => CalmAll targets stack body ∧ CalmArms targets stack rest

end

end calm

mutual

/-- If nothing outdates anything, no line does. -/
theorem calm_of_never (h : ∀ t l, ¬ stale t l) {targets : List (String × List (List Temp))} :
    ∀ (f : Flow (List Line)) (stack : List (List Temp)), Calm stale targets stack f
  | .step _, _ => fun t _ x _ => h t x
  | .ret _, _ => trivial
  | .leave _ _, _ | .again _ _, _ => fun _ _ t _ x _ => h t x
  | .block _ _ body _, _ => by
    rw [Calm]
    exact ⟨fun t _ x _ => h t x, calmAll_of_never h body _⟩
  | .branch _ thenBody _ elseBody _, _ => by
    rw [Calm]
    exact ⟨fun t _ x _ => h t x, calmAll_of_never h thenBody _, calmAll_of_never h elseBody _⟩
  | .switch _ arms _, _ => by
    rw [Calm]
    exact ⟨fun t _ x _ => h t x, calmArms_of_never h arms _⟩

theorem calmAll_of_never (h : ∀ t l, ¬ stale t l) {targets : List (String × List (List Temp))} :
    ∀ (code : List (Flow (List Line))) (stack : List (List Temp)), CalmAll stale targets stack code
  | [], _ => by
    rw [CalmAll]
    trivial
  | f :: rest, _ => by
    rw [CalmAll]
    exact ⟨calm_of_never h f _, calmAll_of_never h rest _⟩

theorem calmArms_of_never (h : ∀ t l, ¬ stale t l) {targets : List (String × List (List Temp))} :
    ∀ (arms : List (List Line × List (Flow (List Line)) × List Line)) (stack : List (List Temp)),
      CalmArms stale targets stack arms
  | [], _ => by
    rw [CalmArms]
    trivial
  | (_, body, _) :: rest, _ => by
    rw [CalmArms]
    exact ⟨calmAll_of_never h body _, calmArms_of_never h rest _⟩

end

theorem calm_case {targets : List (String × List (List Temp))} {start finish : List Line}
    {body : List (Flow (List Line))} :
    ∀ {arms : List (List Line × List (Flow (List Line)) × List Line)},
      CalmArms stale targets stack arms → (start, body, finish) ∈ arms →
        CalmAll stale targets stack body
  | (_, _, _) :: rest, hcalm, hmem => by
    rw [CalmArms] at hcalm
    rcases List.mem_cons.1 hmem with heq | hmem
    · obtain ⟨-, rfl, -⟩ : start = _ ∧ body = _ ∧ finish = _ := by simpa using heq
      exact hcalm.1
    · exact calm_case hcalm.2 hmem

/-- A program at its place, inside the blocks `outer`, with the braces `stack` open before it. -/
structure Placed (stale : Temp → Line → Prop) (top : List Temp)
    (targets : List (String × List (List Temp))) (outer : List Block) (stack : List (List Temp))
    (code : List (Flow (List Line))) : Prop where
  shaped : ShapedAll outer code
  inScope : ScopedFrom top stack (layout code)
  calm : CalmAll stale targets stack code
  readsFirst : ∀ piece ∈ Flow.notesAll code, ReadsFirst stale piece
  labels : targets.map Prod.fst = outer.map Block.label
  within : ∀ {label kept}, targets.lookup label = some kept → ∀ t, Live kept t → Live stack t

namespace Placed

variable {targets : List (String × List (List Temp))} {outer : List Block} {f : Flow (List Line)}
  {rest body : List (Flow (List Line))} {enter : List Line}

theorem shaped_head (h : Placed stale top targets outer stack (f :: rest)) : Shaped outer f := by
  have hshaped := h.shaped
  rw [ShapedAll] at hshaped
  exact hshaped.1

theorem inScope_head (h : Placed stale top targets outer stack (f :: rest)) :
    ScopedFrom top stack f.notes.flatten := by
  have hscoped := h.inScope
  rw [layout_cons] at hscoped
  exact hscoped.left

theorem calm_head (h : Placed stale top targets outer stack (f :: rest)) :
    Calm stale targets stack f := by
  have hcalm := h.calm
  rw [CalmAll] at hcalm
  exact hcalm.1

theorem notes (h : Placed stale top targets outer stack (f :: rest)) :
    ∀ piece ∈ f.notes, ReadsFirst stale piece := by
  intro piece hpiece
  refine h.readsFirst piece ?_
  rw [Flow.notesAll]
  exact List.mem_append_left _ hpiece

/-- What is in scope before a statement is in scope after it. -/
theorem live (h : Placed stale top targets outer stack (f :: rest)) (ht : Live stack t) :
    Live (bracesFrom stack f.notes.flatten) t :=
  (balanced_flow f h.shaped_head).live ht

theorem tail (h : Placed stale top targets outer stack (f :: rest)) :
    Placed stale top targets outer (bracesFrom stack f.notes.flatten) rest := by
  have hshaped := h.shaped
  have hscoped := h.inScope
  have hcalm := h.calm
  rw [ShapedAll] at hshaped
  rw [layout_cons] at hscoped
  rw [CalmAll] at hcalm
  refine ⟨hshaped.2, hscoped.right, hcalm.2, fun piece hpiece => h.readsFirst piece ?_, h.labels,
    fun hlookup t ht => h.live (h.within hlookup t ht)⟩
  rw [Flow.notesAll]
  exact List.mem_append_right _ hpiece

/-- The body of a block, with the place after the block as a target. -/
theorem block {b : Block} {exit : List Line}
    (h : Placed stale top targets outer stack (.block b enter body exit :: rest)) :
    Placed stale top
      ((b.label, bracesFrom stack (Flow.block b enter body exit).notes.flatten) :: targets)
      (b :: outer) ([] :: bracesFrom stack (Flow.block b enter body exit).notes.flatten) body := by
  have hshaped := h.shaped_head
  have hscoped := h.inScope_head
  have hcalm := h.calm_head
  have hopens := opens_block hshaped stack
  rw [Shaped] at hshaped
  rw [layout_block] at hscoped
  have hbody := hscoped.right.left
  rw [Calm, hopens] at hcalm
  rw [hopens] at hbody
  refine ⟨hshaped.2.2.1, hbody, hcalm.2, fun piece hpiece => h.notes piece ?_, by simp [h.labels],
    fun {label kept} hlookup t ht => live_nil_cons.2 ?_⟩
  · rw [Flow.notes]
    simp [hpiece]
  · rw [List.lookup_cons] at hlookup
    split at hlookup
    · obtain rfl := Option.some.inj hlookup
      exact ht
    · exact h.live (h.within hlookup t ht)

/-- A part of a statement that has its own braces, which declare nothing yet. -/
theorem part (h : Placed stale top targets outer stack (f :: rest)) {new : List (List Temp)}
    (hnew : ∀ scope ∈ new, scope = []) (hshaped : ShapedAll outer body)
    (hinScope : ScopedFrom top (new ++ bracesFrom stack f.notes.flatten) (layout body))
    (hcalm : CalmAll stale targets (new ++ bracesFrom stack f.notes.flatten) body)
    (hnotes : ∀ piece ∈ Flow.notesAll body, piece ∈ f.notes) :
    Placed stale top targets outer (new ++ bracesFrom stack f.notes.flatten) body where
  shaped := hshaped
  inScope := hinScope
  calm := hcalm
  readsFirst := fun piece hpiece => h.notes piece (hnotes piece hpiece)
  labels := h.labels
  within := fun hlookup t ht => (live_append hnew).2 (h.live (h.within hlookup t ht))

/-- An arm of a choice, in braces that declare nothing yet. -/
theorem arm (h : Placed stale top targets outer stack (f :: rest)) (harm : f.Arm enter body) :
    ∃ new, (∀ scope ∈ new, scope = []) ∧
      Placed stale top targets outer (new ++ bracesFrom stack f.notes.flatten) body := by
  have hshaped := h.shaped_head
  have hscoped := h.inScope_head
  have hcalm := h.calm_head
  have hopens := opens_arm harm hshaped stack
  cases harm with
  | @thenArm _ other exit _ elseBody =>
    rw [Shaped] at hshaped
    rw [Calm, hopens] at hcalm
    rw [layout_branch] at hscoped
    have hbody := hscoped.right.left
    rw [hopens] at hbody
    refine ⟨[[]], by simp, h.part (by simp) hshaped.2.1 hbody hcalm.2.1 fun piece hpiece => ?_⟩
    rw [Flow.notes]
    simp [hpiece]
  | @elseArm _ other exit thenBody _ =>
    rw [Shaped] at hshaped
    rw [Calm, hopens] at hcalm
    rw [layout_branch] at hscoped
    obtain ⟨-, hthen, rfl, helse, -⟩ := hshaped
    have hbody := hscoped.right.right.right.left
    obtain ⟨new, hnew⟩ := balanced_layout thenBody hthen [] (bracesFrom stack
      (Flow.branch enter thenBody [.otherwise] body exit).notes.flatten)
    rw [hopens, hnew] at hbody
    refine ⟨[[]], by simp, h.part (by simp) helse hbody hcalm.2.2 fun piece hpiece => ?_⟩
    rw [Flow.notes]
    simp [hpiece]
  | @caseArm _ start finish exit arms _ hmem =>
    rw [Shaped] at hshaped
    rw [Calm, hopens] at hcalm
    rw [layout_switch] at hscoped
    have hinner := hscoped.right.left
    rw [hopens] at hinner
    obtain ⟨hbody, hinScope⟩ := scoped_case hshaped.2.1 hinner hmem
    refine ⟨[[], []], by simp, h.part (by simp) hbody hinScope (calm_case hcalm.2 hmem)
      fun piece hpiece => ?_⟩
    rw [Flow.notes]
    simp [Flow.mem_notesArms hmem hpiece]

end Placed

/-! ### Programs at their place are definite -/

section definite

variable {targets : List (String × List (List Temp))} {outer : List Block} {f : Flow (List Line)}
  {rest body : List (Flow (List Line))} {enter : List Line} {known after : Prop}

namespace Placed

/-- The piece where a statement starts reads only what is known to be up to date. -/
theorem readsKnown (h : Placed stale top targets outer stack (f :: rest)) (htop : t ∉ top)
    (hknown : Live stack t → known) : ReadsKnown stale t known f.first := by
  obtain ⟨more, hnotes⟩ := f.notes_eq
  have hscoped := h.inScope_head
  rw [hnotes, List.flatten_cons] at hscoped
  intro before l after heq ht
  have hneeds : t ∈ l.needs := by
    unfold Line.needs
    split <;> simp [ht]
  have hlive := (hscoped.left before l after heq t hneeds).resolve_left htop
  exact known_of_live hlive (h.notes f.first (by simp [hnotes]) before l after heq t ht) hknown

/-- The braces behind the first piece of a block. -/
theorem enters_block {b : Block} {exit : List Line}
    (h : Placed stale top targets outer stack (.block b enter body exit :: rest)) :
    bracesFrom stack enter =
      [] :: bracesFrom stack (Flow.block b enter body exit).notes.flatten :=
  opens_block h.shaped_head stack

/-- No block around a block has its label. -/
theorem fresh_block {b : Block} {exit : List Line}
    (h : Placed stale top targets outer stack (.block b enter body exit :: rest)) :
    b.label ∉ targets.map Prod.fst := by
  have hshaped := h.shaped_head
  rw [Shaped] at hshaped
  rw [h.labels]
  exact hshaped.2.1

/-- What is in scope at the start of a program is in scope at its end. -/
theorem live_layout (h : Placed stale top targets outer stack body) (ht : Live stack t) :
    Live (bracesFrom stack (layout body)) t :=
  (balanced_layout body h.shaped).live ht

/-- What is known at the start of an arm, if all that is in scope there is known. -/
theorem knows_arm (h : Placed stale top targets outer stack (f :: rest)) (harm : f.Arm enter body)
    {new : List (List Temp)} (hnew : ∀ scope ∈ new, scope = []) (hknown : Live stack t → known)
    (ht : Live (new ++ bracesFrom stack f.notes.flatten) t) : Known stale t known enter := by
  have hlive : Live (bracesFrom stack enter) t := by
    rw [opens_arm harm h.shaped_head stack]
    exact live_nil_cons.2 ((live_append hnew).1 ht)
  have hcalm := h.calm_head
  have hspares : Spares stale enter (bracesFrom stack enter) := by
    cases harm <;> (rw [Calm] at hcalm; exact hcalm.1)
  exact known_of_live hlive (hspares t hlive) hknown

end Placed

/-- What is promised where jumps land is in scope there. -/
structure Backed (t : Temp) (landings : List (String × Landing))
    (targets : List (String × List (List Temp))) : Prop where
  labels : landings.map Prod.fst = targets.map Prod.fst
  kept : ∀ {label landing}, landings.lookup label = some landing →
    ∃ kept, targets.lookup label = some kept ∧ (landing.start ∨ landing.exit → Live kept t)

theorem Backed.cons {landings : List (String × Landing)} (h : Backed t landings targets)
    {label : String} {landing : Landing} {kept : List (List Temp)}
    (hkept : landing.start ∨ landing.exit → Live kept t) :
    Backed t ((label, landing) :: landings) ((label, kept) :: targets) := by
  refine ⟨by simp [h.labels], fun {label' landing'} hlookup => ?_⟩
  rw [List.lookup_cons] at hlookup ⊢
  split at hlookup
  · obtain rfl := Option.some.inj hlookup
    exact ⟨kept, rfl, hkept⟩
  · exact h.kept hlookup

mutual

theorem definite_of_placed (htop : t ∉ top) : ∀ (f : Flow (List Line))
    {rest : List (Flow (List Line))} {targets : List (String × List (List Temp))}
    {landings : List (String × Landing)} {outer : List Block} {stack : List (List Temp)}
    {known after : Prop}, Placed stale top targets outer stack (f :: rest) →
    Backed t landings targets → (Live stack t → known) →
    (after → Live (bracesFrom stack f.notes.flatten) t) →
      Definite stale t landings (Known stale t known f.first) f after
  | .step lines, _, _, _, _, stack, _, _, h, _, hknown, hafter => by
    have hcalm := h.calm_head
    rw [Calm] at hcalm
    rw [Definite, Flow.first]
    intro ha
    have hlive : Live (bracesFrom stack lines) t := by simpa [Flow.notes] using hafter ha
    exact known_of_live hlive (hcalm t hlive) hknown
  | .ret _, _, _, _, _, _, _, _, _, _, _, _ => by
    rw [Definite]
    trivial
  | .leave _ _, _, _, _, _, _, _, _, h, hbacked, hknown, _ => by
    have hcalm := h.calm_head
    rw [Calm] at hcalm
    rw [Definite]
    intro landing hlookup hexit
    obtain ⟨kept, hkept, hlive⟩ := hbacked.kept hlookup
    have ht := hlive (.inr hexit)
    exact .inr ⟨hknown (h.within hkept t ht), hcalm kept hkept t ht⟩
  | .again _ _, _, _, _, _, _, _, _, h, hbacked, hknown, _ => by
    have hcalm := h.calm_head
    rw [Calm] at hcalm
    rw [Definite]
    intro landing hlookup hstart
    obtain ⟨kept, hkept, hlive⟩ := hbacked.kept hlookup
    have ht := hlive (.inl hstart)
    exact .inr ⟨hknown (h.within hkept t ht), hcalm kept hkept t ht⟩
  | .block b enter body exit, _, _, _, _, stack, _, _, h, hbacked, hknown, hafter => by
    have hcalm := h.calm_head
    rw [Calm] at hcalm
    have hopens := h.enters_block
    have hlive : ∀ {t}, Live (bracesFrom stack (Flow.block b enter body exit).notes.flatten) t →
        Live (bracesFrom stack enter) t := fun ht => hopens ▸ live_nil_cons.2 ht
    rw [Definite, Flow.first, hbacked.labels]
    -- at the start of each pass all that stays in scope behind the block is up to date
    refine ⟨h.fresh_block, Live (bracesFrom stack (Flow.block b enter body exit).notes.flatten) t,
      Live (bracesFrom ([] :: bracesFrom stack (Flow.block b enter body exit).notes.flatten)
        (layout body)) t, fun ht => known_of_live (hlive ht) (hcalm.1 t (hlive ht)) hknown, ?_, ?_⟩
    · exact definiteAll_of_placed htop body h.block
        (hbacked.cons fun hpromised => hpromised.elim id hafter) live_nil_cons.1 id
    · intro hdone
      refine h.block.live_layout (live_nil_cons.2 ?_)
      split at hdone
      · exact hdone
      · exact hafter hdone
  | .branch _ thenBody _ elseBody _, _, _, _, _, _, _, _, h, hbacked, hknown, hafter => by
    rw [Definite, Flow.first]
    obtain ⟨new, hnew, hthen⟩ := h.arm .thenArm
    obtain ⟨new', hnew', helse⟩ := h.arm .elseArm
    exact ⟨definiteAll_of_placed htop thenBody hthen hbacked (h.knows_arm .thenArm hnew hknown)
        fun ha => hthen.live_layout ((live_append hnew).2 (hafter ha)),
      definiteAll_of_placed htop elseBody helse hbacked (h.knows_arm .elseArm hnew' hknown)
        fun ha => helse.live_layout ((live_append hnew').2 (hafter ha))⟩
  | .switch _ arms _, _, _, _, _, _, _, _, h, hbacked, hknown, hafter => by
    rw [Definite, Flow.first]
    refine definiteArms_of_placed htop arms hbacked fun harm => ?_
    obtain ⟨new, hnew, hbody⟩ := h.arm (.caseArm harm)
    exact ⟨_, _, hbody, h.knows_arm (.caseArm harm) hnew hknown,
      fun ha => hbody.live_layout ((live_append hnew).2 (hafter ha))⟩

/-- A program at its place is definite about each temporary that is not declared at the top: what is
in scope is up to date. -/
theorem definiteAll_of_placed (htop : t ∉ top) : ∀ (code : List (Flow (List Line)))
    {targets : List (String × List (List Temp))} {landings : List (String × Landing)}
    {outer : List Block} {stack : List (List Temp)} {known after : Prop},
    Placed stale top targets outer stack code → Backed t landings targets →
    (Live stack t → known) → (after → Live (bracesFrom stack (layout code)) t) →
      DefiniteAll stale t landings known code after
  | [], _, _, _, _, _, _, _, _, hknown, hafter => by
    rw [DefiniteAll]
    exact fun ha => hknown (hafter ha)
  | f :: rest, _, _, _, stack, _, _, h, hbacked, hknown, hafter => by
    rw [layout_cons, bracesFrom_append] at hafter
    rw [DefiniteAll]
    exact ⟨h.readsKnown htop hknown, Live (bracesFrom stack f.notes.flatten) t,
      definite_of_placed htop f h hbacked hknown id,
      definiteAll_of_placed htop rest h.tail hbacked id hafter⟩

theorem definiteArms_of_placed (htop : t ∉ top) :
    ∀ (arms : List (List Line × List (Flow (List Line)) × List Line))
    {targets : List (String × List (List Temp))} {landings : List (String × Landing)}
    {known after : Prop}, Backed t landings targets →
    (∀ {start body finish}, (start, body, finish) ∈ arms → ∃ outer stack,
      Placed stale top targets outer stack body ∧ (Live stack t → known) ∧
        (after → Live (bracesFrom stack (layout body)) t)) →
      DefiniteArms stale t landings known arms after
  | [], _, _, _, _, _, _ => by
    rw [DefiniteArms]
    trivial
  | (_, body, _) :: rest, _, _, _, _, hbacked, harms => by
    obtain ⟨_, _, hbody, hknown, hafter⟩ := harms List.mem_cons_self
    rw [DefiniteArms]
    exact ⟨definiteAll_of_placed htop body hbody hbacked hknown hafter,
      definiteArms_of_placed htop rest hbacked fun hmem => harms (List.mem_cons_of_mem _ hmem)⟩

end

end definite

/-! ### Shared values -/

section shared

variable {cx : Context} {s : Emitter} {path : List (List Line)} {e : Exit}

/-- A line assigns a phi that a shared value depends on, and one of the lines `text` keeps the value
in the temporary. -/
def Context.Outdates (cx : Context) (text : List Line) (t : Temp) (x : Line) : Prop :=
  ∃ v phi, (∃ d ∈ text, d.keeps? = some (v, t)) ∧ cx.isShared v = true ∧ x.fed? = some phi ∧
    ReflTransGen cx.Takes v phi

theorem Reached.placed (h : Reached cx (bodyEvents cx.method.body) [] s)
    (hstale : ∀ {t x}, stale t x → cx.Outdates s.lines t x)
    (hcalm : CalmAll stale [] [[]] cx.code) : Placed stale s.top [] [] [[]] cx.code := by
  obtain ⟨bs, hscoped⟩ := h.scopedBy
  refine ⟨shaped_code h, ?_, hcalm, fun piece hpiece => ?_, rfl, fun hlookup => by cases hlookup⟩
  · rw [layout_code h]
    exact hscoped.wellScoped
  · rw [Context.code, Flow.notesAll_mapAll] at hpiece
    obtain ⟨k, -, rfl⟩ := List.mem_map.1 hpiece
    intro before l after heq t ht x hx hx'
    obtain ⟨v, phi, ⟨d, hd, hkeeps⟩, hshared, hfed, -⟩ := hstale hx'
    have hnone := h.calm_at heq (.inr ⟨d, hd, v, t, hkeeps, hshared, ht⟩) x hx
    rw [hfed] at hnone
    cases hnone

/-- What is passed on a path of the emitted program stands in its text. -/
theorem Reached.mem_of_path (h : Reached cx (bodyEvents cx.method.body) [] s)
    (hrun : Flow.Runs cx.code path e) {l : Line} (hl : l ∈ path.flatten) : l ∈ s.lines := by
  obtain ⟨positions, rfl, -⟩ := Flow.Runs.of_map hrun
  obtain ⟨piece, hpiece, hl⟩ := List.mem_flatten.1 hl
  obtain ⟨k, -, rfl⟩ := List.mem_map.1 hpiece
  obtain ⟨after, htext⟩ := h.text_at hl
  rw [htext]
  simp [hl]

theorem Reached.definite (h : Reached cx (bodyEvents cx.method.body) [] s) (htop : t ∉ s.top)
    (hstale : ∀ {t x}, stale t x → cx.Outdates s.lines t x)
    (hcalm : CalmAll stale [] [[]] cx.code) : DefiniteAll stale t [] False cx.code False := by
  refine definiteAll_of_placed htop cx.code (h.placed hstale hcalm) ⟨rfl, fun hlookup => ?_⟩ ?_
    False.elim
  · cases hlookup
  · rintro ⟨scope, hscope, ht⟩
    rw [List.mem_singleton.1 hscope] at ht
    cases ht

/-- If the program is definite about the temporary of a value, a path that reads it has passed the
line that keeps the value there, and no line since outdates it. -/
theorem Reached.kept_before (h : Reached cx (bodyEvents cx.method.body) [] s)
    (hrun : Flow.Runs cx.code path e) {before after : List Line} {l : Line}
    (hpath : path.flatten = before ++ l :: after) {v : NodeId}
    (hkept : ∃ d ∈ s.lines, d.keeps? = some (v, t)) (hread : t ∈ l.reads)
    (hdefinite : DefiniteAll stale t [] False cx.code False) :
    ∃ earlier d since, before = earlier ++ d :: since ∧ d.keeps? = some (v, t) ∧
      ∀ x ∈ since, ¬ stale t x := by
  obtain ⟨d₀, hd₀, hkeeps⟩ := hkept
  obtain ⟨earlier, d, since, rfl, hd, hsince⟩ :=
    readsFresh_of_runs hrun hdefinite before l after hpath hread
  have hmem : d ∈ s.lines := h.mem_of_path hrun (by rw [hpath]; simp)
  obtain rfl := h.numbered.ordered.unique hmem hd₀ hd (Line.introduces?_of_keeps? hkeeps)
  exact ⟨earlier, d, since, rfl, hkeeps, hsince⟩

/-- The program is definite about a temporary being assigned. -/
def Context.Assigns (cx : Context) (t : Temp) : Prop :=
  DefiniteAll (fun _ _ => False) t [] False cx.code False

/-- The program is definite about a temporary being up to date. -/
def Context.Maintains (cx : Context) (text : List Line) (t : Temp) : Prop :=
  DefiniteAll (cx.Outdates text) t [] False cx.code False

/-- Whenever a path reads the temporary of a shared value, a line that the path has passed keeps the
value there, if the temporary is not declared at the top; and no line passed since then assigns a phi
that the value depends on, if in addition the program is calm. For a temporary that is declared at
the top, the program has to be definite about it. -/
theorem shared_reads_up_to_date (h : Reached cx (bodyEvents cx.method.body) [] s)
    (hrun : Flow.Runs cx.code path e) {before after : List Line} {l : Line}
    (hpath : path.flatten = before ++ l :: after) {v : NodeId} (hshared : cx.isShared v = true)
    (hkept : ∃ d ∈ s.lines, d.keeps? = some (v, t)) (hread : t ∈ l.reads) :
    (t ∉ s.top ∨ cx.Assigns t → ∃ d ∈ before, d.keeps? = some (v, t)) ∧
    ((t ∉ s.top ∧ CalmAll (cx.Outdates s.lines) [] [[]] cx.code) ∨ cx.Maintains s.lines t →
      ∃ earlier d since, before = earlier ++ d :: since ∧ d.keeps? = some (v, t) ∧
        ∀ x ∈ since, ∀ phi, x.fed? = some phi → ¬ ReflTransGen cx.Takes v phi) := by
  constructor
  · intro hassigned
    have hdefinite : cx.Assigns t := hassigned.elim
      (fun htop => h.definite htop False.elim (calmAll_of_never (fun _ _ => id) _ _)) id
    obtain ⟨earlier, d, since, rfl, hkeeps, -⟩ := h.kept_before hrun hpath hkept hread hdefinite
    exact ⟨d, by simp, hkeeps⟩
  · intro hcurrent
    have hdefinite : cx.Maintains s.lines t := hcurrent.elim
      (fun ⟨htop, hcalm⟩ => h.definite htop id hcalm) id
    obtain ⟨earlier, d, since, rfl, hkeeps, hsince⟩ :=
      h.kept_before hrun hpath hkept hread hdefinite
    exact ⟨earlier, d, since, rfl, hkeeps, fun x hx phi hfed hdepends =>
      hsince x hx ⟨v, phi, hkept.imp fun _ hd => hd, hshared, hfed, hdepends⟩⟩

/-- A loop that counts: the next count is stored, and it flows into the next pass. -/
def counting : Context where
  cls := { name := ⟨"Kernel"⟩ }
  method :=
    { name := "run"
      params := [⟨"n", .int⟩, ⟨"xs", .array .int⟩]
      graph := ⟨#[.param 0 .int, .param 1 (.array .int), .int 0, .int 1, .marker .start,
        .marker .goto, .marker .goto, .phi .int [(4, 2), (5, 8)], ⟨.binary .add, .int, [7, 3]⟩,
        .arrayStore 1 2 8, .compare .lt 7 0, .branch 10]⟩
      body := [
        .edge 4,
        .block ⟨"L", true⟩ [
          .effect 9,
          .branch 11 [.again 5 "L"] [.leave 6 "L"]]] }

/-- Three passes through the loop, the last of which reads the count. Its temporary is declared in the
brace of the loop. -/
theorem counting_reads :
    ∃ s path before after, Reached counting (bodyEvents counting.method.body) [] s ∧
      Flow.Runs counting.code path .stopped ∧
      path.flatten = before ++ .feed 7 ⟨.phi, 0⟩ (.temp ⟨.var, 1⟩) :: after ∧
      before.countP (·.fed? = some 7) = 2 ∧ (∃ d ∈ s.lines, d.keeps? = some (8, ⟨.var, 1⟩)) ∧
      ⟨.var, 1⟩ ∉ s.top ∧ CalmAll (counting.Outdates s.lines) [] [[]] counting.code := by
  obtain ⟨out, hout⟩ : ∃ out, emitBody counting = .ok out := exists_emitBody (by cbv)
  obtain ⟨s, hs, -⟩ := reached_of_emitBody hout
  let enter : List Line := [.feed 7 ⟨.phi, 0⟩ (.int 0), .openBlock ⟨"L", true⟩]
  let count : List Line := [
    .define 8 "int" ⟨.var, 1⟩ (.binary .add (.temp ⟨.phi, 0⟩) (.int 1)),
    .effect 9 (.assign (.element (.name "xs") (.int 0)) (.temp ⟨.var, 1⟩))]
  let test : List Line := [.openIf (.compare .lt (.temp ⟨.phi, 0⟩) (.name "n"))]
  let back : List Line := [.feed 7 ⟨.phi, 0⟩ (.temp ⟨.var, 1⟩), .gotoStart "L"]
  have hcode : counting.code = [.step [.feed 7 ⟨.phi, 0⟩ (.int 0)],
      .block ⟨"L", true⟩ [.openBlock ⟨"L", true⟩] [.step count,
        .branch test [.again back "L"] [.otherwise] [.leave [.gotoExit "L"] "L"] [.close]]
        [.close, .exitMark "L"]] := by cbv
  have hpass : Flow.Runs [.step count, .branch test [.again back "L"] [.otherwise]
      [.leave [.gotoExit "L"] "L"] [.close]] [count, test, back] (.again "L") :=
    .step (.armOut .thenArm .again (by decide))
  have hrun : Flow.Runs counting.code [[.feed 7 ⟨.phi, 0⟩ (.int 0)], [.openBlock ⟨"L", true⟩],
      count, test, back, count, test, back] .stopped := by
    rw [hcode]
    refine .step (.blockAgain hpass ⟨rfl, .inr rfl⟩ (.blockAgain hpass ⟨rfl, .inr rfl⟩
      (.blockOut .stop ?_ ?_)))
    · simp [Block.Repeats]
    · simp [Block.Ends]
  have hcalm : CalmAll (counting.Outdates s.lines) [] [[]] counting.code := by
    rw [hcode]
    simp [CalmAll, Calm, Spares, Live, bracesFrom, Line.brace, Context.Outdates, Line.fed?, count,
      test, back, Flow.notes]
  have hkept : ∃ d ∈ s.lines, d.keeps? = some (8, ⟨.var, 1⟩) :=
    ⟨_, hs.mem_of_path hrun (List.mem_flatten.2 ⟨count, by simp, List.mem_cons_self⟩), rfl⟩
  have htop : s.top = [⟨.phi, 0⟩] := eq_of_reached (f := Emitter.top) hs (by cbv)
  exact ⟨s, _, enter ++ count ++ test ++ back ++ count ++ test, [.gotoStart "L"], hs, hrun, rfl,
    by decide, hkept, by simp [htop], hcalm⟩

/-- The same loop, and after it the last count is stored once more. The count depends on a phi that
the loop assigns, so it is not bound before the loop, and its temporary is declared at the top. -/
def countingOn : Context where
  cls := { name := ⟨"Kernel"⟩ }
  method :=
    { counting.method with
      graph := ⟨counting.method.graph.nodes.push (.arrayStore 1 0 8)⟩
      body := counting.method.body ++ [.effect 12] }

/-- Two passes through the loop, and then the count is read. -/
theorem countingOn_reads :
    ∃ s path before l after, Reached countingOn (bodyEvents countingOn.method.body) [] s ∧
      Flow.Runs countingOn.code path .done ∧ path.flatten = before ++ l :: after ∧
      before.countP (·.fed? = some 7) = 2 ∧ (∃ d ∈ s.lines, d.keeps? = some (8, ⟨.var, 1⟩)) ∧
      ⟨.var, 1⟩ ∈ l.reads ∧ ⟨.var, 1⟩ ∈ s.top ∧ countingOn.Maintains s.lines ⟨.var, 1⟩ := by
  obtain ⟨out, hout⟩ : ∃ out, emitBody countingOn = .ok out := exists_emitBody (by cbv)
  obtain ⟨s, hs, -⟩ := reached_of_emitBody hout
  let count : List Line := [.store 8 ⟨.var, 1⟩ (.binary .add (.temp ⟨.phi, 0⟩) (.int 1)),
    .effect 9 (.assign (.element (.name "xs") (.int 0)) (.temp ⟨.var, 1⟩))]
  let test : List Line := [.openIf (.compare .lt (.temp ⟨.phi, 0⟩) (.name "n"))]
  let back : List Line := [.feed 7 ⟨.phi, 0⟩ (.temp ⟨.var, 1⟩), .gotoStart "L"]
  let last : Line := .effect 12 (.assign (.element (.name "xs") (.name "n")) (.temp ⟨.var, 1⟩))
  have hcode : countingOn.code = [.step [.feed 7 ⟨.phi, 0⟩ (.int 0)],
      .block ⟨"L", true⟩ [.openBlock ⟨"L", true⟩] [.step count,
        .branch test [.again back "L"] [.otherwise] [.leave [.gotoExit "L"] "L"] [.close]]
        [.close, .exitMark "L"], .step [last]] := by cbv
  have hpass : Flow.Runs [.step count, .branch test [.again back "L"] [.otherwise]
      [.leave [.gotoExit "L"] "L"] [.close]] [count, test, back] (.again "L") :=
    .step (.armOut .thenArm .again (by decide))
  have hrun : Flow.Runs countingOn.code [[.feed 7 ⟨.phi, 0⟩ (.int 0)], [.openBlock ⟨"L", true⟩],
      count, test, back, count, test, [.gotoExit "L"], [last]] .done := by
    rw [hcode]
    exact .step (.blockAgain hpass ⟨rfl, .inr rfl⟩
      (.blockEnd (.step (.armOut .elseArm .leave (by decide))) (.inl rfl) (.step .nil)))
  have hkept : ∃ d ∈ s.lines, d.keeps? = some (8, ⟨.var, 1⟩) :=
    ⟨_, hs.mem_of_path hrun (List.mem_flatten.2 ⟨count, by simp, List.mem_cons_self⟩), rfl⟩
  have htop : s.top = [⟨.phi, 0⟩, ⟨.var, 1⟩] := eq_of_reached (f := Emitter.top) hs (by cbv)
  refine ⟨s, _, [.feed 7 ⟨.phi, 0⟩ (.int 0), .openBlock ⟨"L", true⟩] ++ count ++ test ++ back ++
    count ++ test ++ [.gotoExit "L"], last, [], hs, hrun, rfl, by decide, hkept, by decide,
    by simp [htop], ?_⟩
  rw [Context.Maintains, hcode]
  simp only [DefiniteAll, Definite, Flow.first]
  -- nothing is known where the loop starts; behind it the count is up to date
  refine ⟨?_, False, ?_, ?_, True, ⟨?_, False, True, ?_, ⟨?_, True, ?_, ?_, True,
    ⟨⟨?_, True, ?_, ?_⟩, ?_, True, ?_, ?_⟩, ?_⟩, ?_⟩, ?_, True, ?_, ?_⟩
  all_goals simp [known_cons, known_nil, readsKnown_cons, readsKnown_nil, count, test, back, last,
    Line.reads, Line.exprs, Expr.temps, Line.introduces?, Context.Outdates, Line.fed?]

theorem shared_reads_up_to_date_counting :
    (∃ s path before after, Reached counting (bodyEvents counting.method.body) [] s ∧
      Flow.Runs counting.code path .stopped ∧
      path.flatten = before ++ .feed 7 ⟨.phi, 0⟩ (.temp ⟨.var, 1⟩) :: after ∧
      before.countP (·.fed? = some 7) = 2 ∧
      ∃ earlier d since, before = earlier ++ d :: since ∧ d.keeps? = some (8, ⟨.var, 1⟩) ∧
        ∀ x ∈ since, x.fed? ≠ some 7) ∧
    ∃ s path before l after, Reached countingOn (bodyEvents countingOn.method.body) [] s ∧
      Flow.Runs countingOn.code path .done ∧ path.flatten = before ++ l :: after ∧
      ⟨.var, 1⟩ ∈ l.reads ∧ ⟨.var, 1⟩ ∈ s.top ∧ before.countP (·.fed? = some 7) = 2 ∧
      ∃ earlier d since, before = earlier ++ d :: since ∧ d.keeps? = some (8, ⟨.var, 1⟩) ∧
        ∀ x ∈ since, x.fed? ≠ some 7 := by
  constructor
  · obtain ⟨s, path, before, after, hs, hrun, hpath, hfed, hkept, htop, hcalm⟩ := counting_reads
    obtain ⟨earlier, d, since, hbefore, hd, hsince⟩ :=
      (shared_reads_up_to_date hs hrun hpath (by decide) hkept (by decide)).2 (.inl ⟨htop, hcalm⟩)
    exact ⟨s, path, before, after, hs, hrun, hpath, hfed, earlier, d, since, hbefore, hd,
      fun x hx hfed => hsince x hx 7 hfed (.single ⟨_, rfl, by decide⟩)⟩
  · obtain ⟨s, path, before, l, after, hs, hrun, hpath, hfed, hkept, hread, htop, hmaintains⟩ :=
      countingOn_reads
    obtain ⟨earlier, d, since, hbefore, hd, hsince⟩ :=
      (shared_reads_up_to_date hs hrun hpath (by decide) hkept hread).2 (.inr hmaintains)
    exact ⟨s, path, before, l, after, hs, hrun, hpath, hread, htop, hfed, earlier, d, since,
      hbefore, hd, fun x hx hfed => hsince x hx 7 hfed (.single ⟨_, rfl, by decide⟩)⟩

/-- A block that may be left before the sum is stored. The sum depends on a load inside the block, so
it is not bound before the block, and its temporary is declared at the top. -/
def leftEarly : Context where
  cls := { name := ⟨"Kernel"⟩ }
  method :=
    { name := "run"
      params := [⟨"n", .int⟩, ⟨"xs", .array .int⟩]
      graph := ⟨#[.param 0 .int, .param 1 (.array .int), .int 0, ⟨.arrayLoad, .int, [1, 2]⟩,
        ⟨.binary .add, .int, [3, 2]⟩, .arrayStore 1 2 4, .arrayStore 1 0 4, .compare .lt 0 2,
        .branch 7, .marker .goto]⟩
      body := [
        .block ⟨"B", false⟩ [
          .effect 3,
          .branch 8 [.leave 9 "B"] [],
          .effect 5],
        .effect 6] }

/-- A temporary that is declared at the top can be read before it is assigned, although every side
effect is scheduled before it is used. -/
theorem shared_read_unassigned_leftEarly :
    Scheduled leftEarly ∧ leftEarly.graph.phis = [] ∧ leftEarly.isShared 4 = true ∧
      ∃ s path before l after, Reached leftEarly (bodyEvents leftEarly.method.body) [] s ∧
        Flow.Runs leftEarly.code path .done ∧ path.flatten = before ++ l :: after ∧
        (∃ d ∈ s.lines, d.keeps? = some (4, ⟨.var, 1⟩)) ∧ ⟨.var, 1⟩ ∈ l.reads ∧
        ∀ d ∈ before, d.introduces? ≠ some ⟨.var, 1⟩ := by
  obtain ⟨out, hout⟩ : ∃ out, emitBody leftEarly = .ok out := exists_emitBody (by cbv)
  obtain ⟨s, hs, -⟩ := reached_of_emitBody hout
  let test : List Line := [.openIf (.compare .lt (.name "n") (.int 0))]
  let sum : List Line := [.store 4 ⟨.var, 1⟩ (.binary .add (.temp ⟨.var, 0⟩) (.int 0)),
    .effect 5 (.assign (.element (.name "xs") (.int 0)) (.temp ⟨.var, 1⟩))]
  let last : Line := .effect 6 (.assign (.element (.name "xs") (.name "n")) (.temp ⟨.var, 1⟩))
  have hcode : leftEarly.code = [
      .block ⟨"B", false⟩ [.openBlock ⟨"B", false⟩]
        [.step [.store 3 ⟨.var, 0⟩ (.element (.name "xs") (.int 0))],
          .branch test [.leave [.gotoExit "B"] "B"] [.otherwise] [] [.close], .step sum]
        [.close, .exitMark "B"],
      .step [last]] := by cbv
  have hrun : Flow.Runs leftEarly.code [[.openBlock ⟨"B", false⟩],
      [.store 3 ⟨.var, 0⟩ (.element (.name "xs") (.int 0))], test, [.gotoExit "B"],
      [last]] .done := by
    rw [hcode]
    exact .blockEnd (.step (.armOut .thenArm .leave (by decide))) (.inl rfl) (.step .nil)
  have hkept : ∃ d ∈ s.lines, d.keeps? = some (4, ⟨.var, 1⟩) := by
    refine ⟨.store 4 ⟨.var, 1⟩ (.binary .add (.temp ⟨.var, 0⟩) (.int 0)), ?_, rfl⟩
    rw [← layout_code hs, hcode]
    simp [layout, Flow.notesAll, Flow.notes, sum]
  refine ⟨leftEarly.scheduled_of_isScheduledAfter (by cbv), by cbv, by cbv, s, _,
    [.openBlock ⟨"B", false⟩, .store 3 ⟨.var, 0⟩ (.element (.name "xs") (.int 0))] ++
      (test ++ [.gotoExit "B"]), last, [], hs, hrun, rfl, hkept, by decide, by decide⟩

end shared

end KernelForge.Source
