import KernelForge.Proofs.Layout
import KernelForge.Proofs.Scoping

/-!
# The braces of a program

Which braces are open at each place of a program that is laid out as it should be, and which temporaries
are declared in them. Every construct closes the braces that it opens, so what is declared inside it is
not in scope after it.
-/

namespace KernelForge.Source

variable {top : List Temp} {lines lines' : List Line} {stack : List (List Temp)}

/-! ### Scopes of the text -/

/-- The open braces after some lines, when the braces `stack` are open before them. -/
def bracesFrom (stack : List (List Temp)) (lines : List Line) : List (List Temp) :=
  lines.foldl Line.brace stack

theorem bracesFrom_append (stack : List (List Temp)) (lines lines' : List Line) :
    bracesFrom stack (lines ++ lines') = bracesFrom (bracesFrom stack lines) lines' :=
  List.foldl_append

/-- Whatever a line names is in scope there, when the braces `stack` are open before the lines. -/
def ScopedFrom (top : List Temp) (stack : List (List Temp)) (lines : List Line) : Prop :=
  ∀ before l after, lines = before ++ l :: after → ∀ t ∈ l.needs,
    t ∈ top ∨ ∃ scope ∈ bracesFrom stack before, t ∈ scope

theorem ScopedFrom.left (h : ScopedFrom top stack (lines ++ lines')) : ScopedFrom top stack lines :=
  fun before l after heq => h before l (after ++ lines') (by simp [heq])

theorem ScopedFrom.right (h : ScopedFrom top stack (lines ++ lines')) :
    ScopedFrom top (bracesFrom stack lines) lines' := by
  intro before l after heq t ht
  rw [← bracesFrom_append]
  exact h (lines ++ before) l after (by simp [heq]) t ht

/-- Lines that close every brace that they open, and no other. -/
def Balanced (lines : List Line) : Prop :=
  ∀ scope stack, ∃ new, bracesFrom (scope :: stack) lines = (new ++ scope) :: stack

theorem Balanced.nil : Balanced [] :=
  fun _ _ => ⟨[], rfl⟩

theorem Balanced.append (h : Balanced lines) (h' : Balanced lines') : Balanced (lines ++ lines') := by
  intro scope stack
  obtain ⟨new, hnew⟩ := h scope stack
  obtain ⟨new', hnew'⟩ := h' (new ++ scope) stack
  exact ⟨new' ++ new, by rw [bracesFrom_append, hnew, hnew', List.append_assoc]⟩

theorem Balanced.singleton {l : Line} (h : l.isPlain = true) : Balanced [l] :=
  fun scope stack => ⟨[], Line.brace_of_isPlain h (scope :: stack)⟩

theorem Straight.balanced (h : Straight lines) : Balanced lines := by
  induction lines with
  | nil => exact .nil
  | cons l rest ih =>
    have hl : Balanced [l] := by
      have hstraight := h l List.mem_cons_self
      cases l with
      | define _ _ t _ | stage _ t _ => exact fun scope stack => ⟨[t], rfl⟩
      | store | feed | effect => exact .singleton rfl
      | _ => cases hstraight
    exact hl.append (ih fun l hl => h l (List.mem_cons_of_mem _ hl))

/-- A closing brace after balanced lines closes the brace before them. -/
theorem Balanced.close (h : Balanced lines) (scope : List Temp) :
    bracesFrom (scope :: stack) (lines ++ [.close]) = stack := by
  obtain ⟨new, hnew⟩ := h scope stack
  rw [bracesFrom_append, hnew]
  rfl

/-! ### Scopes of a program that is laid out as it should be -/

/-- The text of the cases of a switch. -/
def layoutArms (arms : List (List Line × List (Flow (List Line)) × List Line)) : List Line :=
  (Flow.notesArms arms).flatten

theorem layout_cons (f : Flow (List Line)) (rest : List (Flow (List Line))) :
    layout (f :: rest) = f.notes.flatten ++ layout rest := by
  rw [layout, Flow.notesAll, List.flatten_append, layout]

theorem layoutArms_cons (start finish : List Line) (body : List (Flow (List Line)))
    (rest : List (List Line × List (Flow (List Line)) × List Line)) :
    layoutArms ((start, body, finish) :: rest) =
      start ++ (layout body ++ (finish ++ layoutArms rest)) := by
  simp [layoutArms, Flow.notesArms, layout]

theorem layout_block (b : Block) (enter exit : List Line) (body : List (Flow (List Line))) :
    (Flow.block b enter body exit).notes.flatten = enter ++ (layout body ++ exit) := by
  simp [Flow.notes, layout]

theorem layout_branch (enter other exit : List Line) (thenBody elseBody : List (Flow (List Line))) :
    (Flow.branch enter thenBody other elseBody exit).notes.flatten =
      enter ++ (layout thenBody ++ (other ++ (layout elseBody ++ exit))) := by
  simp [Flow.notes, layout]

theorem layout_switch (enter exit : List Line)
    (arms : List (List Line × List (Flow (List Line)) × List Line)) :
    (Flow.switch enter arms exit).notes.flatten = enter ++ (layoutArms arms ++ exit) := by
  simp [Flow.notes, layoutArms]

theorem bracesFrom_concat {o : Line} (ho : ∀ stack, o.brace stack = [] :: stack)
    (init : List Line) (stack : List (List Temp)) :
    bracesFrom stack (init ++ [o]) = [] :: bracesFrom stack init := by
  rw [bracesFrom_append]
  exact ho _

/-- The braces after a block are those after the lines before it. -/
theorem bracesFrom_block {body : List Line} (hbody : Balanced body) (init : List Line) (b : Block)
    (marked : Bool) (stack : List (List Temp)) :
    bracesFrom stack ((init ++ [.openBlock b]) ++ (body ++ .close ::
      if marked then [.exitMark b.label] else [])) = bracesFrom stack init := by
  rw [bracesFrom_append, bracesFrom_concat (o := .openBlock b) (fun _ => rfl), List.append_cons,
    bracesFrom_append, hbody.close]
  cases marked <;> rfl

theorem bracesFrom_branch {thenBody elseBody : List Line} (hthen : Balanced thenBody)
    (helse : Balanced elseBody) (init : List Line) (condition : Expr) (stack : List (List Temp)) :
    bracesFrom stack ((init ++ [.openIf condition]) ++ (thenBody ++ ([.otherwise] ++
      (elseBody ++ [.close])))) = bracesFrom stack init := by
  obtain ⟨new, hnew⟩ := hthen [] (bracesFrom stack init)
  rw [bracesFrom_append, bracesFrom_concat (o := .openIf condition) (fun _ => rfl),
    bracesFrom_append, hnew, bracesFrom_append]
  exact helse.close []

theorem bracesFrom_switch {arms : List Line} (harms : ∀ stack, bracesFrom stack arms = stack)
    (init : List Line) (value : Expr) (stack : List (List Temp)) :
    bracesFrom stack ((init ++ [.openSwitch value]) ++ (arms ++ [.close])) =
      bracesFrom stack init := by
  rw [bracesFrom_append, bracesFrom_concat (o := .openSwitch value) (fun _ => rfl),
    bracesFrom_append, harms]
  rfl

theorem bracesFrom_case {body : List Line} (hbody : Balanced body) (key : Option Int32)
    (rest : List Line) (stack : List (List Temp)) :
    bracesFrom stack ([.openCase key] ++ (body ++ ([.endCase, .close] ++ rest))) =
      bracesFrom stack rest := by
  obtain ⟨new, hnew⟩ := hbody [] stack
  have hopen : bracesFrom stack [.openCase key] = [] :: stack := rfl
  rw [bracesFrom_append, hopen, bracesFrom_append, hnew, bracesFrom_append]
  rfl

mutual

theorem balanced_flow {outer : List Block} : ∀ f : Flow (List Line), Shaped outer f →
    Balanced f.notes.flatten
  | .step lines, hshaped => by
    simp only [Shaped] at hshaped
    simpa [Flow.notes] using hshaped.balanced
  | .ret lines, hshaped => by
    simp only [Shaped] at hshaped
    obtain ⟨init, value, hinit, rfl⟩ := hshaped
    simpa [Flow.notes] using hinit.balanced.append (.singleton (l := .ret value) rfl)
  | .leave lines label, hshaped => by
    simp only [Shaped] at hshaped
    obtain ⟨⟨init, hinit, rfl⟩, -⟩ := hshaped
    simpa [Flow.notes] using hinit.balanced.append (.singleton (l := .gotoExit label) rfl)
  | .again lines label, hshaped => by
    simp only [Shaped] at hshaped
    obtain ⟨⟨init, hinit, rfl⟩, -⟩ := hshaped
    simpa [Flow.notes] using hinit.balanced.append (.singleton (l := .gotoStart label) rfl)
  | .block b enter body exit, hshaped => by
    simp only [Shaped] at hshaped
    obtain ⟨⟨init, hinit, rfl⟩, -, hbody, rfl⟩ := hshaped
    intro scope stack
    rw [layout_block, bracesFrom_block (balanced_layout body hbody)]
    exact hinit.balanced scope stack
  | .branch enter thenBody other elseBody exit, hshaped => by
    simp only [Shaped] at hshaped
    obtain ⟨⟨init, condition, hinit, rfl⟩, hthen, rfl, helse, rfl⟩ := hshaped
    intro scope stack
    rw [layout_branch,
      bracesFrom_branch (balanced_layout thenBody hthen) (balanced_layout elseBody helse)]
    exact hinit.balanced scope stack
  | .switch enter arms exit, hshaped => by
    simp only [Shaped] at hshaped
    obtain ⟨⟨init, value, hinit, rfl⟩, harms, -, rfl⟩ := hshaped
    intro scope stack
    rw [layout_switch, bracesFrom_switch (bracesFrom_layoutArms arms harms)]
    exact hinit.balanced scope stack

theorem balanced_layout {outer : List Block} : ∀ code : List (Flow (List Line)),
    ShapedAll outer code → Balanced (layout code)
  | [], _ => .nil
  | f :: rest, hshaped => by
    rw [ShapedAll] at hshaped
    rw [layout_cons]
    exact (balanced_flow f hshaped.1).append (balanced_layout rest hshaped.2)

theorem bracesFrom_layoutArms {outer : List Block} :
    ∀ arms : List (List Line × List (Flow (List Line)) × List Line), ShapedArms outer arms →
    ∀ stack, bracesFrom stack (layoutArms arms) = stack
  | [], _, _ => rfl
  | (start, body, finish) :: rest, hshaped, stack => by
    rw [ShapedArms] at hshaped
    obtain ⟨⟨key, rfl⟩, hbody, rfl, hrest⟩ := hshaped
    rw [layoutArms_cons, bracesFrom_case (balanced_layout body hbody)]
    exact bracesFrom_layoutArms rest hrest stack

end

/-- The first piece of a block opens one brace on those that are open after the block. -/
theorem opens_block {outer : List Block} {b : Block} {enter exit : List Line}
    {body : List (Flow (List Line))} (h : Shaped outer (.block b enter body exit))
    (stack : List (List Temp)) :
    bracesFrom stack enter =
      [] :: bracesFrom stack (Flow.block b enter body exit).notes.flatten := by
  rw [Shaped] at h
  obtain ⟨⟨init, -, rfl⟩, -, hbody, rfl⟩ := h
  rw [layout_block, bracesFrom_block (balanced_layout body hbody),
    bracesFrom_concat (o := .openBlock b) fun _ => rfl]

/-- The first piece of a choice opens one brace on those that are open after the choice. -/
theorem opens_arm {outer : List Block} {f : Flow (List Line)} {enter : List Line}
    {body : List (Flow (List Line))} (harm : f.Arm enter body) (h : Shaped outer f)
    (stack : List (List Temp)) :
    bracesFrom stack enter = [] :: bracesFrom stack f.notes.flatten := by
  cases harm with
  | thenArm | elseArm =>
    rw [Shaped] at h
    obtain ⟨⟨init, condition, -, rfl⟩, hthen, rfl, helse, rfl⟩ := h
    rw [layout_branch, bracesFrom_branch (balanced_layout _ hthen) (balanced_layout _ helse),
      bracesFrom_concat (o := .openIf condition) fun _ => rfl]
  | caseArm =>
    rw [Shaped] at h
    obtain ⟨⟨init, value, -, rfl⟩, harms, -, rfl⟩ := h
    rw [layout_switch, bracesFrom_switch (bracesFrom_layoutArms _ harms),
      bracesFrom_concat (o := .openSwitch value) fun _ => rfl]

/-- The bodies of the cases of a switch, each in the brace of its case. -/
theorem scoped_case {outer : List Block} {start finish : List Line}
    {body : List (Flow (List Line))} :
    ∀ {arms : List (List Line × List (Flow (List Line)) × List Line)}, ShapedArms outer arms →
    ScopedFrom top stack (layoutArms arms) → (start, body, finish) ∈ arms →
    ShapedAll outer body ∧ ScopedFrom top ([] :: stack) (layout body)
  | (start', body', finish') :: rest, hshaped, hscoped, hmem => by
    rw [ShapedArms] at hshaped
    obtain ⟨⟨key, rfl⟩, hbody, rfl, hrest⟩ := hshaped
    rw [layoutArms_cons] at hscoped
    rcases List.mem_cons.1 hmem with heq | hmem
    · obtain ⟨-, rfl, -⟩ : start = _ ∧ body = body' ∧ finish = _ := by simpa using heq
      exact ⟨hbody, hscoped.right.left⟩
    · refine scoped_case hrest ?_ hmem
      have hnext := bracesFrom_case (balanced_layout body' hbody) key [] stack
      rw [List.append_nil, bracesFrom_append, bracesFrom_append] at hnext
      have hrest := hscoped.right.right.right
      rwa [hnext] at hrest

end KernelForge.Source
