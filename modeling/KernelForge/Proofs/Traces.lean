import KernelForge.Proofs.Replay

/-!
# Reading a trace back

A sink that only records what it is handed ends up with the trace of the body. The trace is a flat
word in which the same node or label may occur many times and at any depth; `read?` is a reader for
such words. It keeps the constructs that are still open, outermost last, and for each of them the
statements that came before it.

What a reader has read is a word again (`Reading.trace`). An event that it accepts is added to that
word and nothing else is (`trace_next`), so it accepts nothing but traces; and walking a statement
leads it from any body to the same body with the statement at its end (`reads_stmt`).
-/

namespace KernelForge

/-- The events that a sink has recorded when a body was replayed into it. -/
def recorded (body : List Stmt) : List Event :=
  ((replay (m := StateM (List Event)) (fun e => modify (· ++ [e])) body).run []).2

theorem recorded_eq (body : List Stmt) : recorded body = bodyEvents body := by
  have hrecord : ∀ (es before : List Event),
      ((es.forM fun e => (modify (· ++ [e]) : StateM (List Event) Unit)).run before).2 =
        before ++ es := by
    intro es
    induction es with
    | nil => exact fun before => (List.append_nil before).symm
    | cons e rest ih =>
      intro before
      rw [List.forM_eq_forM, List.forM_cons, ← List.forM_eq_forM]
      exact (ih (before ++ [e])).trans (by simp)
  rw [recorded, replay_eq, hrecord, List.nil_append]

theorem bodyEvents_append (xs ys : List Stmt) :
    bodyEvents (xs ++ ys) = bodyEvents xs ++ bodyEvents ys := by
  induction xs with
  | nil => simp [bodyEvents]
  | cons stmt rest ih => simp [bodyEvents, ih]

theorem bodyEvents_concat (body : List Stmt) (stmt : Stmt) :
    bodyEvents (body ++ [stmt]) = bodyEvents body ++ stmt.events := by
  simp [bodyEvents_append, bodyEvents]

theorem armEvents_concat (node : NodeId) (arms : List (Int32 × List Stmt)) (key : Int32)
    (body : List Stmt) : armEvents node (arms ++ [(key, body)]) = armEvents node arms ++
      .startCase node (some key) :: (bodyEvents body ++ [.finishCase node]) := by
  induction arms with
  | nil => simp [armEvents]
  | cons arm rest ih => simp [armEvents, ih]

/-! ### The reader -/

/-- A part of a construct that has started and not finished. `before` are the statements before the
construct in the body around it. -/
inductive Pending
  | block (b : Block) (before : List Stmt)
  | thenPart (node : NodeId) (before : List Stmt)
  | elsePart (node : NodeId) (before thenBody : List Stmt)
  | keyed (node : NodeId) (before : List Stmt) (arms : List (Int32 × List Stmt)) (key : Int32)
  | fallback (node : NodeId) (before : List Stmt) (arms : List (Int32 × List Stmt))

/-- What was read so far: the open parts, innermost first, and where the reader is. -/
inductive Reading
  /-- In a body, after some of its statements. -/
  | body (pending : List Pending) (done : List Stmt)
  /-- In a switch, where a case may start. -/
  | cases (pending : List Pending) (before : List Stmt) (node : NodeId)
    (arms : List (Int32 × List Stmt))
  /-- In a switch whose default case is over. -/
  | ending (pending : List Pending) (before : List Stmt) (node : NodeId)
    (arms : List (Int32 × List Stmt)) (fallback : List Stmt)

namespace Reading

/-- A statement without parts. -/
def add (stmt : Stmt) : Reading → Option Reading
  | body ps done => some (body ps (done ++ [stmt]))
  | _ => none

/-- The start of a construct. -/
def enter (part : List Stmt → Pending) : Reading → Option Reading
  | body ps done => some (body (part done :: ps) [])
  | _ => none

/-- Read one more event. -/
def next (r : Reading) : Event → Option Reading
  | .effect node => r.add (.effect node)
  | .ret node => r.add (.ret node)
  | .leave source label => r.add (.leave source label)
  | .again source label => r.add (.again source label)
  | .edge source => r.add (.edge source)
  | .startBlock b => r.enter (.block b)
  | .finishBlock b =>
    match r with
    | body (.block b' before :: ps) done =>
      if b' = b then some (body ps (before ++ [.block b done])) else none
    | _ => none
  | .startIf node => r.enter (.thenPart node)
  | .startElse node =>
    match r with
    | body (.thenPart node' before :: ps) done =>
      if node' = node then some (body (.elsePart node before done :: ps) []) else none
    | _ => none
  | .finishIf node =>
    match r with
    | body (.elsePart node' before thenBody :: ps) done =>
      if node' = node then some (body ps (before ++ [.branch node thenBody done])) else none
    | _ => none
  | .startSwitch node =>
    match r with
    | body ps done => some (cases ps done node [])
    | _ => none
  | .startCase node key =>
    match r with
    | cases ps before node' arms =>
      if node' = node then
        some (body ((match key with
          | some key => .keyed node before arms key
          | none => .fallback node before arms) :: ps) [])
      else none
    | _ => none
  | .finishCase node =>
    match r with
    | body (.keyed node' before arms key :: ps) done =>
      if node' = node then some (cases ps before node (arms ++ [(key, done)])) else none
    | body (.fallback node' before arms :: ps) done =>
      if node' = node then some (ending ps before node arms done) else none
    | _ => none
  | .finishSwitch node =>
    match r with
    | ending ps before node' arms fallback =>
      if node' = node then some (body ps (before ++ [.switch node arms fallback])) else none
    | _ => none

/-- Read some more events. -/
def through (r : Reading) (events : List Event) : Option Reading :=
  events.foldlM next r

/-- The body that was read, if nothing is open. -/
def result? : Reading → Option (List Stmt)
  | body [] done => some done
  | _ => none

end Reading

/-- The body that a list of events is the trace of. -/
def read? (events : List Event) : Option (List Stmt) :=
  ((Reading.body [] []).through events).bind Reading.result?

/-! ### A trace is read back -/

namespace Reading

theorem through_append (r : Reading) (xs ys : List Event) :
    r.through (xs ++ ys) = (r.through xs).bind (·.through ys) :=
  List.foldlM_append

theorem through_cons (r : Reading) (e : Event) (events : List Event) :
    r.through (e :: events) = (r.next e).bind (·.through events) :=
  List.foldlM_cons

@[simp] theorem through_nil (r : Reading) : r.through [] = some r :=
  rfl

section next

variable (ps : List Pending) (before done thenBody fallback : List Stmt) (node : NodeId)
  (arms : List (Int32 × List Stmt))

theorem next_finishBlock (b : Block) :
    (body (.block b before :: ps) done).next (.finishBlock b) =
      some (body ps (before ++ [.block b done])) :=
  if_pos rfl

theorem next_startElse :
    (body (.thenPart node before :: ps) done).next (.startElse node) =
      some (body (.elsePart node before done :: ps) []) :=
  if_pos rfl

theorem next_finishIf :
    (body (.elsePart node before thenBody :: ps) done).next (.finishIf node) =
      some (body ps (before ++ [.branch node thenBody done])) :=
  if_pos rfl

theorem next_startCase (key : Int32) :
    (cases ps before node arms).next (.startCase node (some key)) =
      some (body (.keyed node before arms key :: ps) []) :=
  if_pos rfl

theorem next_startDefault :
    (cases ps before node arms).next (.startCase node none) =
      some (body (.fallback node before arms :: ps) []) :=
  if_pos rfl

theorem next_finishCase (key : Int32) :
    (body (.keyed node before arms key :: ps) done).next (.finishCase node) =
      some (cases ps before node (arms ++ [(key, done)])) :=
  if_pos rfl

theorem next_finishDefault :
    (body (.fallback node before arms :: ps) done).next (.finishCase node) =
      some (ending ps before node arms done) :=
  if_pos rfl

theorem next_finishSwitch :
    (ending ps before node arms fallback).next (.finishSwitch node) =
      some (body ps (before ++ [.switch node arms fallback])) :=
  if_pos rfl

end next

variable {r r' : Reading}

theorem through_cons_of {e : Event} (h : r.next e = some r') (events : List Event) :
    r.through (e :: events) = r'.through events := by
  rw [through_cons, h, Option.bind_some]

theorem through_append_of {xs : List Event} (h : r.through xs = some r') (ys : List Event) :
    r.through (xs ++ ys) = r'.through ys := by
  rw [through_append, h, Option.bind_some]

end Reading

open Reading

mutual

/-- Walking a statement adds it to the body that is being read. -/
theorem reads_stmt : ∀ (stmt : Stmt) (ps : List Pending) (done : List Stmt),
    (body ps done).through stmt.events = some (body ps (done ++ [stmt]))
  | .effect _, _, _ | .ret _, _, _ | .leave _ _, _, _ | .again _ _, _, _ | .edge _, _, _ => rfl
  | .block b inner, ps, done => by
    rw [Stmt.events, through_cons_of rfl,
      through_append_of (reads_body inner (.block b done :: ps) []), List.nil_append,
      through_cons_of (next_finishBlock _ _ _ _), through_nil]
  | .branch node thenBody elseBody, ps, done => by
    rw [Stmt.events, through_cons_of rfl,
      through_append_of (reads_body thenBody (.thenPart node done :: ps) []), List.nil_append,
      through_cons_of (next_startElse _ _ _ _),
      through_append_of (reads_body elseBody (.elsePart node done thenBody :: ps) []),
      List.nil_append, through_cons_of (next_finishIf _ _ _ _ _), through_nil]
  | .switch node arms fallback, ps, done => by
    rw [Stmt.events, through_cons_of rfl, through_append_of (reads_arms node arms ps done []),
      List.nil_append, through_cons_of (next_startDefault _ _ _ _),
      through_append_of (reads_body fallback (.fallback node done arms :: ps) []),
      List.nil_append, through_cons_of (next_finishDefault _ _ _ _ _),
      through_cons_of (next_finishSwitch _ _ _ _ _), through_nil]
termination_by structural stmt => stmt

theorem reads_body : ∀ (stmts : List Stmt) (ps : List Pending) (done : List Stmt),
    (body ps done).through (bodyEvents stmts) = some (body ps (done ++ stmts))
  | [], _, _ => by rw [bodyEvents, through_nil, List.append_nil]
  | stmt :: rest, ps, done => by
    rw [bodyEvents, through_append_of (reads_stmt stmt ps done),
      reads_body rest ps (done ++ [stmt]), List.append_assoc, List.singleton_append]
termination_by structural stmts => stmts

theorem reads_arms (node : NodeId) : ∀ (arms : List (Int32 × List Stmt)) (ps : List Pending)
    (before : List Stmt) (done : List (Int32 × List Stmt)),
      (cases ps before node done).through (armEvents node arms) =
        some (cases ps before node (done ++ arms))
  | [], _, _, _ => by rw [armEvents, through_nil, List.append_nil]
  | (key, inner) :: arms, ps, before, done => by
    rw [armEvents, through_cons_of (next_startCase _ _ _ _ _),
      through_append_of (reads_body inner (.keyed node before done key :: ps) []),
      List.nil_append, through_cons_of (next_finishCase _ _ _ _ _ _),
      reads_arms node arms ps before (done ++ [(key, inner)]), List.append_assoc,
      List.singleton_append]
termination_by structural arms => arms

end

theorem read?_bodyEvents (stmts : List Stmt) : read? (bodyEvents stmts) = some stmts := by
  rw [read?, reads_body, List.nil_append, Option.bind_some, result?]

/-! ### Nothing but traces is read -/

/-- The events of an open part of a construct, from the beginning of the body around it. -/
def Pending.trace : Pending → List Event
  | .block b before => bodyEvents before ++ [.startBlock b]
  | .thenPart node before => bodyEvents before ++ [.startIf node]
  | .elsePart node before thenBody =>
    bodyEvents before ++ .startIf node :: (bodyEvents thenBody ++ [.startElse node])
  | .keyed node before arms key =>
    bodyEvents before ++ .startSwitch node :: (armEvents node arms ++ [.startCase node (some key)])
  | .fallback node before arms =>
    bodyEvents before ++ .startSwitch node :: (armEvents node arms ++ [.startCase node none])

/-- The events of open parts, innermost part first. -/
def pendingTrace : List Pending → List Event
  | [] => []
  | part :: ps => pendingTrace ps ++ part.trace

/-- The events that were read. -/
def Reading.trace : Reading → List Event
  | body ps done => pendingTrace ps ++ bodyEvents done
  | cases ps before node arms =>
    pendingTrace ps ++ (bodyEvents before ++ .startSwitch node :: armEvents node arms)
  | ending ps before node arms fallback =>
    pendingTrace ps ++ (bodyEvents before ++ .startSwitch node ::
      (armEvents node arms ++ .startCase node none :: (bodyEvents fallback ++ [.finishCase node])))

theorem trace_add {r r' : Reading} {stmt : Stmt} {e : Event} (hevents : stmt.events = [e])
    (h : r.add stmt = some r') : r'.trace = r.trace ++ [e] := by
  cases r with
  | body ps done =>
    obtain rfl := Option.some.inj h
    simp [trace, bodyEvents_concat, hevents]
  | cases | ending => cases h

theorem trace_enter {r r' : Reading} {part : List Stmt → Pending} {e : Event}
    (hpart : ∀ before, (part before).trace = bodyEvents before ++ [e])
    (h : r.enter part = some r') : r'.trace = r.trace ++ [e] := by
  cases r with
  | body ps done =>
    obtain rfl := Option.some.inj h
    simp [trace, pendingTrace, hpart, bodyEvents]
  | cases | ending => cases h

/-- An event that is accepted is added to what was read. -/
theorem trace_next {r r' : Reading} {e : Event} (h : r.next e = some r') :
    r'.trace = r.trace ++ [e] := by
  cases e with
  | effect | ret | leave | again | edge => exact trace_add rfl h
  | startBlock | startIf => exact trace_enter (fun _ => rfl) h
  | startSwitch =>
    cases r with
    | body =>
      obtain rfl := Option.some.inj h
      simp [trace, armEvents]
    | cases | ending => cases h
  | startCase node key =>
    cases r with
    | cases =>
      simp only [next] at h
      split_ifs at h with hnode
      obtain rfl := Option.some.inj h
      subst hnode
      cases key <;> simp [trace, pendingTrace, Pending.trace, bodyEvents]
    | body | ending => cases h
  | finishBlock | startElse | finishIf =>
    simp only [next] at h
    split at h
    · split_ifs at h with hsame
      obtain rfl := Option.some.inj h
      subst hsame
      simp [trace, pendingTrace, Pending.trace, bodyEvents, bodyEvents_concat, Stmt.events]
    · cases h
  | finishCase =>
    simp only [next] at h
    split at h
    · split_ifs at h with hsame
      obtain rfl := Option.some.inj h
      subst hsame
      simp [trace, pendingTrace, Pending.trace, armEvents_concat]
    · split_ifs at h with hsame
      obtain rfl := Option.some.inj h
      subst hsame
      simp [trace, pendingTrace, Pending.trace]
    · cases h
  | finishSwitch =>
    cases r with
    | ending =>
      simp only [next] at h
      split_ifs at h with hnode
      obtain rfl := Option.some.inj h
      subst hnode
      simp [trace, bodyEvents_concat, Stmt.events]
    | body | cases => cases h

theorem trace_through {events : List Event} {r r' : Reading} (h : r.through events = some r') :
    r'.trace = r.trace ++ events := by
  induction events generalizing r with
  | nil =>
    obtain rfl := Option.some.inj h
    exact (List.append_nil _).symm
  | cons e rest ih =>
    rw [through_cons] at h
    obtain ⟨r₁, hnext, hrest⟩ := Option.bind_eq_some_iff.1 h
    rw [ih hrest, trace_next hnext, List.append_assoc, List.singleton_append]

theorem eq_bodyEvents_of_read? {events : List Event} {stmts : List Stmt}
    (h : read? events = some stmts) : bodyEvents stmts = events := by
  obtain ⟨r, hr, hresult⟩ := Option.bind_eq_some_iff.1 h
  have htrace := trace_through hr
  cases r with
  | body ps done =>
    cases ps with
    | nil =>
      obtain rfl := Option.some.inj hresult
      simpa [trace, pendingTrace, bodyEvents] using htrace
    | cons => cases hresult
  | cases | ending => cases hresult

/-! ### Starts and finishes -/

/-- The finish of what an event starts. -/
def Event.finish? : Event → Option Event
  | .startBlock b => some (.finishBlock b)
  | .startIf node => some (.finishIf node)
  | .startSwitch node => some (.finishSwitch node)
  | .startCase node _ => some (.finishCase node)
  | _ => none

/-- Whether an event finishes something. -/
def Event.isFinish : Event → Bool
  | .finishBlock _ | .finishIf _ | .finishSwitch _ | .finishCase _ => true
  | _ => false

theorem Event.finish?_finish {e f : Event} (h : e.finish? = some f) : f.finish? = none := by
  cases e <;> simp only [Event.finish?, Option.some.injEq, reduceCtorEq] at h <;> subst h <;> rfl

/-- Starts and finishes match like parentheses: every start has the finish of the same block, branch,
switch or case, and what is in between is well nested itself. -/
inductive WellNested : List Event → Prop
  | nil : WellNested []
  | plain {e : Event} {rest : List Event} (hstart : e.finish? = none) (hfinish : e.isFinish = false)
      (hrest : WellNested rest) : WellNested (e :: rest)
  | pair {e f : Event} {inner rest : List Event} (hfinish : e.finish? = some f)
      (hinner : WellNested inner) (hrest : WellNested rest) :
      WellNested (e :: (inner ++ f :: rest))

theorem WellNested.append {xs ys : List Event} (hx : WellNested xs) (hy : WellNested ys) :
    WellNested (xs ++ ys) := by
  induction hx with
  | nil => exact hy
  | plain hstart hfinish _ ih => exact .plain hstart hfinish ih
  | pair hfinish hinner _ _ ih =>
    rw [List.cons_append, List.append_assoc, List.cons_append]
    exact .pair hfinish hinner ih

/-- Every start has its own finish later on, with a well nested word in between. -/
theorem WellNested.exists_finish {events : List Event} (h : WellNested events) :
    ∀ {before after : List Event} {e f : Event}, events = before ++ e :: after →
      e.finish? = some f → ∃ inner rest, after = inner ++ f :: rest ∧ WellNested inner := by
  induction h with
  | nil =>
    intro before after e f heq
    cases before <;> cases heq
  | @plain e₀ rest₀ hstart hfinish _ ih =>
    intro before after e f heq hef
    cases before with
    | nil =>
      obtain ⟨rfl, rfl⟩ := List.cons.inj heq
      simp [hstart] at hef
    | cons _ before => exact ih (List.cons.inj heq).2 hef
  | @pair e₀ f₀ inner₀ rest₀ hfinish hinner _ ihinner ihrest =>
    intro before after e f heq hef
    cases before with
    | nil =>
      obtain ⟨rfl, rfl⟩ := List.cons.inj heq
      obtain rfl := Option.some.inj (hfinish.symm.trans hef)
      exact ⟨inner₀, rest₀, rfl, hinner⟩
    | cons _ before =>
      have hne : f₀ ≠ e := by
        rintro rfl
        exact absurd (Event.finish?_finish hfinish) (by simp [hef])
      -- The start is either before the finish of the pair or after it.
      obtain ⟨mid, rfl, hmid⟩ | ⟨mid, rfl, hmid⟩ :=
        List.append_eq_append_iff.1 (List.cons.inj heq).2
      · cases mid with
        | nil => exact absurd (List.cons.inj hmid).1 hne
        | cons _ mid => exact ihrest (List.cons.inj hmid).2 hef
      · cases mid with
        | nil => exact absurd (List.cons.inj hmid).1.symm hne
        | cons e₁ mid =>
          obtain ⟨rfl, rfl⟩ := List.cons.inj hmid
          obtain ⟨inner, rest, rfl, hwell⟩ := ihinner rfl hef
          exact ⟨inner, rest ++ f₀ :: rest₀, by simp, hwell⟩

mutual

theorem wellNested_stmt : ∀ stmt : Stmt, WellNested stmt.events
  | .effect _ | .ret _ | .leave _ _ | .again _ _ | .edge _ => .plain rfl rfl .nil
  | .block _ inner => .pair rfl (wellNested_body inner) .nil
  | .branch node thenBody elseBody => by
    have helse : WellNested (.startElse node :: bodyEvents elseBody) :=
      .plain rfl rfl (wellNested_body elseBody)
    have hparts := WellNested.pair (e := .startIf node) rfl
      ((wellNested_body thenBody).append helse) .nil
    simpa [Stmt.events] using hparts
  | .switch node arms fallback => by
    have hfallback : WellNested (.startCase node none :: (bodyEvents fallback ++
        [.finishCase node])) := .pair rfl (wellNested_body fallback) .nil
    have hcases := WellNested.pair (e := .startSwitch node) rfl
      ((wellNested_arms node arms).append hfallback) .nil
    simpa [Stmt.events] using hcases

theorem wellNested_body : ∀ stmts : List Stmt, WellNested (bodyEvents stmts)
  | [] => by
    rw [bodyEvents]
    exact .nil
  | stmt :: rest => by
    rw [bodyEvents]
    exact (wellNested_stmt stmt).append (wellNested_body rest)

theorem wellNested_arms (node : NodeId) :
    ∀ arms : List (Int32 × List Stmt), WellNested (armEvents node arms)
  | [] => by
    rw [armEvents]
    exact .nil
  | (_, inner) :: arms => by
    rw [armEvents]
    exact .pair rfl (wellNested_body inner) (wellNested_arms node arms)

end

/-- **A trace determines its body.** The reader recovers every body from what a sink records of it,
and reads nothing but such traces; so two bodies with the same trace are the same body. Every trace
is well nested: a start is followed by its own finish, with a well nested word in between. -/
theorem recorded_determines_body (body : List Stmt) :
    read? (recorded body) = some body ∧
      (∀ events, read? events = some body ↔ recorded body = events) ∧
      (∀ other, recorded other = recorded body → other = body) ∧
      WellNested (recorded body) ∧
      ∀ before start after finish, recorded body = before ++ start :: after →
        start.finish? = some finish →
          ∃ inner rest, after = inner ++ finish :: rest ∧ WellNested inner := by
  have hread : ∀ stmts, read? (recorded stmts) = some stmts := fun stmts => by
    rw [recorded_eq, read?_bodyEvents]
  have hnested : WellNested (recorded body) := recorded_eq body ▸ wellNested_body body
  refine ⟨hread body, fun events => ⟨fun h => ?_, fun h => ?_⟩, fun other h => ?_, hnested,
    fun _ _ _ _ => hnested.exists_finish⟩
  · exact (recorded_eq body).trans (eq_bodyEvents_of_read? h)
  · exact h ▸ hread body
  · exact Option.some.inj ((hread other).symm.trans (h ▸ hread body))

/-- One label on two nested blocks, one node at a branch and at a switch. -/
def reusedLabels : List Stmt :=
  [.block ⟨"l", true⟩ [.branch 1 [.again 2 "l"] [.block ⟨"l", false⟩ [.leave 3 "l"]]],
    .switch 1 [(0, [.effect 4])] [.edge 1]]

theorem recorded_determines_body_reusedLabels :
    (∀ other, recorded other = recorded reusedLabels → other = reusedLabels) ∧
      ∃ inner rest, WellNested inner ∧
        [Event.again 2 "l", .startElse 1, .startBlock ⟨"l", false⟩, .leave 3 "l",
          .finishBlock ⟨"l", false⟩, .finishIf 1, .finishBlock ⟨"l", true⟩, .startSwitch 1,
          .startCase 1 (some 0), .effect 4, .finishCase 1, .startCase 1 none, .edge 1,
          .finishCase 1, .finishSwitch 1] = inner ++ .finishIf 1 :: rest := by
  obtain ⟨_, _, hinjective, _, hmatched⟩ := recorded_determines_body reusedLabels
  obtain ⟨inner, rest, hafter, hinner⟩ := hmatched [.startBlock ⟨"l", true⟩] (.startIf 1) _
    (.finishIf 1) ((recorded_eq reusedLabels).trans rfl) rfl
  exact ⟨hinjective, inner, rest, hinner, hafter⟩

end KernelForge
