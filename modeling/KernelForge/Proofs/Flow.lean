import Mathlib
import KernelForge.Kernel.Body

/-!
# Control paths of structured programs

A `Flow` is a structured program with a note at each of its places. `Runs` lists the notes that a run
passes, for any arm at each choice, any number of passes through a loop, and every jump followed to the
block that it names. The notes of a program can be exchanged without changing its paths (`Runs.map`,
`Runs.of_map`). The flow of a body has the positions of its events as notes.
-/

namespace KernelForge

variable {α β : Type}

/-- A structured program. The notes of places where nothing happens, such as the end of a block, only
matter for the order of all notes. -/
inductive Flow (α : Type)
  | step (note : α)
  | ret (note : α)
  /-- Leave the labelled block. -/
  | leave (note : α) (label : String)
  /-- Start the labelled loop again. -/
  | again (note : α) (label : String)
  | block (b : Block) (enter : α) (body : List (Flow α)) (exit : α)
  | branch (enter : α) (thenBody : List (Flow α)) (other : α) (elseBody : List (Flow α)) (exit : α)
  /-- Each arm with the notes of its start and its end. -/
  | switch (enter : α) (arms : List (α × List (Flow α) × α)) (exit : α)

/-- How a run of a piece of a program ends. -/
inductive Exit
  | done
  /-- The run was watched no further. -/
  | stopped
  | returned
  /-- A jump to the end of the labelled block is under way. -/
  | leaving (label : String)
  /-- A jump to the start of the labelled loop is under way. -/
  | again (label : String)
deriving DecidableEq

/-- After its body ended, the block is passed through once more. -/
def Block.Repeats (b : Block) (e : Exit) : Prop :=
  b.isLoop = true ∧ (e = .done ∨ e = .again b.label)

/-- After its body ended, the run goes on behind the block. -/
def Block.Ends (b : Block) (e : Exit) : Prop :=
  e = .leaving b.label ∨ e = .done ∧ b.isLoop = false

namespace Flow

/-- The arms of a choice, with the note of the choice. -/
inductive Arm : Flow α → α → List (Flow α) → Prop
  | thenArm {enter other exit : α} {thenBody elseBody : List (Flow α)} :
      Arm (.branch enter thenBody other elseBody exit) enter thenBody
  | elseArm {enter other exit : α} {thenBody elseBody : List (Flow α)} :
      Arm (.branch enter thenBody other elseBody exit) enter elseBody
  | caseArm {enter start finish exit : α} {arms : List (α × List (Flow α) × α)}
      {body : List (Flow α)} (h : (start, body, finish) ∈ arms) :
      Arm (.switch enter arms exit) enter body

/-- The notes that a run of a program passes, and how the run ends. -/
inductive Runs : List (Flow α) → List α → Exit → Prop
  | stop {code : List (Flow α)} : Runs code [] .stopped
  | nil : Runs [] [] .done
  | step {a : α} {rest : List (Flow α)} {path : List α} {e : Exit} (hrest : Runs rest path e) :
      Runs (.step a :: rest) (a :: path) e
  | ret {a : α} {rest : List (Flow α)} : Runs (.ret a :: rest) [a] .returned
  | leave {a : α} {label : String} {rest : List (Flow α)} :
      Runs (.leave a label :: rest) [a] (.leaving label)
  | again {a : α} {label : String} {rest : List (Flow α)} :
      Runs (.again a label :: rest) [a] (.again label)
  | blockOut {b : Block} {enter exit : α} {body rest : List (Flow α)} {path : List α} {e : Exit}
      (hbody : Runs body path e) (hrepeats : ¬ b.Repeats e) (hends : ¬ b.Ends e) :
      Runs (.block b enter body exit :: rest) (enter :: path) e
  | blockEnd {b : Block} {enter exit : α} {body rest : List (Flow α)} {path path' : List α}
      {e e' : Exit} (hbody : Runs body path e) (hends : b.Ends e) (hrest : Runs rest path' e') :
      Runs (.block b enter body exit :: rest) (enter :: (path ++ path')) e'
  | blockAgain {b : Block} {enter exit : α} {body rest : List (Flow α)} {path path' : List α}
      {e e' : Exit} (hbody : Runs body path e) (hrepeats : b.Repeats e)
      (hrest : Runs (.block b enter body exit :: rest) (enter :: path') e') :
      Runs (.block b enter body exit :: rest) (enter :: (path ++ path')) e'
  | armOut {f : Flow α} {enter : α} {body rest : List (Flow α)} {path : List α} {e : Exit}
      (harm : Arm f enter body) (hbody : Runs body path e) (hout : e ≠ .done) :
      Runs (f :: rest) (enter :: path) e
  | armEnd {f : Flow α} {enter : α} {body rest : List (Flow α)} {path path' : List α} {e : Exit}
      (harm : Arm f enter body) (hbody : Runs body path .done) (hrest : Runs rest path' e) :
      Runs (f :: rest) (enter :: (path ++ path')) e

mutual

/-- All notes, in source order. -/
def notes : Flow α → List α
  | step a | ret a | leave a _ | again a _ => [a]
  | block _ enter body exit => enter :: (notesAll body ++ [exit])
  | branch enter thenBody other elseBody exit =>
    enter :: (notesAll thenBody ++ other :: (notesAll elseBody ++ [exit]))
  | switch enter arms exit => enter :: (notesArms arms ++ [exit])

/-- All notes of a program. -/
def notesAll : List (Flow α) → List α
  | [] => []
  | f :: rest => f.notes ++ notesAll rest

/-- All notes of the arms of a switch. -/
def notesArms : List (α × List (Flow α) × α) → List α
  | [] => []
  | (start, body, finish) :: rest => start :: (notesAll body ++ finish :: notesArms rest)

end

/-- The note where a run into a statement starts. -/
def first : Flow α → α
  | step a | ret a | leave a _ | again a _ => a
  | block _ enter _ _ | branch enter _ _ _ _ | switch enter _ _ => enter

theorem notes_eq (f : Flow α) : ∃ more, f.notes = f.first :: more := by
  cases f <;> simp [notes, first]

theorem Arm.first_eq {f : Flow α} {enter : α} {body : List (Flow α)} (h : Arm f enter body) :
    enter = f.first := by
  cases h <;> rfl

theorem mem_notesArms {arms : List (α × List (Flow α) × α)} {start finish a : α}
    {body : List (Flow α)} (h : (start, body, finish) ∈ arms) (ha : a ∈ notesAll body) :
    a ∈ notesArms arms := by
  induction arms with
  | nil => cases h
  | cons arm rest ih =>
    obtain ⟨start', body', finish'⟩ := arm
    rw [notesArms]
    rcases List.mem_cons.1 h with heq | h
    · obtain ⟨-, rfl, -⟩ : start = start' ∧ body = body' ∧ finish = finish' := by simpa using heq
      simp [ha]
    · simp [ih h]

mutual

/-- Exchange the notes. -/
def map (g : α → β) : Flow α → Flow β
  | step a => step (g a)
  | ret a => ret (g a)
  | leave a label => leave (g a) label
  | again a label => again (g a) label
  | block b enter body exit => block b (g enter) (mapAll g body) (g exit)
  | branch enter thenBody other elseBody exit =>
    branch (g enter) (mapAll g thenBody) (g other) (mapAll g elseBody) (g exit)
  | switch enter arms exit => switch (g enter) (mapArms g arms) (g exit)

/-- Exchange the notes of a program. -/
def mapAll (g : α → β) : List (Flow α) → List (Flow β)
  | [] => []
  | f :: rest => f.map g :: mapAll g rest

/-- Exchange the notes of the arms of a switch. -/
def mapArms (g : α → β) : List (α × List (Flow α) × α) → List (β × List (Flow β) × β)
  | [] => []
  | (start, body, finish) :: rest => (g start, mapAll g body, g finish) :: mapArms g rest

end

mutual

/-- Whether the labelled block is left somewhere. -/
def leaves (label : String) : Flow α → Bool
  | leave _ l => label == l
  | step _ | ret _ | again _ _ => false
  | block _ _ body _ => leavesAny label body
  | branch _ thenBody _ elseBody _ => leavesAny label thenBody || leavesAny label elseBody
  | switch _ arms _ => leavesArms label arms

/-- Whether the labelled block is left somewhere in a program. -/
def leavesAny (label : String) : List (Flow α) → Bool
  | [] => false
  | f :: rest => f.leaves label || leavesAny label rest

/-- Whether the labelled block is left in an arm of a switch. -/
def leavesArms (label : String) : List (α × List (Flow α) × α) → Bool
  | [] => false
  | (_, body, _) :: rest => leavesAny label body || leavesArms label rest

end

/-! ### Exchanging notes -/

section map

variable {g : α → β}

mutual

theorem notes_map (g : α → β) : ∀ f : Flow α, (f.map g).notes = f.notes.map g
  | step _ | ret _ | leave _ _ | again _ _ => by simp [map, notes]
  | block _ _ body _ => by simp [map, notes, notesAll_mapAll g body]
  | branch _ thenBody _ elseBody _ => by
    simp [map, notes, notesAll_mapAll g thenBody, notesAll_mapAll g elseBody]
  | switch _ arms _ => by simp [map, notes, notesArms_mapArms g arms]

theorem notesAll_mapAll (g : α → β) : ∀ code : List (Flow α),
    notesAll (mapAll g code) = (notesAll code).map g
  | [] => by simp [mapAll, notesAll]
  | f :: rest => by simp [mapAll, notesAll, notes_map g f, notesAll_mapAll g rest]

theorem notesArms_mapArms (g : α → β) : ∀ arms : List (α × List (Flow α) × α),
    notesArms (mapArms g arms) = (notesArms arms).map g
  | [] => by simp [mapArms, notesArms]
  | (_, body, _) :: rest => by
    simp [mapArms, notesArms, notesAll_mapAll g body, notesArms_mapArms g rest]

end

mutual

theorem leaves_map (g : α → β) (label : String) : ∀ f : Flow α,
    (f.map g).leaves label = f.leaves label
  | step _ | ret _ | leave _ _ | again _ _ => by simp [map, leaves]
  | block _ _ body _ => by simp [map, leaves, leavesAny_mapAll g label body]
  | branch _ thenBody _ elseBody _ => by
    simp [map, leaves, leavesAny_mapAll g label thenBody, leavesAny_mapAll g label elseBody]
  | switch _ arms _ => by simp [map, leaves, leavesArms_mapArms g label arms]

theorem leavesAny_mapAll (g : α → β) (label : String) : ∀ code : List (Flow α),
    leavesAny label (mapAll g code) = leavesAny label code
  | [] => by simp [mapAll, leavesAny]
  | f :: rest => by simp [mapAll, leavesAny, leaves_map g label f, leavesAny_mapAll g label rest]

theorem leavesArms_mapArms (g : α → β) (label : String) : ∀ arms : List (α × List (Flow α) × α),
    leavesArms label (mapArms g arms) = leavesArms label arms
  | [] => by simp [mapArms, leavesArms]
  | (_, body, _) :: rest => by
    simp [mapArms, leavesArms, leavesAny_mapAll g label body, leavesArms_mapArms g label rest]

end

theorem mapArms_eq (arms : List (α × List (Flow α) × α)) :
    mapArms g arms = arms.map fun arm => (g arm.1, mapAll g arm.2.1, g arm.2.2) := by
  induction arms with
  | nil => simp [mapArms]
  | cons arm rest ih => simp [mapArms, ih]

theorem mapArms_append (xs ys : List (α × List (Flow α) × α)) :
    mapArms g (xs ++ ys) = mapArms g xs ++ mapArms g ys := by
  simp [mapArms_eq]

theorem Arm.map {f : Flow α} {enter : α} {body : List (Flow α)} (h : Arm f enter body) :
    Arm (f.map g) (g enter) (mapAll g body) := by
  cases h with
  | thenArm => rw [Flow.map]; exact .thenArm
  | elseArm => rw [Flow.map]; exact .elseArm
  | caseArm h =>
    rw [Flow.map, mapArms_eq]
    exact .caseArm (List.mem_map_of_mem (f := fun arm => (g arm.1, mapAll g arm.2.1, g arm.2.2)) h)

theorem Arm.of_map {f : Flow α} {enter : β} {body : List (Flow β)} (h : Arm (f.map g) enter body) :
    ∃ enter₀ body₀, enter = g enter₀ ∧ body = mapAll g body₀ ∧ Arm f enter₀ body₀ := by
  cases f with
  | branch enter₀ thenBody _ elseBody _ =>
    rw [Flow.map] at h
    cases h with
    | thenArm => exact ⟨_, _, rfl, rfl, .thenArm⟩
    | elseArm => exact ⟨_, _, rfl, rfl, .elseArm⟩
  | switch enter₀ arms _ =>
    rw [Flow.map, mapArms_eq] at h
    cases h with
    | caseArm h =>
      obtain ⟨⟨start, body₀, finish⟩, hmem, heq⟩ := List.mem_map.1 h
      obtain ⟨rfl, rfl, rfl⟩ : _ ∧ _ ∧ _ := by simpa using heq
      exact ⟨_, _, rfl, rfl, .caseArm hmem⟩
  | _ => rw [Flow.map] at h; cases h

/-- A path of a program is a path of the program with other notes. -/
theorem Runs.map {code : List (Flow α)} {path : List α} {e : Exit} (h : Runs code path e) :
    Runs (mapAll g code) (path.map g) e := by
  induction h with
  | stop => exact .stop
  | nil => rw [mapAll]; exact .nil
  | step _ ih => rw [mapAll, Flow.map]; exact .step ih
  | ret => rw [mapAll, Flow.map]; exact .ret
  | leave => rw [mapAll, Flow.map]; exact .leave
  | again => rw [mapAll, Flow.map]; exact .again
  | blockOut _ hrepeats hends ih =>
    rw [mapAll, Flow.map]
    exact .blockOut ih hrepeats hends
  | blockEnd _ hends _ ihbody ihrest =>
    rw [mapAll, Flow.map, List.map_cons, List.map_append]
    exact .blockEnd ihbody hends ihrest
  | blockAgain _ hrepeats _ ihbody ihrest =>
    rw [mapAll, Flow.map] at ihrest ⊢
    rw [List.map_cons, List.map_append]
    exact .blockAgain ihbody hrepeats ihrest
  | armOut harm _ hout ih =>
    rw [mapAll]
    exact .armOut harm.map ih hout
  | armEnd harm _ _ ihbody ihrest =>
    rw [mapAll, List.map_cons, List.map_append]
    exact .armEnd harm.map ihbody ihrest

/-- A path starts with the first note of the program. -/
theorem Runs.first_eq {f : Flow α} {a : α} {rest : List (Flow α)} {path : List α} {e : Exit}
    (h : Runs (f :: rest) (a :: path) e) : a = f.first := by
  cases h with
  | armOut harm | armEnd harm => exact harm.first_eq
  | _ => rfl

theorem mapAll_eq_cons {code : List (Flow α)} {f' : Flow β} {rest' : List (Flow β)}
    (h : mapAll g code = f' :: rest') :
    ∃ f rest, code = f :: rest ∧ f.map g = f' ∧ mapAll g rest = rest' := by
  cases code with
  | nil => simp [mapAll] at h
  | cons f rest =>
    rw [mapAll, List.cons.injEq] at h
    exact ⟨f, rest, rfl, h.1, h.2⟩

theorem map_eq_block {f : Flow α} {b : Block} {enter' exit' : β} {body' : List (Flow β)}
    (h : f.map g = .block b enter' body' exit') :
    ∃ enter body exit, f = .block b enter body exit ∧ g enter = enter' ∧ mapAll g body = body' := by
  cases f with
  | block b₀ enter body exit =>
    rw [Flow.map, Flow.block.injEq] at h
    obtain ⟨rfl, henter, hbody, -⟩ := h
    exact ⟨enter, body, exit, rfl, henter, hbody⟩
  | _ => simp [Flow.map] at h

/-- Every path of a program with exchanged notes comes from a path of the program. -/
theorem Runs.of_map {code : List (Flow α)} {path : List β} {e : Exit}
    (h : Runs (mapAll g code) path e) : ∃ path₀, path = path₀.map g ∧ Runs code path₀ e := by
  generalize hcode : mapAll g code = code' at h
  induction h generalizing code with
  | stop => exact ⟨[], rfl, .stop⟩
  | nil =>
    cases code with
    | nil => exact ⟨[], rfl, .nil⟩
    | cons f rest => simp [mapAll] at hcode
  | step _ ih =>
    obtain ⟨f, rest, rfl, hf, hrest⟩ := mapAll_eq_cons hcode
    obtain ⟨path₀, rfl, hrun⟩ := ih hrest
    cases f with
    | step a =>
      rw [Flow.map, Flow.step.injEq] at hf
      exact ⟨a :: path₀, by rw [List.map_cons, hf], .step hrun⟩
    | _ => simp [Flow.map] at hf
  | ret =>
    obtain ⟨f, rest, rfl, hf, -⟩ := mapAll_eq_cons hcode
    cases f with
    | ret a =>
      rw [Flow.map, Flow.ret.injEq] at hf
      exact ⟨[a], by rw [List.map_singleton, hf], .ret⟩
    | _ => simp [Flow.map] at hf
  | leave =>
    obtain ⟨f, rest, rfl, hf, -⟩ := mapAll_eq_cons hcode
    cases f with
    | leave a label =>
      rw [Flow.map, Flow.leave.injEq] at hf
      exact ⟨[a], by rw [List.map_singleton, hf.1], hf.2 ▸ .leave⟩
    | _ => simp [Flow.map] at hf
  | again =>
    obtain ⟨f, rest, rfl, hf, -⟩ := mapAll_eq_cons hcode
    cases f with
    | again a label =>
      rw [Flow.map, Flow.again.injEq] at hf
      exact ⟨[a], by rw [List.map_singleton, hf.1], hf.2 ▸ .again⟩
    | _ => simp [Flow.map] at hf
  | blockOut _ hrepeats hends ih =>
    obtain ⟨f, rest, rfl, hf, -⟩ := mapAll_eq_cons hcode
    obtain ⟨enter, body, exit, rfl, rfl, hbody⟩ := map_eq_block hf
    obtain ⟨path₀, rfl, hrun⟩ := ih hbody
    exact ⟨enter :: path₀, rfl, .blockOut hrun hrepeats hends⟩
  | blockEnd _ hends _ ihbody ihrest =>
    obtain ⟨f, rest, rfl, hf, hrest⟩ := mapAll_eq_cons hcode
    obtain ⟨enter, body, exit, rfl, rfl, hbody⟩ := map_eq_block hf
    obtain ⟨path₀, rfl, hrun⟩ := ihbody hbody
    obtain ⟨path₁, rfl, hrun'⟩ := ihrest hrest
    exact ⟨enter :: (path₀ ++ path₁), by simp, .blockEnd hrun hends hrun'⟩
  | blockAgain _ hrepeats _ ihbody ihrest =>
    -- the path from the second pass on enters the same block, so it starts with the same note
    obtain ⟨_ | ⟨enter₁, path₁⟩, hpath, hrun'⟩ := ihrest hcode
    · cases hpath
    obtain ⟨f, rest, rfl, hf, -⟩ := mapAll_eq_cons hcode
    obtain ⟨enter, body, exit, rfl, rfl, hbody⟩ := map_eq_block hf
    obtain ⟨path₀, rfl, hrun⟩ := ihbody hbody
    obtain rfl := hrun'.first_eq
    obtain ⟨-, rfl⟩ := List.cons.inj hpath
    exact ⟨enter₁ :: (path₀ ++ path₁), by simp, .blockAgain hrun hrepeats hrun'⟩
  | armOut harm _ hout ih =>
    obtain ⟨f, rest, rfl, rfl, -⟩ := mapAll_eq_cons hcode
    obtain ⟨enter, body, rfl, rfl, harm₀⟩ := harm.of_map
    obtain ⟨path₀, rfl, hrun⟩ := ih rfl
    exact ⟨enter :: path₀, rfl, .armOut harm₀ hrun hout⟩
  | armEnd harm _ _ ihbody ihrest =>
    obtain ⟨f, rest, rfl, rfl, hrest⟩ := mapAll_eq_cons hcode
    obtain ⟨enter, body, rfl, rfl, harm₀⟩ := harm.of_map
    obtain ⟨path₀, rfl, hrun⟩ := ihbody rfl
    obtain ⟨path₁, rfl, hrun'⟩ := ihrest hrest
    exact ⟨enter :: (path₀ ++ path₁), by simp, .armEnd harm₀ hrun hrun'⟩

end map

end Flow

/-! ### Bodies -/

mutual

/-- The flow of a statement whose first event has position `k`. -/
def Stmt.flow (k : Nat) : Stmt → Flow Nat
  | .effect _ | .edge _ => .step k
  | .ret _ => .ret k
  | .leave _ label => .leave k label
  | .again _ label => .again k label
  | .block b body => .block b k (bodyFlow (k + 1) body) (k + 1 + (bodyEvents body).length)
  | .branch _ thenBody elseBody =>
    let other := k + 1 + (bodyEvents thenBody).length
    .branch k (bodyFlow (k + 1) thenBody) other (bodyFlow (other + 1) elseBody)
      (other + 1 + (bodyEvents elseBody).length)
  | .switch node arms fallback =>
    let start := k + 1 + (armEvents node arms).length
    let finish := start + 1 + (bodyEvents fallback).length
    .switch k (armFlows (k + 1) arms ++ [(start, bodyFlow (start + 1) fallback, finish)])
      (finish + 1)

/-- The flow of a body whose first event has position `k`. -/
def bodyFlow (k : Nat) : List Stmt → List (Flow Nat)
  | [] => []
  | stmt :: rest => stmt.flow k :: bodyFlow (k + stmt.events.length) rest

/-- The flows of the keyed cases of a switch whose first event has position `k`. -/
def armFlows (k : Nat) : List (Int32 × List Stmt) → List (Nat × List (Flow Nat) × Nat)
  | [] => []
  | (_, body) :: rest =>
    let finish := k + 1 + (bodyEvents body).length
    (k, bodyFlow (k + 1) body, finish) :: armFlows (finish + 1) rest

end

/-- The positions of some events, the first of them being `k`. -/
def positions (k : Nat) (es : List Event) : List Nat :=
  List.range' k es.length

theorem positions_nil (k : Nat) : positions k [] = [] :=
  rfl

theorem positions_cons (k : Nat) (e : Event) (es : List Event) :
    positions k (e :: es) = k :: positions (k + 1) es := by
  rw [positions, List.length_cons, List.range'_succ, positions]

theorem positions_append (k : Nat) (xs ys : List Event) :
    positions k (xs ++ ys) = positions k xs ++ positions (k + xs.length) ys := by
  rw [positions, List.length_append, ← List.range'_append, Nat.one_mul, positions, positions]

theorem Flow.leavesArms_append {α : Type} (label : String) (xs ys : List (α × List (Flow α) × α)) :
    leavesArms label (xs ++ ys) = (leavesArms label xs || leavesArms label ys) := by
  induction xs with
  | nil => simp [leavesArms]
  | cons arm rest ih => simp [leavesArms, ih, Bool.or_assoc]

theorem Flow.notesArms_append {α : Type} (xs ys : List (α × List (Flow α) × α)) :
    notesArms (xs ++ ys) = notesArms xs ++ notesArms ys := by
  induction xs with
  | nil => simp [notesArms]
  | cons arm rest ih => simp [notesArms, ih]

mutual

/-- The notes of a statement are the positions of its events, in order. -/
theorem notes_flow (k : Nat) : ∀ stmt : Stmt, (stmt.flow k).notes = positions k stmt.events
  | .effect _ | .edge _ | .ret _ | .leave _ _ | .again _ _ => by
    simp [Stmt.flow, Flow.notes, Stmt.events, positions]
  | .block b body => by
    simp only [Stmt.flow, Flow.notes, notes_bodyFlow, Stmt.events, positions_cons,
      positions_append, positions_nil]
  | .branch node thenBody elseBody => by
    simp only [Stmt.flow, Flow.notes, notes_bodyFlow, Stmt.events, positions_cons,
      positions_append, positions_nil]
  | .switch node arms fallback => by
    simp only [Stmt.flow, Flow.notes, Flow.notesArms_append, Flow.notesArms, notes_bodyFlow,
      notes_armFlows node, Stmt.events, positions_cons, positions_append, positions_nil,
      List.append_assoc, List.cons_append, List.nil_append]

/-- The notes of a body are the positions of its events, in order. -/
theorem notes_bodyFlow (k : Nat) : ∀ body : List Stmt,
    Flow.notesAll (bodyFlow k body) = positions k (bodyEvents body)
  | [] => by rw [bodyFlow, Flow.notesAll, bodyEvents, positions_nil]
  | stmt :: rest => by
    rw [bodyFlow, Flow.notesAll, notes_flow k stmt, notes_bodyFlow _ rest, bodyEvents,
      positions_append]

theorem notes_armFlows (node : NodeId) (k : Nat) : ∀ arms : List (Int32 × List Stmt),
    Flow.notesArms (armFlows k arms) = positions k (armEvents node arms)
  | [] => by rw [armFlows, Flow.notesArms, armEvents, positions_nil]
  | (_, body) :: rest => by
    simp only [armFlows, Flow.notesArms, notes_bodyFlow, notes_armFlows node _ rest, armEvents,
      positions_cons, positions_append]

end

end KernelForge
