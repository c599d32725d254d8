import KernelForge.Proofs.Nesting
import KernelForge.Proofs.Pieces

/-!
# The emitted text as a structured program

The flow of a body with the piece of each event as its note is the emitted program: its pieces, one
after the other, are the text, and its brackets, jumps and labels stand where the flow says
(`shaped_code`). So the paths of the text are the paths of that flow.
-/

namespace KernelForge.Source

variable {cx : Context} {s s' : Emitter}

/-! ### Open blocks -/

/-- The block that an open construct is. -/
def Open.block? : Open → Option Block
  | .block b _ => some b
  | _ => none

/-- The open blocks, innermost first. -/
def openBlocks (os : List Open) : List Block :=
  os.filterMap Open.block?

/-- Note that a block is left by a jump if its label is one of some labels. -/
def Open.mark (p : String → Bool) : Open → Open
  | .block b used => .block b (used || p b.label)
  | o => o

theorem Open.mark_mark (p q : String → Bool) (o : Open) :
    (o.mark p).mark q = o.mark fun l => p l || q l := by
  cases o <;> simp [mark, Bool.or_assoc]

theorem map_mark_mark (p q : String → Bool) (os : List Open) :
    (os.map (Open.mark p)).map (Open.mark q) = os.map (Open.mark fun l => p l || q l) := by
  simp [Open.mark_mark]

theorem map_mark_false (os : List Open) : os.map (Open.mark fun _ => false) = os := by
  refine (List.map_congr_left fun o _ => ?_).trans (List.map_id os)
  cases o <;> simp [Open.mark]

theorem openBlocks_mark (p : String → Bool) (os : List Open) :
    openBlocks (os.map (Open.mark p)) = openBlocks os := by
  rw [openBlocks, List.filterMap_map]
  congr 1
  funext o
  cases o <;> rfl

/-- If no label is open twice, all blocks of the label are marked. -/
theorem markExit_eq {label : String} : ∀ {os : List Open},
    ((openBlocks os).map Block.label).Nodup → markExit label os = os.map (Open.mark (· == label))
  | [], _ => rfl
  | .block b used :: rest, hnodup => by
    obtain ⟨hb, hrest⟩ := List.nodup_cons.1 hnodup
    rw [markExit, List.map_cons, Open.mark]
    split_ifs with hlabel
    · have hother : rest.map (Open.mark (· == label)) = rest := by
        refine (List.map_congr_left fun o ho => ?_).trans (List.map_id rest)
        cases o with
        | block b' used' =>
          have hne : b'.label ≠ label := by
            rintro heq
            refine hb (List.mem_map.2 ⟨b', List.mem_filterMap.2 ⟨_, ho, rfl⟩, ?_⟩)
            rw [heq, eq_of_beq hlabel]
          simp [Open.mark, hne]
        | _ => rfl
      rw [hother, hlabel, Bool.or_true]
    · rw [markExit_eq hrest]
      simp [hlabel]
  | .branch _ _ :: rest, hnodup | .switch _ _ :: rest, hnodup | .case _ :: rest, hnodup => by
    have hnodup : ((openBlocks rest).map Block.label).Nodup := hnodup
    rw [markExit, List.map_cons, markExit_eq hnodup]
    · rfl
    · simp

theorem openBlocks_markExit (label : String) (os : List Open) :
    openBlocks (markExit label os) = openBlocks os := by
  induction os with
  | nil => rfl
  | cons o rest ih =>
    cases o with
    | block b used =>
      rw [markExit]
      split_ifs
      · rfl
      · exact congrArg (b :: ·) ih
    | _ => exact ih

theorem openBlocks_of_openedBy {e : Event} {os os' : List Open} (h : OpenedBy e os os') :
    (∃ b, e = .startBlock b ∧ openBlocks os' = b :: openBlocks os) ∨
      (openBlocks os').Sublist (openBlocks os) := by
  cases h with
  | @startBlock b os => exact .inl ⟨b, rfl, rfl⟩
  | leave =>
    rw [openBlocks_markExit]
    exact .inr (List.Sublist.refl _)
  | finishBlock => exact .inr (List.sublist_cons_self _ _)
  | _ => exact .inr (List.Sublist.refl _)

/-- No label is open twice. -/
theorem Reached.openBlocks {done rest : List Event} (h : Reached cx done rest s) :
    ((openBlocks s.opened).map Block.label).Nodup ∧
      (openBlocks s.opened).map Block.label ⊆ s.labels := by
  refine h.induct (motive := fun _ _ s => ((Source.openBlocks s.opened).map Block.label).Nodup ∧
    (Source.openBlocks s.opened).map Block.label ⊆ s.labels) ?_ ?_
  · rw [Emitter.opened_start]
    simp [Source.openBlocks]
  · rintro done rest e s s' - he ⟨hnodup, hsubset⟩
    have hframes := he.frames
    rw [hframes.labels]
    rcases openBlocks_of_openedBy hframes.opened with ⟨b, rfl, hblocks⟩ | hsub
    · have hfresh := hframes.fresh b.label rfl
      rw [hblocks, List.map_cons]
      exact ⟨List.nodup_cons.2 ⟨fun hmem => hfresh (hsubset hmem), hnodup⟩,
        List.cons_subset_cons _ hsubset⟩
    · have hsub := hsub.map Block.label
      exact ⟨hnodup.sublist hsub, fun l hl => List.mem_append_right _ (hsubset (hsub.subset hl))⟩

/-- The open constructs before and after each kind of event. -/
def Event.Opens (os os' : List Open) : Event → Prop
  | .startBlock b => os' = .block b false :: os
  | .finishBlock b => ∃ b' used, os = .block b' used :: os' ∧ b'.label = b.label
  | .startIf id => os' = .branch id false :: os
  | .startElse id => ∃ rest, os = .branch id false :: rest ∧ os' = .branch id true :: rest
  | .finishIf id => ∃ inElse, os = .branch id inElse :: os'
  | .startSwitch id => os' = .switch id false :: os
  | .startCase id key => ∃ hasDefault rest, os = .switch id hasDefault :: rest ∧
      os' = .case id :: .switch id (hasDefault || key.isNone) :: rest
  | .finishCase id => os = .case id :: os'
  | .finishSwitch id => ∃ hasDefault, os = .switch id hasDefault :: os'
  | .leave _ label => os' = markExit label os
  | .effect _ | .ret _ | .again _ _ | .edge _ => os' = os

theorem OpenedBy.opens {e : Event} {os os' : List Open} (h : OpenedBy e os os') :
    Event.Opens os os' e := by
  cases h with
  | finishBlock hlabel => exact ⟨_, _, rfl, hlabel⟩
  | startElse => exact ⟨_, rfl, rfl⟩
  | finishIf | finishSwitch => exact ⟨_, rfl⟩
  | startCase => exact ⟨_, _, rfl, rfl⟩
  | _ => rfl

/-- A block that can be left or started again is open. -/
theorem mem_openBlocks_of_openBlock? {label : String} {b : Block}
    (h : openBlock? s label = some b) : b ∈ openBlocks s.opened ∧ b.label = label := by
  obtain ⟨o, ho, hsome⟩ := List.exists_of_findSome?_eq_some h
  cases o with
  | block b' used =>
    simp only at hsome
    split_ifs at hsome with hlabel
    obtain rfl := Option.some.inj hsome
    exact ⟨List.mem_filterMap.2 ⟨_, ho, rfl⟩, eq_of_beq hlabel⟩
  | _ => cases hsome

theorem Emitted.leave_open {source : NodeId} {label : String}
    (h : Emitted cx (.leave source label) s s') : ∃ b ∈ openBlocks s.opened, b.label = label := by
  cases h with
  | leave hblock =>
    obtain ⟨b, hb⟩ := Option.ne_none_iff_exists'.1 hblock
    exact ⟨b, mem_openBlocks_of_openBlock? hb⟩

theorem Emitted.again_open {source : NodeId} {label : String}
    (h : Emitted cx (.again source label) s s') :
    ∃ b ∈ openBlocks s.opened, b.label = label ∧ b.isLoop = true := by
  cases h with
  | again hblock hloop =>
    obtain ⟨hb, hlabel⟩ := mem_openBlocks_of_openBlock? hblock
    exact ⟨_, hb, hlabel, hloop⟩

/-! ### Shapes -/

mutual

/-- The lines of a statement are laid out as they should be, inside the blocks `outer`: brackets match,
a jump lies in the block that it names, and the end of a block is marked if a jump leads there. -/
def Shaped (outer : List Block) : Flow (List Line) → Prop
  | .step lines => Straight lines
  | .ret lines => ∃ init value, Straight init ∧ lines = init ++ [.ret value]
  | .leave lines label => (∃ init, Straight init ∧ lines = init ++ [.gotoExit label]) ∧
      ∃ b ∈ outer, b.label = label
  | .again lines label => (∃ init, Straight init ∧ lines = init ++ [.gotoStart label]) ∧
      ∃ b ∈ outer, b.label = label ∧ b.isLoop = true
  | .block b enter body exit => (∃ init, Straight init ∧ enter = init ++ [.openBlock b]) ∧
      b.label ∉ outer.map Block.label ∧ ShapedAll (b :: outer) body ∧
      exit = .close :: if Flow.leavesAny b.label body then [.exitMark b.label] else []
  | .branch enter thenBody other elseBody exit =>
      (∃ init condition, Straight init ∧ enter = init ++ [.openIf condition]) ∧
      ShapedAll outer thenBody ∧ other = [.otherwise] ∧ ShapedAll outer elseBody ∧ exit = [.close]
  | .switch enter arms exit =>
      (∃ init value, Straight init ∧ enter = init ++ [.openSwitch value]) ∧
      ShapedArms outer arms ∧ (∃ arm ∈ arms, arm.1 = [.openCase none]) ∧ exit = [.close]

/-- The lines of a program are laid out as they should be. -/
def ShapedAll (outer : List Block) : List (Flow (List Line)) → Prop
  | [] => True
  | f :: rest => Shaped outer f ∧ ShapedAll outer rest

/-- The lines of the cases of a switch are laid out as they should be. -/
def ShapedArms (outer : List Block) :
    List (List Line × List (Flow (List Line)) × List Line) → Prop
  | [] => True
  | (start, body, finish) :: rest => (∃ key, start = [.openCase key]) ∧ ShapedAll outer body ∧
      finish = [.endCase, .close] ∧ ShapedArms outer rest

end

/-- The text of a program: its pieces, one after the other. -/
def layout (code : List (Flow (List Line))) : List Line :=
  (Flow.notesAll code).flatten

/-- The emitted program: the flow of the body, with the lines that each event writes. -/
def Context.code (cx : Context) : List (Flow (List Line)) :=
  Flow.mapAll cx.linesAt (bodyFlow 0 cx.method.body)

theorem shapedArms_append {outer : List Block}
    {xs ys : List (List Line × List (Flow (List Line)) × List Line)}
    (hxs : ShapedArms outer xs) (hys : ShapedArms outer ys) : ShapedArms outer (xs ++ ys) := by
  induction xs with
  | nil => exact hys
  | cons arm rest ih =>
    rw [ShapedArms] at hxs
    obtain ⟨hstart, hbody, hfinish, hrest⟩ := hxs
    rw [List.cons_append, ShapedArms]
    exact ⟨hstart, hbody, hfinish, ih hrest⟩

/-! ### The shape of the emitted program -/

/-- Some events of the body, the first of them at position `k`. -/
def Context.Stands (cx : Context) (k : Nat) (es : List Event) : Prop :=
  ∃ done rest, done.length = k ∧ done ++ (es ++ rest) = bodyEvents cx.method.body

namespace Context.Stands

variable {k : Nat} {e : Event} {es es' : List Event}

theorem tail (h : cx.Stands k (e :: es)) : cx.Stands (k + 1) es := by
  obtain ⟨done, rest, rfl, hevents⟩ := h
  exact ⟨done ++ [e], rest, by simp, by simpa using hevents⟩

theorem left (h : cx.Stands k (es ++ es')) : cx.Stands k es := by
  obtain ⟨done, rest, hk, hevents⟩ := h
  exact ⟨done, es' ++ rest, hk, by simpa using hevents⟩

theorem right (h : cx.Stands k (es ++ es')) : cx.Stands (k + es.length) es' := by
  obtain ⟨done, rest, rfl, hevents⟩ := h
  exact ⟨done ++ es, rest, by simp, by simpa using hevents⟩

end Context.Stands

/-- The event at a position: what it does, and what it writes. -/
theorem Reached.step_at (h : Reached cx (bodyEvents cx.method.body) [] s) {k : Nat} {e : Event}
    {es : List Event} (hstands : cx.Stands k (e :: es)) :
    Emitted cx e (cx.emitterAt k) (cx.emitterAt (k + 1)) ∧
      Event.Writes (cx.emitterAt k).opened e (cx.linesAt k) := by
  obtain ⟨done, rest, rfl, hevents⟩ := hstands
  exact ⟨h.emitted_at hevents, h.writes_at hevents⟩

theorem Reached.openBlocks_at (h : Reached cx (bodyEvents cx.method.body) [] s) {k : Nat}
    {es : List Event} (hstands : cx.Stands k es) :
    ((Source.openBlocks (cx.emitterAt k).opened).map Block.label).Nodup ∧
      (Source.openBlocks (cx.emitterAt k).opened).map Block.label ⊆ (cx.emitterAt k).labels := by
  obtain ⟨done, rest, rfl, hevents⟩ := hstands
  exact (h.at hevents).openBlocks

/-- A statement at position `k` is laid out as it should be, and it leaves the open constructs as they
were, up to the marks of the blocks that it leaves. -/
def Context.LaidOut (cx : Context) (k : Nat) (stmt : Stmt) : Prop :=
  Shaped (openBlocks (cx.emitterAt k).opened) ((stmt.flow k).map cx.linesAt) ∧
    (cx.emitterAt (k + stmt.events.length)).opened =
      (cx.emitterAt k).opened.map (Open.mark fun l => (stmt.flow k).leaves l)

/-- The same for a body. -/
def Context.LaidOutBody (cx : Context) (k : Nat) (body : List Stmt) : Prop :=
  ShapedAll (openBlocks (cx.emitterAt k).opened) (Flow.mapAll cx.linesAt (bodyFlow k body)) ∧
    (cx.emitterAt (k + (bodyEvents body).length)).opened =
      (cx.emitterAt k).opened.map (Open.mark fun l => Flow.leavesAny l (bodyFlow k body))

section constructs

variable {k : Nat} {node : NodeId} {body : List Stmt}

/-- A statement of one event that changes no mark. -/
theorem laidOut_of_same {stmt : Stmt} {e : Event} (hevents : stmt.events = [e])
    (hleaves : ∀ l, (stmt.flow k).leaves l = false)
    (hopened : (cx.emitterAt (k + 1)).opened = (cx.emitterAt k).opened)
    (hshaped : Shaped (openBlocks (cx.emitterAt k).opened) ((stmt.flow k).map cx.linesAt)) :
    cx.LaidOut k stmt := by
  refine ⟨hshaped, ?_⟩
  simp only [hevents, List.length_singleton, hopened, hleaves, map_mark_false]

/-- A block, around a body that is laid out. -/
theorem laidOut_block (h : Reached cx (bodyEvents cx.method.body) [] s) {b : Block}
    (hlaid : ∀ {k}, cx.Stands k (bodyEvents body) → cx.LaidOutBody k body)
    (hstands : cx.Stands k (Stmt.block b body).events) : cx.LaidOut k (.block b body) := by
  have hinner := hstands.tail
  obtain ⟨hstart, init, hinit, hlines⟩ := h.step_at hstands
  have hopened : (cx.emitterAt (k + 1)).opened = .block b false :: (cx.emitterAt k).opened :=
    hstart.frames.opened.opens
  have hfresh : b.label ∉ (openBlocks (cx.emitterAt k).opened).map Block.label := fun hmem =>
    hstart.frames.fresh b.label rfl ((h.openBlocks_at hstands).2 hmem)
  obtain ⟨hbody, hopened₁⟩ := hlaid hinner.left
  obtain ⟨hfinish, b', used, os, hos, hexit⟩ := h.step_at hinner.right
  obtain ⟨_, _, hopened₂, -⟩ := hfinish.frames.opened.opens
  rw [hopened] at hbody hopened₁
  rw [hopened₁, List.map_cons, Open.mark, Bool.false_or] at hos hopened₂
  obtain ⟨hmark, -⟩ := List.cons.inj hos
  obtain ⟨-, hrest⟩ := List.cons.inj hopened₂
  obtain ⟨-, rfl⟩ := Open.block.inj hmark
  simp only [Context.LaidOut, Stmt.events, Stmt.flow, Flow.map, Shaped, Flow.leaves,
    Flow.leavesAny_mapAll, List.length_cons, List.length_append, List.length_nil]
  refine ⟨⟨⟨init, Quiet.straight hinit, hlines⟩, hfresh, hbody, hexit⟩, ?_⟩
  rw [hrest]
  congr 2
  omega

/-- A branch, around two bodies that are laid out. -/
theorem laidOut_branch (h : Reached cx (bodyEvents cx.method.body) [] s)
    {thenBody elseBody : List Stmt}
    (hlaidThen : ∀ {k}, cx.Stands k (bodyEvents thenBody) → cx.LaidOutBody k thenBody)
    (hlaidElse : ∀ {k}, cx.Stands k (bodyEvents elseBody) → cx.LaidOutBody k elseBody)
    (hstands : cx.Stands k (Stmt.branch node thenBody elseBody).events) :
    cx.LaidOut k (.branch node thenBody elseBody) := by
  have hthen := hstands.tail
  have helse := hthen.right.tail
  obtain ⟨hstart, init, condition, hinit, hlines⟩ := h.step_at hstands
  have hopened : (cx.emitterAt (k + 1)).opened = .branch node false :: (cx.emitterAt k).opened :=
    hstart.frames.opened.opens
  obtain ⟨hthenBody, hopened₁⟩ := hlaidThen hthen.left
  obtain ⟨hother, hotherLines⟩ := h.step_at hthen.right
  obtain ⟨os, hos, hopened₂⟩ := hother.frames.opened.opens
  obtain ⟨helseBody, hopened₃⟩ := hlaidElse helse.left
  obtain ⟨hfinish, hexit⟩ := h.step_at helse.right
  obtain ⟨_, hopened₄⟩ := hfinish.frames.opened.opens
  rw [hopened] at hthenBody hopened₁
  rw [hopened₁] at hos
  obtain ⟨-, rfl⟩ := List.cons.inj hos
  rw [hopened₂] at helseBody hopened₃
  rw [hopened₃] at hopened₄
  obtain ⟨-, hrest⟩ := List.cons.inj hopened₄
  simp only [Context.LaidOut, Stmt.events, Stmt.flow, Flow.map, Shaped, Flow.leaves,
    List.length_cons, List.length_append, List.length_nil]
  refine ⟨⟨⟨init, condition, Quiet.straight hinit, hlines⟩, hthenBody, hotherLines, ?_, hexit⟩, ?_⟩
  · rw [← openBlocks_mark]
    exact helseBody
  · rw [← map_mark_mark, hrest]
    congr 2
    omega

/-- A case of a switch, keyed or not, around a body that is laid out. -/
theorem laidOut_case (h : Reached cx (bodyEvents cx.method.body) [] s) {key : Option Int32}
    {es : List Event} {hasDefault : Bool} {os : List Open}
    (hlaid : ∀ {k}, cx.Stands k (bodyEvents body) → cx.LaidOutBody k body)
    (hstands : cx.Stands k (.startCase node key :: (bodyEvents body ++ .finishCase node :: es)))
    (hopened : (cx.emitterAt k).opened = .switch node hasDefault :: os) :
    cx.linesAt k = [.openCase key] ∧
      ShapedAll (openBlocks os) (Flow.mapAll cx.linesAt (bodyFlow (k + 1) body)) ∧
      cx.linesAt (k + 1 + (bodyEvents body).length) = [.endCase, .close] ∧
      (cx.emitterAt (k + 1 + (bodyEvents body).length + 1)).opened =
        .switch node (hasDefault || key.isNone) ::
          os.map (Open.mark fun l => Flow.leavesAny l (bodyFlow (k + 1) body)) := by
  have hinner := hstands.tail
  obtain ⟨hstart, hlines⟩ := h.step_at hstands
  obtain ⟨_, _, hos, hopened₁⟩ := hstart.frames.opened.opens
  obtain ⟨hbody, hopened₂⟩ := hlaid hinner.left
  obtain ⟨hfinish, hfinishLines⟩ := h.step_at hinner.right
  have hopened₃ : (cx.emitterAt _).opened = .case node :: _ := hfinish.frames.opened.opens
  rw [hopened] at hos
  obtain ⟨hswitch, rfl⟩ := List.cons.inj hos
  obtain ⟨-, rfl⟩ := Open.switch.inj hswitch
  rw [hopened₁] at hbody hopened₂
  rw [hopened₂] at hopened₃
  obtain ⟨-, hopened₃⟩ := List.cons.inj hopened₃
  exact ⟨hlines, hbody, hfinishLines, hopened₃.symm⟩

/-- The keyed cases of a switch are laid out as they should be, and leave it open. -/
def Context.LaidOutArms (cx : Context) (node : NodeId) (arms : List (Int32 × List Stmt)) : Prop :=
  ∀ {k : Nat} {hasDefault : Bool} {os : List Open}, cx.Stands k (armEvents node arms) →
    (cx.emitterAt k).opened = .switch node hasDefault :: os →
    ShapedArms (openBlocks os) (Flow.mapArms cx.linesAt (armFlows k arms)) ∧
      (cx.emitterAt (k + (armEvents node arms).length)).opened =
        .switch node hasDefault :: os.map (Open.mark fun l => Flow.leavesArms l (armFlows k arms))

theorem laidOutArms_cons (h : Reached cx (bodyEvents cx.method.body) [] s) {key : Int32}
    {arms : List (Int32 × List Stmt)}
    (hlaid : ∀ {k}, cx.Stands k (bodyEvents body) → cx.LaidOutBody k body)
    (hlaidArms : cx.LaidOutArms node arms) : cx.LaidOutArms node ((key, body) :: arms) := by
  intro k hasDefault os hstands hopened
  obtain ⟨hstart, hbody, hfinish, hopened₁⟩ := laidOut_case h hlaid hstands hopened
  rw [Option.isNone_some, Bool.or_false] at hopened₁
  obtain ⟨harms, hopened₂⟩ := hlaidArms hstands.tail.right.tail hopened₁
  rw [openBlocks_mark] at harms
  rw [map_mark_mark] at hopened₂
  simp only [armFlows, Flow.mapArms, ShapedArms, armEvents, Flow.leavesArms, List.length_cons,
    List.length_append]
  refine ⟨⟨⟨some key, hstart⟩, hbody, hfinish, harms⟩, ?_⟩
  have hend : k + ((bodyEvents body).length + ((armEvents node arms).length + 1) + 1) =
      k + 1 + (bodyEvents body).length + 1 + (armEvents node arms).length := by omega
  rw [hend, hopened₂]

/-- A switch, around cases that are laid out. -/
theorem laidOut_switch (h : Reached cx (bodyEvents cx.method.body) [] s)
    {arms : List (Int32 × List Stmt)} {fallback : List Stmt} (hlaidArms : cx.LaidOutArms node arms)
    (hlaid : ∀ {k}, cx.Stands k (bodyEvents fallback) → cx.LaidOutBody k fallback)
    (hstands : cx.Stands k (Stmt.switch node arms fallback).events) :
    cx.LaidOut k (.switch node arms fallback) := by
  have hcases := hstands.tail
  obtain ⟨hstart, init, value, hinit, hlines⟩ := h.step_at hstands
  obtain ⟨harms, hopened₁⟩ := hlaidArms hcases.left hstart.frames.opened.opens
  obtain ⟨hcase, hbody, hend, hopened₂⟩ := laidOut_case h hlaid hcases.right hopened₁
  obtain ⟨hfinish, _, _, hswitch, hexit⟩ := h.step_at hcases.right.tail.right.tail
  obtain ⟨_, hopened₃⟩ := hfinish.frames.opened.opens
  rw [hopened₂] at hswitch hopened₃
  obtain ⟨hmark, -⟩ := List.cons.inj hswitch
  obtain ⟨-, hrest⟩ := List.cons.inj hopened₃
  obtain ⟨-, rfl⟩ := Open.switch.inj hmark
  rw [openBlocks_mark] at hbody
  simp only [Context.LaidOut, Stmt.events, Stmt.flow, Flow.map, Flow.mapArms_append, Shaped,
    Flow.leaves, Flow.leavesArms_append, Flow.leavesArms, Bool.or_false, List.length_cons,
    List.length_append, List.length_nil]
  refine ⟨⟨⟨init, value, Quiet.straight hinit, hlines⟩, shapedArms_append harms ?_, ?_, ?_⟩, ?_⟩
  · exact ⟨⟨none, hcase⟩, hbody, hend, trivial⟩
  · exact ⟨_, List.mem_append_right _ List.mem_cons_self, hcase⟩
  · simpa using hexit
  · rw [← map_mark_mark, hrest]
    congr 2
    omega

end constructs

mutual

theorem shaped_stmt (h : Reached cx (bodyEvents cx.method.body) [] s) : ∀ (stmt : Stmt) {k : Nat},
    cx.Stands k stmt.events → cx.LaidOut k stmt
  | .effect node, k, hstands => by
    obtain ⟨hemitted, hwrites⟩ := h.step_at hstands
    exact laidOut_of_same rfl (fun _ => rfl) hemitted.frames.opened.opens (Quiet.straight hwrites)
  | .edge source, k, hstands => by
    obtain ⟨hemitted, hwrites⟩ := h.step_at hstands
    exact laidOut_of_same rfl (fun _ => rfl) hemitted.frames.opened.opens hwrites
  | .ret node, k, hstands => by
    obtain ⟨hemitted, init, value, hinit, hlines⟩ := h.step_at hstands
    exact laidOut_of_same rfl (fun _ => rfl) hemitted.frames.opened.opens
      ⟨init, value, Quiet.straight hinit, hlines⟩
  | .again source label, k, hstands => by
    obtain ⟨hemitted, hwrites⟩ := h.step_at hstands
    exact laidOut_of_same rfl (fun _ => rfl) hemitted.frames.opened.opens
      ⟨hwrites, hemitted.again_open⟩
  | .leave source label, k, hstands => by
    obtain ⟨hemitted, hwrites⟩ := h.step_at hstands
    have hopened : (cx.emitterAt (k + 1)).opened = markExit label (cx.emitterAt k).opened :=
      hemitted.frames.opened.opens
    simp only [Context.LaidOut, Stmt.events, Stmt.flow, Flow.map, Shaped, Flow.leaves]
    refine ⟨⟨hwrites, hemitted.leave_open⟩, ?_⟩
    rw [List.length_singleton, hopened, markExit_eq (h.openBlocks_at hstands).1]
  | .block b body, k, hstands => laidOut_block h (shaped_body h body) hstands
  | .branch node thenBody elseBody, k, hstands =>
    laidOut_branch h (shaped_body h thenBody) (shaped_body h elseBody) hstands
  | .switch node arms fallback, k, hstands =>
    laidOut_switch h (shaped_arms h node arms) (shaped_body h fallback) hstands

theorem shaped_body (h : Reached cx (bodyEvents cx.method.body) [] s) :
    ∀ (body : List Stmt) {k : Nat}, cx.Stands k (bodyEvents body) → cx.LaidOutBody k body
  | [], k, hstands => by
    simp only [Context.LaidOutBody, bodyFlow, Flow.mapAll, ShapedAll, bodyEvents, Flow.leavesAny,
      map_mark_false]
    exact ⟨trivial, rfl⟩
  | stmt :: body, k, hstands => by
    rw [bodyEvents] at hstands
    obtain ⟨hstmt, hopened⟩ := shaped_stmt h stmt hstands.left
    obtain ⟨hbody, hopened'⟩ := shaped_body h body hstands.right
    rw [hopened, openBlocks_mark] at hbody
    rw [hopened, map_mark_mark] at hopened'
    simp only [Context.LaidOutBody, bodyFlow, Flow.mapAll, ShapedAll, bodyEvents, Flow.leavesAny,
      List.length_append, ← Nat.add_assoc]
    exact ⟨⟨hstmt, hbody⟩, hopened'⟩

theorem shaped_arms (h : Reached cx (bodyEvents cx.method.body) [] s) (node : NodeId) :
    ∀ arms : List (Int32 × List Stmt), cx.LaidOutArms node arms
  | [] => by
    intro _ hopened
    simp only [armFlows, Flow.mapArms, ShapedArms, armEvents, Flow.leavesArms, map_mark_false]
    exact ⟨trivial, hopened⟩
  | (_, body) :: arms => laidOutArms_cons h (shaped_body h body) (shaped_arms h node arms)

end

/-- The emitted program is laid out as it should be. -/
theorem shaped_code (h : Reached cx (bodyEvents cx.method.body) [] s) : ShapedAll [] cx.code := by
  have hstands : cx.Stands 0 (bodyEvents cx.method.body) := ⟨[], [], rfl, by simp⟩
  have hstart : cx.emitterAt 0 = Emitter.start cx := rfl
  obtain ⟨hshaped, -⟩ := shaped_body h cx.method.body hstands
  rwa [hstart, Emitter.opened_start] at hshaped

/-- The text of the emitted program is what was written. -/
theorem layout_code (h : Reached cx (bodyEvents cx.method.body) [] s) :
    layout cx.code = s.lines := by
  rw [layout, Context.code, Flow.notesAll_mapAll, notes_bodyFlow, h.lines_eq, List.flatMap_def]

end KernelForge.Source
