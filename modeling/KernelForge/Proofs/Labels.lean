import KernelForge.Proofs.Layout

/-!
# Labels and jumps of the text

A block marks its start, and the place after it if a jump leads there. The emitter refuses two blocks of
one label, so no place is marked twice, and every jump of the text leads to a place that its own block
marks. The text names places by identifiers, which need not keep different labels apart: the names are
unique exactly if the labels of the body are (`LabelsApart`).
-/

namespace KernelForge.Source

variable {cx : Context} {s s' : Emitter}

/-! ### Places -/

/-- A place that jumps lead to: the start of a block or the place after it. -/
inductive Mark
  | start (label : String)
  | exit (label : String)
deriving DecidableEq

namespace Mark

/-- The label of the block that a place belongs to. -/
def label : Mark → String
  | start label | exit label => label

/-- The name of a place in the text. -/
def text : Mark → String
  | start label => startLabel label
  | exit label => exitLabel label

/-- The line that marks a place of a block. -/
def line (b : Block) : Mark → Line
  | start _ => .openBlock b
  | exit _ => .exitMark b.label

end Mark

namespace Line

/-- The place that a line marks. -/
def mark? : Line → Option Mark
  | .openBlock b => some (.start b.label)
  | .exitMark label => some (.exit label)
  | _ => none

/-- The place that a line jumps to. -/
def target? : Line → Option Mark
  | .gotoStart label => some (.start label)
  | .gotoExit label => some (.exit label)
  | _ => none

theorem render_of_mark? {l : Line} {m : Mark} (h : l.mark? = some m) :
    ∃ tail, l.render = m.text ++ ": " ++ tail := by
  cases l with
  | openBlock b =>
    obtain rfl := Option.some.inj h
    obtain ⟨label, _ | _⟩ := b
    · exact ⟨"\x7b", by rw [String.append_assoc]; rfl⟩
    · exact ⟨"while (true) \x7b", by rw [String.append_assoc]; rfl⟩
  | exitMark label =>
    obtain rfl := Option.some.inj h
    exact ⟨";", by rw [String.append_assoc]; rfl⟩
  | _ => cases h

theorem render_of_target? {l : Line} {m : Mark} (h : l.target? = some m) :
    l.render = "goto " ++ m.text ++ ";" := by
  cases l with
  | gotoStart | gotoExit =>
    obtain rfl := Option.some.inj h
    rfl
  | _ => cases h

end Line

/-- The place that a statement jumps to. -/
def targetOf : Event → Option Mark
  | .leave _ label => some (.exit label)
  | .again _ label => some (.start label)
  | _ => none

/-- The label of the block that a statement leaves. -/
def leftLabel? : Event → Option String
  | .leave _ label => some label
  | _ => none

/-- The places that an event marks while the constructs `os` are open. -/
def marksOf (os : List Open) : Event → List Mark
  | .startBlock b => [.start b.label]
  | .finishBlock b =>
    match os with
    | .block _ true :: _ => [.exit b.label]
    | _ => []
  | _ => []

theorem places_of_straight {lines : List Line} (h : Straight lines) :
    lines.filterMap Line.mark? = [] ∧ lines.filterMap Line.target? = [] := by
  have hnone : ∀ l ∈ lines, l.mark? = none ∧ l.target? = none := by
    intro l hl
    have hstraight := h l hl
    cases l <;> first | exact ⟨rfl, rfl⟩ | cases hstraight
  exact ⟨List.filterMap_eq_nil_iff.2 fun l hl => (hnone l hl).1,
    List.filterMap_eq_nil_iff.2 fun l hl => (hnone l hl).2⟩

/-- The places that the lines of an event mark, and those that they jump to. -/
theorem Event.Writes.places {os : List Open} {e : Event} {lines : List Line}
    (h : Event.Writes os e lines) : lines.filterMap Line.mark? = marksOf os e ∧
      lines.filterMap Line.target? = (targetOf e).toList := by
  -- a line after straight ones stands for itself
  have hlast : ∀ {init : List Line} (l : Line), Straight init →
      (init ++ [l]).filterMap Line.mark? = l.mark?.toList ∧
        (init ++ [l]).filterMap Line.target? = l.target?.toList := by
    intro init l hinit
    obtain ⟨hmarks, htargets⟩ := places_of_straight hinit
    rw [List.filterMap_append, List.filterMap_append, hmarks, htargets, List.nil_append,
      List.nil_append]
    constructor
    · cases hmark : l.mark? <;> simp [hmark]
    · cases htarget : l.target? <;> simp [htarget]
  cases e with
  | effect => exact places_of_straight (Quiet.straight h)
  | edge => exact places_of_straight h
  | ret | startIf | startSwitch =>
    obtain ⟨init, _, hinit, rfl⟩ := h
    exact hlast _ (Quiet.straight hinit)
  | startBlock =>
    obtain ⟨init, hinit, rfl⟩ := h
    exact hlast _ (Quiet.straight hinit)
  | leave | again =>
    obtain ⟨init, hinit, rfl⟩ := h
    exact hlast _ hinit
  | finishBlock =>
    obtain ⟨_, used, _, rfl, rfl⟩ := h
    cases used <;> exact ⟨rfl, rfl⟩
  | finishSwitch =>
    obtain ⟨hasDefault, _, _, rfl⟩ := h
    cases hasDefault <;> exact ⟨rfl, rfl⟩
  | startElse | finishIf | startCase | finishCase =>
    obtain rfl := h
    exact ⟨rfl, rfl⟩

theorem Event.Writes.marks {os : List Open} {e : Event} {lines : List Line}
    (h : Event.Writes os e lines) : lines.filterMap Line.mark? = marksOf os e :=
  h.places.1

theorem Event.Writes.targets {os : List Open} {e : Event} {lines : List Line}
    (h : Event.Writes os e lines) : lines.filterMap Line.target? = (targetOf e).toList :=
  h.places.2

/-! ### Marked places along a replay -/

/-- The places that the lines written so far mark. -/
def Emitter.marks (s : Emitter) : List Mark :=
  s.lines.filterMap Line.mark?

theorem mem_openBlocks {os : List Open} {b : Block} :
    b ∈ openBlocks os ↔ ∃ used, .block b used ∈ os := by
  rw [openBlocks, List.mem_filterMap]
  constructor
  · rintro ⟨o, ho, hb⟩
    cases o with
    | block b' used =>
      obtain rfl := Option.some.inj hb
      exact ⟨used, ho⟩
    | _ => cases hb
  · rintro ⟨used, hb⟩
    exact ⟨_, hb, rfl⟩

/-- What is marked after some events: the starts of all blocks, and the places after those that are
closed and were left by a jump. An open block remembers whether it was left. -/
structure Marked (done : List Event) (s : Emitter) : Prop where
  nodup : s.marks.Nodup
  starts : ∀ {label}, .start label ∈ s.marks ↔ label ∈ s.labels
  closed : ∀ {label}, .exit label ∈ s.marks →
    label ∈ s.labels ∧ label ∉ (openBlocks s.opened).map Block.label
  left : ∀ {label}, label ∈ done.filterMap leftLabel? ↔
    .exit label ∈ s.marks ∨ ∃ b, .block b true ∈ s.opened ∧ b.label = label
  opens : ∀ b ∈ openBlocks s.opened, .openBlock b ∈ s.lines

theorem marked_start : Marked [] (Emitter.start cx) := by
  have hmarks : (Emitter.start cx).marks = [] := by
    rw [Emitter.marks, Emitter.lines_start]
    rfl
  refine ⟨?_, ?_, ?_, ?_, ?_⟩
  · rw [hmarks]
    exact List.nodup_nil
  all_goals simp [hmarks, Emitter.labels_start, Emitter.opened_start, openBlocks]

namespace Marked

variable {done rest : List Event} {e : Event}

theorem mem_left_concat {label : String} :
    label ∈ (done ++ [e]).filterMap leftLabel? ↔
      label ∈ done.filterMap leftLabel? ∨ leftLabel? e = some label := by
  simp [List.mem_filterMap]

theorem lines_subset (h : Emitted cx e s s') : s.lines ⊆ s'.lines := by
  obtain ⟨new, hlines, -⟩ := h.writes
  rw [hlines]
  exact List.subset_append_left _ _

theorem marks_eq (h : Emitted cx e s s') : s'.marks = s.marks ++ marksOf s.opened e := by
  obtain ⟨new, hlines, hwrites⟩ := h.writes
  rw [Emitter.marks, hlines, List.filterMap_append, hwrites.marks, Emitter.marks]

/-- An event that opens, closes and leaves no block. -/
theorem plain (hs : Marked done s) (h : Emitted cx e s s') (hmarks : marksOf s.opened e = [])
    (hlabel : e.label? = none) (hleft : leftLabel? e = none)
    (hblocks : ∀ {b used}, .block b used ∈ s'.opened ↔ .block b used ∈ s.opened) :
    Marked (done ++ [e]) s' := by
  have hsame : s'.marks = s.marks := by rw [marks_eq h, hmarks, List.append_nil]
  have hlabels : s'.labels = s.labels := by rw [h.frames.labels, hlabel]; rfl
  have hopen : ∀ {b}, b ∈ openBlocks s'.opened ↔ b ∈ openBlocks s.opened := by
    intro b
    rw [mem_openBlocks, mem_openBlocks]
    exact exists_congr fun _ => hblocks
  refine ⟨hsame ▸ hs.nodup, ?_, ?_, ?_, fun b hb => lines_subset h (hs.opens b (hopen.1 hb))⟩
  · intro label
    rw [hsame, hlabels, hs.starts]
  · intro label hlabel
    rw [hsame] at hlabel
    refine ⟨hlabels ▸ (hs.closed hlabel).1, fun hmem => (hs.closed hlabel).2 ?_⟩
    obtain ⟨b, hb, rfl⟩ := List.mem_map.1 hmem
    exact List.mem_map_of_mem (hopen.1 hb)
  · intro label
    rw [mem_left_concat, hleft, hs.left, hsame]
    simp only [hblocks, reduceCtorEq, or_false]

theorem startBlock {b : Block} (hs : Marked done s) (h : Emitted cx (.startBlock b) s s') :
    Marked (done ++ [.startBlock b]) s' := by
  have hframes := h.frames
  have hmarks : s'.marks = s.marks ++ [.start b.label] := marks_eq h
  have hlabels : s'.labels = b.label :: s.labels := hframes.labels
  have hopened : s'.opened = .block b false :: s.opened := hframes.opened.opens
  have hfresh : b.label ∉ s.labels := hframes.fresh b.label rfl
  refine ⟨?_, ?_, ?_, ?_, ?_⟩
  · rw [hmarks, List.nodup_append]
    refine ⟨hs.nodup, List.nodup_singleton _, fun m hm m' hm' heq => hfresh ?_⟩
    rw [List.mem_singleton.1 hm'] at heq
    exact hs.starts.1 (heq ▸ hm)
  · intro label
    rw [hmarks, hlabels, List.mem_append, List.mem_singleton, hs.starts, List.mem_cons,
      Mark.start.injEq, or_comm]
  · intro label hlabel
    have hold : .exit label ∈ s.marks := by simpa [hmarks] using hlabel
    obtain ⟨hmem, hclosed⟩ := hs.closed hold
    rw [hlabels, hopened]
    refine ⟨List.mem_cons_of_mem _ hmem, fun hopen => ?_⟩
    rcases List.mem_cons.1 hopen with rfl | hopen
    · exact hfresh hmem
    · exact hclosed hopen
  · intro label
    rw [mem_left_concat, hs.left, hmarks, hopened]
    simp [leftLabel?]
  · intro b' hb'
    rw [hopened] at hb'
    rcases List.mem_cons.1 hb' with rfl | hb'
    · obtain ⟨new, hlines, init, -, rfl⟩ := h.writes
      rw [hlines]
      simp
    · exact lines_subset h (hs.opens b' hb')

theorem finishBlock {b : Block} (hs : Marked done s)
    (hblocks : ((openBlocks s.opened).map Block.label).Nodup)
    (hsubset : (openBlocks s.opened).map Block.label ⊆ s.labels)
    (h : Emitted cx (.finishBlock b) s s') : Marked (done ++ [.finishBlock b]) s' := by
  have hframes := h.frames
  have hlabels : s'.labels = s.labels := hframes.labels
  obtain ⟨b', used, hopened, hlabel⟩ := hframes.opened.opens
  have hmarks : s'.marks = s.marks ++ if used then [.exit b.label] else [] := by
    rw [marks_eq h, hopened]
    cases used <;> rfl
  have hexit : ∀ {label}, .exit label ∈ s'.marks ↔
      .exit label ∈ s.marks ∨ used = true ∧ b'.label = label := by
    intro label
    rw [hmarks, List.mem_append, hlabel]
    cases used <;> simp [eq_comm]
  rw [hopened] at hblocks hsubset
  obtain ⟨hfresh, -⟩ := List.nodup_cons.1 hblocks
  have hopen : .exit b'.label ∉ s.marks := fun hmem =>
    (hs.closed hmem).2 (by rw [hopened]; exact List.mem_cons_self)
  refine ⟨?_, ?_, ?_, ?_, ?_⟩
  · rw [hmarks, List.nodup_append]
    refine ⟨hs.nodup, by cases used <;> simp, fun m hm m' hm' heq => hopen ?_⟩
    cases used with
    | true =>
      rw [List.mem_singleton.1 hm', ← hlabel] at heq
      exact heq ▸ hm
    | false => cases hm'
  · intro label
    rw [hmarks, hlabels, List.mem_append, hs.starts]
    cases used <;> simp
  · intro label hmem
    rw [hlabels]
    rcases hexit.1 hmem with hmem | ⟨-, rfl⟩
    · obtain ⟨hin, hclosed⟩ := hs.closed hmem
      refine ⟨hin, fun hmem' => hclosed ?_⟩
      rw [hopened]
      exact List.mem_cons_of_mem _ hmem'
    · exact ⟨hsubset List.mem_cons_self, hfresh⟩
  · intro label
    have hnone : ¬ leftLabel? (.finishBlock b) = some label := by simp [leftLabel?]
    rw [mem_left_concat, or_iff_left hnone, hs.left, hexit, hopened, or_assoc]
    refine or_congr_right ⟨?_, ?_⟩
    · rintro ⟨b₀, hb₀, rfl⟩
      rcases List.mem_cons.1 hb₀ with heq | hb₀
      · obtain ⟨rfl, rfl⟩ := Open.block.inj heq
        exact .inl ⟨rfl, rfl⟩
      · exact .inr ⟨b₀, hb₀, rfl⟩
    · rintro (⟨rfl, rfl⟩ | ⟨b₀, hb₀, rfl⟩)
      · exact ⟨b', List.mem_cons_self, rfl⟩
      · exact ⟨b₀, List.mem_cons_of_mem _ hb₀, rfl⟩
  · intro b₀ hb₀
    refine lines_subset h (hs.opens b₀ ?_)
    rw [hopened]
    exact List.mem_cons_of_mem _ hb₀

theorem leave {source : NodeId} {label : String} (hs : Marked done s)
    (hblocks : ((openBlocks s.opened).map Block.label).Nodup)
    (h : Emitted cx (.leave source label) s s') : Marked (done ++ [.leave source label]) s' := by
  have hframes := h.frames
  have hlabels : s'.labels = s.labels := hframes.labels
  have hmarks : s'.marks = s.marks := (marks_eq h).trans (List.append_nil _)
  have hopened : s'.opened = s.opened.map (Open.mark (· == label)) := by
    rw [show s'.opened = markExit label s.opened from hframes.opened.opens, markExit_eq hblocks]
  have hopen : openBlocks s'.opened = openBlocks s.opened := by rw [hopened, openBlocks_mark]
  refine ⟨hmarks ▸ hs.nodup, ?_, ?_, ?_, ?_⟩
  · intro label
    rw [hmarks, hlabels, hs.starts]
  · intro label hmem
    rw [hmarks] at hmem
    rw [hlabels, hopen]
    exact hs.closed hmem
  · intro other
    rw [mem_left_concat, hs.left, hmarks, hopened, or_assoc, leftLabel?, Option.some.injEq]
    refine or_congr_right ⟨?_, ?_⟩
    · rintro (⟨b, hb, rfl⟩ | rfl)
      · exact ⟨b, List.mem_map.2 ⟨_, hb, by simp [Open.mark]⟩, rfl⟩
      · obtain ⟨b, hb, rfl⟩ := h.leave_open
        obtain ⟨used, hused⟩ := mem_openBlocks.1 hb
        exact ⟨b, List.mem_map.2 ⟨_, hused, by simp [Open.mark]⟩, rfl⟩
    · rintro ⟨b, hb, rfl⟩
      obtain ⟨o, ho, heq⟩ := List.mem_map.1 hb
      cases o with
      | block b' used =>
        obtain ⟨rfl, hused⟩ := Open.block.inj heq
        rcases Bool.or_eq_true_iff.1 hused with rfl | hlabel
        · exact .inl ⟨b', ho, rfl⟩
        · exact .inr (eq_of_beq hlabel).symm
      | _ => cases heq
  · intro b hb
    rw [hopen] at hb
    exact lines_subset h (hs.opens b hb)

end Marked

theorem Reached.marked {done rest : List Event} (h : Reached cx done rest s) :
    Marked done s := by
  refine h.induct (motive := fun done _ s => Marked done s) marked_start ?_
  intro done rest e s s' hreached hevent hs
  obtain ⟨hnodup, hsubset⟩ := hreached.openBlocks
  have hopens := hevent.frames.opened.opens
  cases e with
  | startBlock => exact hs.startBlock hevent
  | finishBlock => exact hs.finishBlock hnodup hsubset hevent
  | leave => exact hs.leave hnodup hevent
  | effect | ret | again | edge =>
    refine hs.plain hevent rfl rfl rfl ?_
    rw [show s'.opened = s.opened from hopens]
  | startIf | startSwitch =>
    refine hs.plain hevent rfl rfl rfl ?_
    rw [show s'.opened = _ :: s.opened from hopens]
    simp
  | finishIf | finishSwitch =>
    refine hs.plain hevent rfl rfl rfl ?_
    obtain ⟨_, hopened⟩ := hopens
    rw [hopened]
    simp
  | finishCase id =>
    refine hs.plain hevent rfl rfl rfl ?_
    rw [show s.opened = .case id :: s'.opened from hopens]
    simp
  | startElse =>
    refine hs.plain hevent rfl rfl rfl ?_
    obtain ⟨_, hopened, hopened'⟩ := hopens
    rw [hopened, hopened']
    simp
  | startCase =>
    refine hs.plain hevent rfl rfl rfl ?_
    obtain ⟨_, _, hopened, hopened'⟩ := hopens
    rw [hopened, hopened']
    simp

/-! ### The finished text -/

/-- The labels that are defined in a text. -/
def labelsIn (lines : List Line) : List String :=
  (lines.filterMap Line.mark?).map Mark.text

/-- The labels of the blocks of a body. -/
def blockLabels (body : List Stmt) : List String :=
  (bodyEvents body).filterMap Event.label?

/-- The labels of the blocks of a body that some statement leaves. -/
def leftLabels (body : List Stmt) : List String :=
  (bodyEvents body).filterMap leftLabel?

/-- The names of places keep the labels of a body apart: no two labels have one identifier, and no
identifier is the name of the place after a block that is left. -/
structure LabelsApart (body : List Stmt) : Prop where
  starts : ∀ label ∈ blockLabels body, ∀ other ∈ blockLabels body,
    startLabel label = startLabel other → label = other
  exits : ∀ label ∈ blockLabels body, ∀ other ∈ leftLabels body, startLabel label ≠ exitLabel other

theorem startLabel_eq_of_exitLabel_eq {label other : String}
    (h : exitLabel label = exitLabel other) : startLabel label = startLabel other := by
  have htext : (startLabel label ++ "_exit").toList = (startLabel other ++ "_exit").toList :=
    congrArg String.toList h
  rw [String.toList_append, String.toList_append] at htext
  exact String.toList_inj.1 (List.append_cancel_right htext)

section finished

variable (h : Reached cx (bodyEvents cx.method.body) [] s) (hopened : s.opened = [])

include h

theorem Reached.mem_labels {label : String} :
    label ∈ s.labels ↔ label ∈ blockLabels cx.method.body := by
  rw [h.labels.1, List.mem_reverse]
  rfl

include hopened

theorem Reached.exit_mem_marks {label : String} :
    .exit label ∈ s.marks ↔ label ∈ leftLabels cx.method.body := by
  rw [leftLabels, h.marked.left, hopened]
  simp

/-- The labels of a text are unique exactly if the labels of the body are kept apart. -/
theorem Reached.nodup_labelsIn_iff :
    (labelsIn s.lines).Nodup ↔ LabelsApart cx.method.body := by
  have hmarks : s.lines.filterMap Line.mark? = s.marks := rfl
  have hmarked := h.marked
  have hstart : ∀ {label}, .start label ∈ s.marks ↔ label ∈ blockLabels cx.method.body :=
    hmarked.starts.trans h.mem_labels
  rw [labelsIn, hmarks, List.nodup_map_iff_inj_on hmarked.nodup]
  constructor
  · intro hinj
    refine ⟨fun label hlabel other hother heq => ?_, fun label hlabel other hother heq => ?_⟩
    · exact Mark.start.inj (hinj _ (hstart.2 hlabel) _ (hstart.2 hother) heq)
    · cases hinj _ (hstart.2 hlabel) _ ((h.exit_mem_marks hopened).2 hother) heq
  · intro hapart m hm m' hm' heq
    cases m with
    | start label =>
      have hlabel := hstart.1 hm
      cases m' with
      | start other => rw [hapart.starts label hlabel other (hstart.1 hm') heq]
      | exit other =>
        exact absurd heq (hapart.exits label hlabel other ((h.exit_mem_marks hopened).1 hm'))
    | exit label =>
      have hlabel := (h.exit_mem_marks hopened).1 hm
      cases m' with
      | start other => exact absurd heq.symm (hapart.exits other (hstart.1 hm') label hlabel)
      | exit other =>
        have hin := h.mem_labels.1 (hmarked.closed hm).1
        have hother := h.mem_labels.1 (hmarked.closed hm').1
        rw [hapart.starts label hin other hother (startLabel_eq_of_exitLabel_eq heq)]

/-- A jump leads to a place that its block marks. -/
theorem Reached.line_mem_of_target {done rest : List Event} {e : Event} {m : Mark}
    (hevents : done ++ e :: rest = bodyEvents cx.method.body) (htarget : targetOf e = some m) :
    ∃ b ∈ Source.openBlocks (cx.emitterAt done.length).opened,
      b.label = m.label ∧ m.line b ∈ s.lines := by
  have hemitted := h.emitted_at hevents
  cases e with
  | leave source label =>
    obtain rfl := Option.some.inj htarget
    obtain ⟨b, hb, rfl⟩ := hemitted.leave_open
    refine ⟨b, hb, rfl, ?_⟩
    have hleft : b.label ∈ leftLabels cx.method.body := by
      rw [leftLabels, ← hevents]
      simp [leftLabel?]
    obtain ⟨l, hl, hmark⟩ := List.mem_filterMap.1 ((h.exit_mem_marks hopened).2 hleft)
    cases l with
    | exitMark label =>
      obtain rfl := Mark.exit.inj (Option.some.inj hmark)
      exact hl
    | openBlock => cases hmark
    | _ => cases hmark
  | again source label =>
    obtain rfl := Option.some.inj htarget
    obtain ⟨b, hb, rfl, -⟩ := hemitted.again_open
    refine ⟨b, hb, rfl, ?_⟩
    have hline := (h.at hevents).marked.opens b hb
    rw [h.lines_at hevents] at hline
    rw [h.lines_eq, ← hevents, positions_append, List.flatMap_append]
    exact List.mem_append_left _ hline
  | _ => cases htarget

end finished

theorem mark?_line (b : Block) {m : Mark} (h : b.label = m.label) : (m.line b).mark? = some m := by
  cases m with
  | start | exit =>
    obtain rfl := h
    rfl

/-- The jumps of a text are those of the statements, in order. -/
theorem Reached.targets {done rest : List Event} (h : Reached cx done rest s) :
    s.lines.filterMap Line.target? = done.filterMap targetOf := by
  refine h.induct (motive := fun done _ s =>
    s.lines.filterMap Line.target? = done.filterMap targetOf) ?_ ?_
  · rw [Emitter.lines_start]
    rfl
  · intro done rest e s s' _ hevent ih
    obtain ⟨new, hlines, hwrites⟩ := hevent.writes
    rw [hlines, List.filterMap_append, ih, hwrites.targets, List.filterMap_append]
    cases htarget : targetOf e <;> simp [htarget]

/-- The labels of a finished text are unique exactly if those of the body are kept apart. Every jump
of the text is that of a statement; it names a place that the block of the statement marks, and no
other line defines that name if the labels are kept apart. -/
theorem jumps_resolve {out : List String × String} (h : emitBody cx = .ok out) :
    ∃ s, Reached cx (bodyEvents cx.method.body) [] s ∧ out.2 = s.text ∧
      ((labelsIn s.lines).Nodup ↔ LabelsApart cx.method.body) ∧
      s.lines.filterMap Line.target? = (bodyEvents cx.method.body).filterMap targetOf ∧
      (∀ {done rest e m}, done ++ e :: rest = bodyEvents cx.method.body → targetOf e = some m →
        (cx.linesAt done.length).filterMap Line.target? = [m] ∧
        (∃ b ∈ openBlocks (cx.emitterAt done.length).opened,
          b.label = m.label ∧ m.line b ∈ s.lines) ∧
        (LabelsApart cx.method.body → (labelsIn s.lines).count m.text = 1)) ∧
      ∀ l ∈ s.lines, ∀ m,
        (l.mark? = some m → ∃ tail, l.render = m.text ++ ": " ++ tail) ∧
        (l.target? = some m → l.render = "goto " ++ m.text ++ ";") := by
  obtain ⟨s, hs, hfinish⟩ := reached_of_emitBody h
  obtain ⟨hopened, htext⟩ := finish_ok hfinish
  have hunique := hs.nodup_labelsIn_iff hopened
  refine ⟨s, hs, htext, hunique, hs.targets, ?_,
    fun l _ m => ⟨Line.render_of_mark?, Line.render_of_target?⟩⟩
  intro done rest e m hevents htarget
  obtain ⟨b, hb, hlabel, hline⟩ := hs.line_mem_of_target hopened hevents htarget
  refine ⟨?_, ⟨b, hb, hlabel, hline⟩, fun hapart => ?_⟩
  · rw [(hs.writes_at hevents).targets, htarget]
    rfl
  · refine List.count_eq_one_of_mem (hunique.2 hapart) (List.mem_map_of_mem ?_)
    exact List.mem_filterMap.2 ⟨_, hline, mark?_line b hlabel⟩

/-- A loop inside a block, both left from a branch in the loop, whose labels are no identifiers. -/
def leftTwice : Context where
  cls := { name := ⟨"Kernel"⟩ }
  method :=
    { name := "run"
      params := [⟨"n", .int⟩]
      graph := ⟨#[.param 0 .int, .int 0, .compare .lt 0 1, .branch 2, .marker .goto]⟩
      body := [
        .block ⟨"outer.1", false⟩ [
          .block ⟨"inner.1", true⟩ [
            .branch 3 [.leave 4 "outer.1"] [.leave 4 "inner.1"]]]] }

theorem jumps_resolve_leftTwice :
    ∃ out s, emitBody leftTwice = .ok out ∧
      Reached leftTwice (bodyEvents leftTwice.method.body) [] s ∧ (labelsIn s.lines).Nodup ∧
      (labelsIn s.lines).count "outer_1_exit" = 1 := by
  have hapart : LabelsApart leftTwice.method.body := ⟨by decide, by decide⟩
  obtain ⟨out, hout⟩ : ∃ out, emitBody leftTwice = .ok out := exists_emitBody (by cbv)
  obtain ⟨s, hs, -, hunique, -, hjumps, -⟩ := jumps_resolve hout
  have hevents : [.startBlock ⟨"outer.1", false⟩, .startBlock ⟨"inner.1", true⟩, .startIf 3] ++
      .leave 4 "outer.1" :: [.startElse 3, .leave 4 "inner.1", .finishIf 3,
        .finishBlock ⟨"inner.1", true⟩, .finishBlock ⟨"outer.1", false⟩] =
      bodyEvents leftTwice.method.body := by decide
  exact ⟨out, s, hout, hs, hunique.2 hapart, (hjumps hevents rfl).2.2 hapart⟩

/-- A block after a block, both left by a jump, whose labels differ but are mapped to one identifier. -/
def alikeBlocks : Context where
  cls := { name := ⟨"Kernel"⟩ }
  method :=
    { name := "run"
      graph := ⟨#[.marker .goto]⟩
      body := [
        .block ⟨"a.b", false⟩ [.leave 0 "a.b"],
        .block ⟨"a-b", false⟩ [.leave 0 "a-b"]] }

/-- The text marks two places by one name, and both jumps name it. -/
theorem labels_clash_alikeBlocks :
    (blockLabels alikeBlocks.method.body).Nodup ∧
      ∃ out s, emitBody alikeBlocks = .ok out ∧
        Reached alikeBlocks (bodyEvents alikeBlocks.method.body) [] s ∧
        labelsIn s.lines = ["a_b", "a_b_exit", "a_b", "a_b_exit"] ∧
        ¬ (labelsIn s.lines).Nodup ∧
        (s.lines.filterMap Line.target?).map Mark.text = ["a_b_exit", "a_b_exit"] := by
  obtain ⟨out, hout⟩ : ∃ out, emitBody alikeBlocks = .ok out := exists_emitBody (by cbv)
  obtain ⟨s, hs, -⟩ := reached_of_emitBody hout
  have hlabels : labelsIn s.lines = ["a_b", "a_b_exit", "a_b", "a_b_exit"] :=
    eq_of_reached (f := fun s => labelsIn s.lines) hs (by cbv)
  have htargets : (s.lines.filterMap Line.target?).map Mark.text = ["a_b_exit", "a_b_exit"] :=
    eq_of_reached (f := fun s => (s.lines.filterMap Line.target?).map Mark.text) hs (by cbv)
  refine ⟨by decide, out, s, hout, hs, hlabels, ?_, htargets⟩
  rw [hlabels]
  decide

end KernelForge.Source
