import KernelForge.Proofs.Flow
import KernelForge.Proofs.Freshness

/-!
# Definite assignment

A temporary is up to date at a place of a path if a line passed before gives it its value and no line
passed since outdates it (`Fresh`). Whether it is so wherever it is read, on every path, can be checked
along the structure of a program, in the way compilers check that variables are assigned before they
are used (`DefiniteAll`): what is known where a choice begins is known at the start of each arm, what
is known behind it has to be known at the end of each arm, and a jump has to know what is promised
where it lands. The check is sound (`readsFresh_of_runs`). It needs nothing about where the temporary
is declared.
-/

namespace KernelForge.Source

variable {stale : Temp → Line → Prop} {t : Temp} {past lines lines' : List Line}
  {known : Prop}

/-! ### Fresh temporaries -/

section Fresh

variable (stale)

/-- The lines passed so far have given a temporary its value, and no line passed since outdates it. -/
def Fresh (past : List Line) (t : Temp) : Prop :=
  ∃ before d since, past = before ++ d :: since ∧ d.introduces? = some t ∧
    ∀ x ∈ since, ¬ stale t x

/-- Wherever lines read a temporary, it is up to date. -/
def ReadsFresh (t : Temp) (past lines : List Line) : Prop :=
  ∀ before l after, lines = before ++ l :: after → t ∈ l.reads → Fresh stale (past ++ before) t

/-- A temporary is up to date after some lines, if it is so before them in the case `known`. -/
def Known (t : Temp) (known : Prop) (lines : List Line) : Prop :=
  Fresh stale lines t ∨ known ∧ ∀ x ∈ lines, ¬ stale t x

/-- Wherever lines read a temporary, it is known to be up to date. -/
def ReadsKnown (t : Temp) (known : Prop) (lines : List Line) : Prop :=
  ∀ before l after, lines = before ++ l :: after → t ∈ l.reads → Known stale t known before

end Fresh

theorem Fresh.append (h : Fresh stale past t) (hlines : ∀ x ∈ lines, ¬ stale t x) :
    Fresh stale (past ++ lines) t := by
  obtain ⟨before, d, since, rfl, hd, hsince⟩ := h
  refine ⟨before, d, since ++ lines, by simp, hd, fun x hx => ?_⟩
  rcases List.mem_append.1 hx with hx | hx
  · exact hsince x hx
  · exact hlines x hx

theorem Fresh.prepend (h : Fresh stale lines t) (past : List Line) :
    Fresh stale (past ++ lines) t := by
  obtain ⟨before, d, since, rfl, hd, hsince⟩ := h
  exact ⟨past ++ before, d, since, by simp, hd, hsince⟩

theorem fresh_of_mem {d : Line} (hd : d ∈ lines) (hintroduced : d.introduces? = some t)
    (hlines : ∀ x ∈ lines, ¬ stale t x) : Fresh stale lines t := by
  obtain ⟨before, since, rfl⟩ := List.append_of_mem hd
  exact ⟨before, d, since, rfl, hintroduced, fun x hx => hlines x (by simp [hx])⟩

theorem ReadsFresh.nil : ReadsFresh stale t past [] := by
  intro before l after heq
  simp at heq

theorem ReadsFresh.append (h : ReadsFresh stale t past lines)
    (h' : ReadsFresh stale t (past ++ lines) lines') :
    ReadsFresh stale t past (lines ++ lines') := by
  intro before l after heq ht
  rcases List.append_eq_append_iff.1 heq with ⟨mid, rfl, hmid⟩ | ⟨mid, rfl, hmid⟩
  · rw [← List.append_assoc]
    exact h' mid l after hmid ht
  · cases mid with
    | nil =>
      have hread := h' [] l after (by simpa using hmid.symm) ht
      simpa using hread
    | cons first mid =>
      obtain ⟨rfl, -⟩ := List.cons.inj hmid
      exact h before l mid rfl ht

theorem known_nil : Known stale t known [] ↔ known := by
  simp [Known, Fresh]

theorem known_cons {l : Line} : Known stale t known (l :: lines) ↔
    Known stale t (l.introduces? = some t ∨ known ∧ ¬ stale t l) lines := by
  constructor
  · rintro (⟨_ | ⟨_, before⟩, d, since, heq, hd, hsince⟩ | ⟨hknown, hlines⟩)
    · obtain ⟨rfl, rfl⟩ := List.cons.inj heq
      exact .inr ⟨.inl hd, hsince⟩
    · exact .inl ⟨before, d, since, (List.cons.inj heq).2, hd, hsince⟩
    · exact .inr ⟨.inr ⟨hknown, hlines l List.mem_cons_self⟩,
        fun x hx => hlines x (List.mem_cons_of_mem _ hx)⟩
  · rintro (hfresh | ⟨hl | ⟨hknown, hl⟩, hlines⟩)
    · exact .inl (hfresh.prepend [l])
    · exact .inl ⟨[], l, lines, rfl, hl, hlines⟩
    · exact .inr ⟨hknown, List.forall_mem_cons.2 ⟨hl, hlines⟩⟩

theorem readsKnown_nil : ReadsKnown stale t known [] := by
  intro before l after heq
  simp at heq

theorem readsKnown_cons {l : Line} : ReadsKnown stale t known (l :: lines) ↔
    (t ∈ l.reads → known) ∧
      ReadsKnown stale t (l.introduces? = some t ∨ known ∧ ¬ stale t l) lines := by
  constructor
  · intro h
    refine ⟨fun ht => known_nil.1 (h [] l lines rfl ht), fun before l' after heq ht => ?_⟩
    exact known_cons.1 (h (l :: before) l' after (by rw [heq]; rfl) ht)
  · rintro ⟨hl, hlines⟩ (_ | ⟨_, before⟩) l' after heq ht
    · obtain ⟨rfl, -⟩ := List.cons.inj heq
      exact known_nil.2 (hl ht)
    · obtain ⟨rfl, hrest⟩ := List.cons.inj heq
      exact known_cons.2 (hlines before l' after hrest ht)

theorem Known.fresh (h : Known stale t known lines) (hpast : known → Fresh stale past t) :
    Fresh stale (past ++ lines) t := by
  rcases h with hfresh | ⟨hknown, hlines⟩
  · exact hfresh.prepend past
  · exact (hpast hknown).append hlines

theorem ReadsKnown.fresh (h : ReadsKnown stale t known lines)
    (hpast : known → Fresh stale past t) : ReadsFresh stale t past lines :=
  fun before l after heq ht => (h before l after heq ht).fresh hpast

/-! ### The check -/

/-- What is promised about a temporary where the jumps to a block land. -/
structure Landing where
  /-- It is up to date at the start of the block, behind its first piece. -/
  start : Prop
  /-- It is up to date behind the block. -/
  exit : Prop

section Definite

variable (stale) (t)

mutual

/-- A statement whose first piece has been passed reads a temporary only where it is up to date, if it
is so behind the first piece in the case `now`; and in the case `after` it is up to date behind the
statement. -/
def Definite (targets : List (String × Landing)) (now : Prop) :
    Flow (List Line) → Prop → Prop
  | .step _, after => after → now
  | .ret _, _ => True
  | .leave _ label, _ => ∀ landing, targets.lookup label = some landing → landing.exit → now
  | .again _ label, _ => ∀ landing, targets.lookup label = some landing → landing.start → now
  | .block b _ body _, after => b.label ∉ targets.map Prod.fst ∧ ∃ start done : Prop,
      (start → now) ∧ DefiniteAll ((b.label, ⟨start, after⟩) :: targets) start body done ∧
      ((if b.isLoop then start else after) → done)
  | .branch _ thenBody _ elseBody _, after =>
    DefiniteAll targets now thenBody after ∧ DefiniteAll targets now elseBody after
  | .switch _ arms _, after => DefiniteArms targets now arms after

/-- A program reads a temporary only where it is up to date, if it is so at the start in the case
`known`; and in the case `after` it is up to date at the end. -/
def DefiniteAll (targets : List (String × Landing)) (known : Prop) :
    List (Flow (List Line)) → Prop → Prop
  | [], after => after → known
  | f :: rest, after => ReadsKnown stale t known f.first ∧ ∃ mid : Prop,
      Definite targets (Known stale t known f.first) f mid ∧ DefiniteAll targets mid rest after

/-- The same for each case of a switch. -/
def DefiniteArms (targets : List (String × Landing)) (known : Prop) :
    List (List Line × List (Flow (List Line)) × List Line) → Prop → Prop
  | [], _ => True
  | (_, body, _) :: rest, after =>
    DefiniteAll targets known body after ∧ DefiniteArms targets known rest after

end

end Definite

variable {targets : List (String × Landing)} {now mid after : Prop} {f : Flow (List Line)}
  {body rest code : List (Flow (List Line))} {path : List (List Line)} {e : Exit}

theorem definite_case {start finish : List Line} :
    ∀ {arms : List (List Line × List (Flow (List Line)) × List Line)},
      DefiniteArms stale t targets known arms after → (start, body, finish) ∈ arms →
        DefiniteAll stale t targets known body after
  | (_, _, _) :: rest, harms, hmem => by
    rw [DefiniteArms] at harms
    rcases List.mem_cons.1 hmem with heq | hmem
    · obtain ⟨-, rfl, -⟩ : start = _ ∧ body = _ ∧ finish = _ := by simpa using heq
      exact harms.1
    · exact definite_case harms.2 hmem

theorem definite_arm {enter : List Line} (harm : f.Arm enter body)
    (h : Definite stale t targets now f after) : DefiniteAll stale t targets now body after := by
  cases harm with
  | thenArm =>
    rw [Definite] at h
    exact h.1
  | elseArm =>
    rw [Definite] at h
    exact h.2
  | caseArm hmem =>
    rw [Definite] at h
    exact definite_case h hmem

/-! ### Soundness -/

/-- What is promised about a temporary where a run ends. -/
def Promised (targets : List (String × Landing)) (after : Prop) : Exit → Prop
  | .done => after
  | .leaving label => ∃ landing, targets.lookup label = some landing ∧ landing.exit
  | .again label => ∃ landing, targets.lookup label = some landing ∧ landing.start
  | .stopped | .returned => False

/-- The lines that a run passes read a temporary only where it is up to date, and the promise about
the end of the run is kept. -/
structure Watches (stale : Temp → Line → Prop) (t : Temp) (past : List Line)
    (targets : List (String × Landing)) (after : Prop) (lines : List Line) (e : Exit) : Prop where
  reads : ReadsFresh stale t past lines
  lands : Promised targets after e → Fresh stale (past ++ lines) t

theorem Watches.append (h : Watches stale t (past ++ lines) targets after lines' e)
    (hreads : ReadsFresh stale t past lines) :
    Watches stale t past targets after (lines ++ lines') e :=
  ⟨hreads.append h.reads, fun hpromised => List.append_assoc .. ▸ h.lands hpromised⟩

/-- The body of a block is left by a jump further out. -/
theorem Watches.out_of_block {b : Block} {start done : Prop}
    (h : Watches stale t past ((b.label, ⟨start, mid⟩) :: targets) done lines e)
    (hfresh : b.label ∉ targets.map Prod.fst) (hrepeats : ¬ b.Repeats e) (hends : ¬ b.Ends e)
    (after : Prop) : Watches stale t past targets after lines e := by
  refine ⟨h.reads, fun hpromised => h.lands ?_⟩
  -- a jump that lands further out is not one to the block itself
  have hother : ∀ {label landing}, targets.lookup label = some landing →
      List.lookup label ((b.label, ⟨start, mid⟩) :: targets) = some landing := by
    intro label landing hlookup
    have hne : label ≠ b.label := by
      rintro rfl
      obtain ⟨_, _, rfl, -⟩ := List.lookup_eq_some_iff.1 hlookup
      simp at hfresh
    rw [List.lookup_cons, beq_eq_false_iff_ne.2 hne]
    exact hlookup
  cases e with
  | done =>
    exfalso
    cases hloop : b.isLoop with
    | true => exact hrepeats ⟨hloop, .inl rfl⟩
    | false => exact hends (.inr ⟨rfl, hloop⟩)
  | leaving | again =>
    obtain ⟨landing, hlookup, hlanding⟩ := hpromised
    exact ⟨landing, hother hlookup, hlanding⟩
  | stopped | returned => exact hpromised

variable (stale) (t) in
/-- What a run passes after its first piece is watched. The first piece is left apart, since the next
pass through a loop starts behind it. -/
def WatchesOn : List (Flow (List Line)) → List (List Line) → Exit → Prop
  | f :: rest, _ :: tail, e => ∀ {past targets now mid after},
      Definite stale t targets now f mid → DefiniteAll stale t targets mid rest after →
      (now → Fresh stale past t) → Watches stale t past targets after tail.flatten e
  | _, _, _ => True

/-- If what a run passes after its first piece is watched, so is the whole run. -/
theorem WatchesOn.whole (h : WatchesOn stale t code path e) (hrun : Flow.Runs code path e)
    (hcode : DefiniteAll stale t targets known code after)
    (hpast : known → Fresh stale past t) :
    Watches stale t past targets after path.flatten e := by
  cases code with
  | nil =>
    rw [DefiniteAll] at hcode
    cases hrun with
    | stop => exact ⟨.nil, False.elim⟩
    | nil => exact ⟨.nil, fun hafter => by simpa using hpast (hcode hafter)⟩
  | cons f rest =>
    rw [DefiniteAll] at hcode
    obtain ⟨hreads, mid, hf, hrest⟩ := hcode
    cases path with
    | nil =>
      cases hrun
      exact ⟨.nil, False.elim⟩
    | cons first tail =>
      obtain rfl : first = f.first := hrun.first_eq
      exact (h hf hrest fun hnow => hnow.fresh hpast).append (hreads.fresh hpast)

theorem watchesOn_of_runs (hrun : Flow.Runs code path e) : WatchesOn stale t code path e := by
  induction hrun with
  | @stop code => cases code <;> trivial
  | nil => trivial
  | ret =>
    intro _ _ _ _ _ _ _ _
    exact ⟨.nil, False.elim⟩
  | leave | again =>
    intro _ _ _ _ _ hf _ hpast
    rw [Definite] at hf
    refine ⟨.nil, fun ⟨landing, hlookup, hlanding⟩ => ?_⟩
    simpa using hpast (hf landing hlookup hlanding)
  | step hrest ih =>
    intro _ _ _ _ _ hf hafter hpast
    rw [Definite] at hf
    exact ih.whole hrest hafter fun hmid => hpast (hf hmid)
  | blockOut hbody hrepeats hends ih =>
    intro _ _ _ _ after hf _ hpast
    rw [Definite] at hf
    obtain ⟨hfresh, start, done, hstart, hinner, -⟩ := hf
    exact (ih.whole hbody hinner fun h => hpast (hstart h)).out_of_block hfresh hrepeats hends after
  | blockEnd hbody hends hrest ihbody ihrest =>
    intro _ _ _ _ _ hf hafter hpast
    rw [Definite] at hf
    obtain ⟨-, start, done, hstart, hinner, hdone⟩ := hf
    have hwatched := ihbody.whole hbody hinner fun h => hpast (hstart h)
    rw [List.flatten_append]
    refine (ihrest.whole hrest hafter fun hmid => hwatched.lands ?_).append hwatched.reads
    rcases hends with rfl | ⟨rfl, hloop⟩
    · exact ⟨_, List.lookup_cons_self, hmid⟩
    · exact hdone (by rwa [hloop])
  | @blockAgain b enter exit body rest _ _ _ _ hbody hrepeats hrest ihbody ihrest =>
    intro _ targets _ mid _ hf hafter hpast
    rw [Definite] at hf
    obtain ⟨hfresh, start, done, hstart, hinner, hdone⟩ := hf
    have hwatched := ihbody.whole hbody hinner fun h => hpast (hstart h)
    -- the next pass starts behind the first piece, with what is promised there
    have hagain : Definite stale t targets start (.block b enter body exit) mid := by
      rw [Definite]
      exact ⟨hfresh, start, done, id, hinner, hdone⟩
    rw [List.flatten_append]
    refine (ihrest hagain hafter fun h => hwatched.lands ?_).append hwatched.reads
    obtain ⟨hloop, rfl | rfl⟩ := hrepeats
    · exact hdone (by rwa [hloop])
    · exact ⟨_, List.lookup_cons_self, h⟩
  | armOut harm hbody hout ih =>
    intro _ _ _ _ _ hf _ hpast
    have hwatched := ih.whole hbody (definite_arm harm hf) hpast
    refine ⟨hwatched.reads, fun hpromised => hwatched.lands ?_⟩
    cases ‹Exit› with
    | done => exact absurd rfl hout
    | _ => exact hpromised
  | armEnd harm hbody hrest ihbody ihrest =>
    intro _ _ _ _ _ hf hafter hpast
    have hwatched := ihbody.whole hbody (definite_arm harm hf) hpast
    rw [List.flatten_append]
    exact (ihrest.whole hrest hafter fun hmid => hwatched.lands hmid).append hwatched.reads

/-- A program that is definite about a temporary, with nothing known at its start and nothing promised
at its end, reads the temporary only where it is up to date. -/
theorem readsFresh_of_runs (hrun : Flow.Runs code path e)
    (hcode : DefiniteAll stale t [] False code False) : ReadsFresh stale t [] path.flatten :=
  ((watchesOn_of_runs hrun).whole hrun hcode False.elim).reads

end KernelForge.Source
