import KernelForge.Proofs.Nesting
import KernelForge.Proofs.Temporaries

/-!
# Lexical scoping of temporaries

Every temporary that a line names is declared at the top of the function or in a brace that is still
open, and every temporary is declared exactly once. The emitter forgets the names that belong to a
scope when the scope is closed; the invariant ties the scopes, the names and the braces of the text
together.
-/

namespace KernelForge.Source

variable {cx : Context}

namespace Emitter

variable (s : Emitter)

/-- The temporaries declared at the top of the function. -/
def top : List Temp :=
  s.declarations.map Declaration.temp

/-- All temporaries declared so far. -/
def declared : List Temp :=
  s.top ++ s.lines.filterMap Line.declared?

/-- A temporary can be named in the next line. -/
def InScope (t : Temp) : Prop :=
  Source.InScope s.top s.lines t

/-- An expression can stand in the next line. -/
def Shows (e : Expr) : Prop :=
  ∀ t ∈ e.temps, s.InScope t

end Emitter

/-! ### Braces and scopes -/

/-- An open brace: whether it is a scope of the emitter, the values bound in that scope, and the
temporaries declared in it. The brace of a switch is no scope. -/
structure Brace where
  isScope : Bool
  ids : List NodeId
  temps : List Temp

/-- Where the temporary of a value is declared: at the top, in the brace of the function, or in the
brace whose scope the value belongs to. -/
def Kept (top : List Temp) (bs : List Brace) (id : NodeId) (t : Temp) : Prop :=
  t ∈ top ∨ (∃ b ∈ bs.getLast?, t ∈ b.temps) ∨ ∃ b ∈ bs, id ∈ b.ids ∧ t ∈ b.temps

/-- The braces of the text, the scopes and the open constructs of an emitter belong together. -/
structure ScopedBy (s : Emitter) (bs : List Brace) : Prop where
  braces : braces s.lines = bs.map Brace.temps
  scopes : s.scopes = (bs.filter Brace.isScope).map Brace.ids
  opened : bs.map Brace.isScope = s.opened.map (!·.isSwitch) ++ [true]
  switch : ∀ b ∈ bs, b.isScope = false → b.ids = []
  bound : ∀ {id v}, s.value? id = some v → ∃ t, v.expr = .temp t ∧ Kept s.top bs id t
  wellScoped : WellScoped s.top s.lines
  declared : (s.declared.map Temp.index).Perm (List.range s.counter)

theorem Kept.mono {top top' : List Temp} {b b' : Brace} {bs : List Brace} {id : NodeId} {t : Temp}
    (h : Kept top (b :: bs) id t) (htop : top ⊆ top') (hids : b.ids ⊆ b'.ids)
    (htemps : b.temps ⊆ b'.temps) : Kept top' (b' :: bs) id t := by
  rcases h with h | ⟨last, hlast, ht⟩ | ⟨c, hc, hid, ht⟩
  · exact .inl (htop h)
  · refine .inr (.inl ?_)
    cases bs with
    | nil =>
      obtain rfl : b = last := by simpa using hlast
      exact ⟨b', by simp, htemps ht⟩
    | cons c rest => exact ⟨last, by simpa using hlast, ht⟩
  · refine .inr (.inr ?_)
    rcases List.mem_cons.1 hc with rfl | hc
    · exact ⟨b', List.mem_cons_self, hids hid, htemps ht⟩
    · exact ⟨c, List.mem_cons_of_mem _ hc, hid, ht⟩

/-- What outlives the innermost brace is declared elsewhere. -/
theorem Kept.tail {top : List Temp} {b : Brace} {bs : List Brace} {id : NodeId} {t : Temp}
    (h : Kept top (b :: bs) id t) (hbs : bs ≠ []) (hid : id ∉ b.ids) : Kept top bs id t := by
  rcases h with h | ⟨last, hlast, ht⟩ | ⟨c, hc, hidc, ht⟩
  · exact .inl h
  · refine .inr (.inl ⟨last, ?_, ht⟩)
    rwa [List.getLast?_cons_of_ne_nil hbs] at hlast
  · rcases List.mem_cons.1 hc with rfl | hc
    · exact absurd hidc hid
    · exact .inr (.inr ⟨c, hc, hidc, ht⟩)

theorem Kept.cons {top : List Temp} {b : Brace} {bs : List Brace} {id : NodeId} {t : Temp}
    (h : Kept top bs id t) : Kept top (b :: bs) id t := by
  rcases h with h | ⟨last, hlast, ht⟩ | ⟨c, hc, hid, ht⟩
  · exact .inl h
  · refine .inr (.inl ⟨last, ?_, ht⟩)
    rw [List.getLast?_cons, hlast]
    simp
  · exact .inr (.inr ⟨c, List.mem_cons_of_mem _ hc, hid, ht⟩)

theorem ScopedBy.inScope {s : Emitter} {bs : List Brace} (h : ScopedBy s bs) {id : NodeId}
    {t : Temp} (hkept : Kept s.top bs id t) : s.InScope t := by
  have hbrace : ∀ b ∈ bs, t ∈ b.temps → s.InScope t := fun b hb ht => by
    refine .inr ⟨b.temps, ?_, ht⟩
    rw [h.braces]
    exact List.mem_map_of_mem hb
  rcases hkept with ht | ⟨b, hb, ht⟩ | ⟨b, hb, -, ht⟩
  · exact .inl ht
  · exact hbrace b (List.mem_of_getLast? hb) ht
  · exact hbrace b hb ht

/-- A bound value can be named. -/
theorem ScopedBy.shows {s : Emitter} {bs : List Brace} (h : ScopedBy s bs) {id : NodeId}
    {v : Value} (hv : s.value? id = some v) : s.Shows v.expr := by
  obtain ⟨t, ht, hkept⟩ := h.bound hv
  intro t' ht'
  rw [ht, Expr.temps, List.mem_singleton] at ht'
  exact ht' ▸ h.inScope hkept

/-! ### Lines that open and close nothing -/

/-- Whatever could be named can be named afterwards. -/
def Emitter.Sees (s s' : Emitter) : Prop :=
  ∀ t, s.InScope t → s'.InScope t

theorem Emitter.Sees.shows {s s' : Emitter} (h : s.Sees s') {e : Expr} (he : s.Shows e) :
    s'.Shows e :=
  fun t ht => h t (he t ht)

theorem Emitter.Sees.trans {s₁ s₂ s₃ : Emitter} (h₁ : s₁.Sees s₂) (h₂ : s₂.Sees s₃) :
    s₁.Sees s₃ :=
  fun t ht => h₂ t (h₁ t ht)

/-- A line that neither declares anything nor opens or closes a brace. -/
def Line.isPlain : Line → Bool
  | .store _ _ _ | .feed _ _ _ | .effect _ _ | .ret _ | .endCase | .exitMark _ | .gotoExit _
  | .gotoStart _ => true
  | _ => false

theorem Line.brace_of_isPlain {l : Line} (h : l.isPlain = true) (stack : List (List Temp)) :
    l.brace stack = stack := by
  cases l <;> first | rfl | cases h

theorem Line.declared?_of_isPlain {l : Line} (h : l.isPlain = true) : l.declared? = none := by
  cases l <;> first | rfl | cases h

section write

variable {s : Emitter} {bs : List Brace} {l : Line}

theorem Emitter.braces_write (s : Emitter) (l : Line) :
    braces (s.write l).lines = l.brace (braces s.lines) := by
  rw [lines_write, braces_concat]

theorem Emitter.declared_write (s : Emitter) (l : Line) :
    (s.write l).declared = s.declared ++ l.declared?.toList := by
  rw [declared, declared, lines_write, List.filterMap_append, List.append_assoc]
  cases hl : l.declared? with
  | none => simp [top, write, hl]
  | some t => simp [top, write, hl]

theorem Emitter.sees_write (hl : l.isPlain = true) : s.Sees (s.write l) := by
  intro t ht
  refine ht.imp_right fun ⟨scope, hscope, hmem⟩ => ⟨scope, ?_, hmem⟩
  rwa [s.braces_write, Line.brace_of_isPlain hl]

theorem ScopedBy.write (h : ScopedBy s bs) (hl : l.isPlain = true)
    (hneeds : ∀ t ∈ l.needs, s.InScope t) : ScopedBy (s.write l) bs := by
  refine ⟨?_, h.scopes, h.opened, h.switch, h.bound, ?_, ?_⟩
  · rw [s.braces_write, Line.brace_of_isPlain hl, h.braces]
  · rw [s.lines_write]
    exact h.wellScoped.concat hneeds
  · rw [s.declared_write, Line.declared?_of_isPlain hl, Option.toList_none, List.append_nil]
    exact h.declared

end write

/-! ### New temporaries -/

/-- The innermost brace is a scope, with the braces `bs` around it. -/
def Inside (bs : List Brace) (s : Emitter) : Prop :=
  ∃ b, b.isScope = true ∧ ScopedBy s (b :: bs)

theorem perm_range_concat {ts ts' : List Temp} {t : Temp} {n : Nat}
    (h : (ts.map Temp.index).Perm (List.range n)) (ht : t.index = n)
    (hperm : ts'.Perm (ts ++ [t])) : (ts'.map Temp.index).Perm (List.range (n + 1)) := by
  refine (hperm.map Temp.index).trans ?_
  rw [List.map_append, List.map_singleton, ht, List.range_succ]
  exact h.append_right [n]

section fresh

variable {s s' : Emitter} {bs : List Brace} {b : Brace} {t : Temp} {l : Line}

/-- A line that declares the next temporary in the innermost brace. -/
theorem ScopedBy.declareLine {ids : List NodeId} (h : ScopedBy s (b :: bs)) (hb : b.isScope = true)
    (ht : t.index = s.counter) (hdecl : l.declared? = some t)
    (hbrace : ∀ stack, l.brace stack = stack.modifyHead (t :: ·))
    (hneeds : ∀ t ∈ l.needs, s.InScope t) (hlines : s'.lines = s.lines ++ [l])
    (htop : s'.declarations = s.declarations) (hcounter : s'.counter = s.counter + 1)
    (hopened : s'.opened = s.opened)
    (hscopes : s'.scopes = s.scopes.modifyHead (· ++ ids))
    (hbound : ∀ {id v}, s'.value? id = some v → s.value? id = some v ∨
      v.expr = .temp t ∧ (id ∈ ids ∨ bs = [])) :
    ScopedBy s' (⟨true, b.ids ++ ids, t :: b.temps⟩ :: bs) := by
  have htop : s'.top = s.top := by rw [Emitter.top, Emitter.top, htop]
  refine ⟨?_, ?_, ?_, ?_, fun {id v} hv => ?_, ?_, ?_⟩
  · rw [hlines, braces_concat, hbrace, h.braces]
    rfl
  · rw [hscopes, h.scopes, List.filter_cons_of_pos hb, List.filter_cons_of_pos rfl]
    rfl
  · rw [hopened, ← h.opened, List.map_cons, List.map_cons, hb]
  · intro c hc hscope
    rcases List.mem_cons.1 hc with rfl | hc
    · cases hscope
    · exact h.switch c (List.mem_cons_of_mem _ hc) hscope
  · rcases hbound hv with hv | ⟨hexpr, hid⟩
    · obtain ⟨t', ht', hkept⟩ := h.bound hv
      exact ⟨t', ht', hkept.mono (by simp [htop]) (by simp) (by simp)⟩
    · refine ⟨t, hexpr, .inr ?_⟩
      rcases hid with hid | rfl
      · exact .inr ⟨_, List.mem_cons_self, by simp [hid], by simp⟩
      · exact .inl ⟨_, rfl, by simp⟩
  · rw [hlines, htop]
    exact h.wellScoped.concat hneeds
  · rw [hcounter]
    refine perm_range_concat h.declared ht ?_
    rw [Emitter.declared, Emitter.declared, hlines, htop]
    simp [hdecl]

/-- A temporary that is declared at the top, before or without a line that uses it. -/
theorem ScopedBy.declareTop {id : NodeId} {d : Declaration} {ty : Ty} (h : ScopedBy s bs)
    (hd : d.temp = t) (ht : t.index = s.counter) :
    ScopedBy ((s.countTemp.declare d).bind id ⟨ty, .temp t⟩) bs := by
  have htop : ((s.countTemp.declare d).bind id ⟨ty, .temp t⟩).top = s.top ++ [t] := by
    simp [Emitter.top, Emitter.bind, Emitter.declare, Emitter.countTemp, hd]
  refine ⟨h.braces, h.scopes, h.opened, h.switch, fun {j v} hv => ?_, ?_, ?_⟩
  · rw [Emitter.value?_bind] at hv
    rw [htop]
    split_ifs at hv with hj
    · exact ⟨t, by rw [← Option.some.inj hv], .inl (by simp)⟩
    · obtain ⟨t', ht', hkept⟩ := h.bound hv
      exact ⟨t', ht', hkept.imp_left fun h => by simp [h]⟩
  · rw [htop]
    exact h.wellScoped.mono (by simp)
  · refine perm_range_concat h.declared ht ?_
    rw [Emitter.declared, htop, Emitter.declared]
    have hlines : ((s.countTemp.declare d).bind id ⟨ty, .temp t⟩).lines = s.lines := rfl
    rw [hlines, List.append_assoc, List.append_assoc]
    exact List.Perm.append_left _ List.perm_append_comm

end fresh

/-! ### Evaluation -/

section evaluation

variable {s s' : Emitter} {bs : List Brace} {b : Brace}

theorem ScopedBy.sees {b' : Brace} (h : ScopedBy s (b :: bs)) (h' : ScopedBy s' (b' :: bs))
    (htop : s.top ⊆ s'.top) (htemps : b.temps ⊆ b'.temps) : s.Sees s' := by
  rintro t (ht | ⟨scope, hscope, ht⟩)
  · exact .inl (htop ht)
  · rw [h.braces, List.map_cons] at hscope
    refine .inr ?_
    rw [h'.braces, List.map_cons]
    rcases List.mem_cons.1 hscope with rfl | hscope
    · exact ⟨_, List.mem_cons_self, htemps ht⟩
    · exact ⟨scope, List.mem_cons_of_mem _ hscope, ht⟩

/-- If only one scope is open, the innermost brace is that of the function. -/
theorem ScopedBy.eq_nil (h : ScopedBy s (b :: bs)) (hb : b.isScope = true)
    (hnested : s.isNested = false) : bs = [] := by
  by_contra hbs
  have hlast : (bs.map Brace.isScope).getLast? = some true := by
    have hopened := congrArg List.getLast? h.opened
    rwa [List.map_cons, List.getLast?_cons_of_ne_nil (by simpa using hbs),
      List.getLast?_concat] at hopened
  obtain ⟨c, hc, hscope⟩ := List.mem_map.1 (List.mem_of_getLast? hlast)
  have hmem : c ∈ bs.filter Brace.isScope := List.mem_filter.2 ⟨hc, hscope⟩
  have hlength : s.scopes.length = (bs.filter Brace.isScope).length + 1 := by
    rw [h.scopes, List.filter_cons_of_pos hb]
    simp
  have hpos := List.length_pos_of_mem hmem
  simp only [Emitter.isNested, decide_eq_false_iff_not] at hnested
  omega

theorem needs_define {id : NodeId} {type : String} {t : Temp} {e : Expr} :
    (Line.define id type t e).needs = e.temps := by
  simp [Line.needs, Line.reads, Line.exprs]

/-- Keeping a value declares its temporary where it can be named as long as it is bound. -/
theorem Inside.materialize {id : NodeId} {ty : Ty} {e : Expr} {keep : Bool} (h : Inside bs s)
    (he : s.Shows e) : Inside bs (s.materialize cx id ty e keep) ∧
      s.Sees (s.materialize cx id ty e keep) := by
  obtain ⟨b, hb, h⟩ := h
  -- a value that is already bound keeps its place, the new one is at the next temporary
  have hvalue : ∀ {j v}, (s.materialize cx id ty e keep).value? j = some v →
      s.value? j = some v ∨ v.expr = .temp (s.nextTemp .var) ∧ j = id := by
    intro j v hv
    rw [Emitter.value?_materialize] at hv
    split_ifs at hv with hj
    · exact .inr ⟨by rw [← Option.some.inj hv], hj⟩
    · exact .inl hv
  cases hapart : s.isApart keep with
  | true =>
    obtain ⟨rfl, hnested⟩ : keep = true ∧ s.isNested = true := by
      simpa [Emitter.isApart] using hapart
    have hstate : s.materialize cx id ty e true =
        ((s.countTemp.declare (.scalar (cx.metadata.declaredType ty) (s.nextTemp .var))).bind id
          ⟨ty, .temp (s.nextTemp .var)⟩).write (.store id (s.nextTemp .var) e) := by
      rw [Emitter.materialize_eq, Emitter.keepLine, hapart]
      rfl
    have hdeclared : ScopedBy ((s.countTemp.declare (.scalar (cx.metadata.declaredType ty)
        (s.nextTemp .var))).bind id ⟨ty, .temp (s.nextTemp .var)⟩) (b :: bs) :=
      h.declareTop rfl rfl
    have hsees := h.sees hdeclared (by simp [Emitter.top, Emitter.bind, Emitter.declare,
      Emitter.countTemp]) (List.Subset.refl _)
    rw [hstate]
    refine ⟨⟨b, hb, hdeclared.write rfl fun t ht => ?_⟩, hsees.trans (Emitter.sees_write rfl)⟩
    rcases List.mem_cons.1 ht with rfl | ht
    · exact .inl (by simp [Emitter.top, Emitter.bind, Emitter.declare, Declaration.temp])
    · exact hsees t (he t (by simpa [Line.reads, Line.exprs] using ht))
  | false =>
    have hline : s.keepLine cx id ty e keep =
        .define id (cx.metadata.declaredType ty) (s.nextTemp .var) e := by
      rw [Emitter.keepLine, hapart]
      rfl
    have hdeclarations : (s.materialize cx id ty e keep).declarations = s.declarations := by
      rw [Emitter.materialize_eq, hapart]
      simp
    have hnew : ScopedBy (s.materialize cx id ty e keep)
        (⟨true, b.ids ++ (if keep then [] else [id]), s.nextTemp .var :: b.temps⟩ :: bs) := by
      refine h.declareLine hb rfl rfl (fun _ => rfl) (fun t ht => he t (needs_define ▸ ht))
        (by rw [Emitter.lines_materialize, hline]) hdeclarations (by rw [Emitter.materialize_eq])
        (by rw [Emitter.materialize_eq]) ?_ ?_
      · rw [Emitter.materialize_eq]
        cases keep <;> cases s.scopes <;> simp
      · intro j v hv
        rcases hvalue hv with hv | ⟨hexpr, rfl⟩
        · exact .inl hv
        · refine .inr ⟨hexpr, ?_⟩
          cases keep with
          | false => exact .inl (by simp)
          | true => exact .inr (h.eq_nil hb (by simpa [Emitter.isApart] using hapart))
    refine ⟨⟨_, rfl, hnew⟩, h.sees hnew ?_ (by simp)⟩
    rw [Emitter.top, Emitter.top, hdeclarations]
    exact List.Subset.refl _

/-- Rendering a node keeps everything in scope, and its value can be named. -/
theorem Inside.produced {id : NodeId} {node : Node} {args : List Value} {v : Value}
    (h : Inside bs s) (hargs : ∀ a ∈ args, s.Shows a.expr)
    (hprod : Produced cx id node args s v s') :
    Inside bs s' ∧ s.Sees s' ∧ s'.Shows v.expr := by
  have hexpress : ∀ {e}, cx.express id node (args.map Value.expr) = .ok e → s.Shows e := by
    intro e he t ht
    obtain ⟨a, ha, hta⟩ := temps_express he ht
    obtain ⟨arg, harg, rfl⟩ := List.mem_map.1 ha
    exact hargs arg harg t hta
  have hrender : Inside bs (s.render id) := by
    obtain ⟨b, hb, h⟩ := h
    exact ⟨b, hb, h.braces, h.scopes, h.opened, h.switch, h.bound, h.wellScoped, h.declared⟩
  have hvalue := hprod.value? id
  cases hprod with
  | inline he hk => exact ⟨hrender, fun _ ht => ht, hexpress he⟩
  | kept he hk =>
    obtain ⟨hinside, hsees⟩ := hrender.materialize (hexpress he)
    refine ⟨hinside, hsees, ?_⟩
    obtain ⟨b, hb, h⟩ := hinside
    exact h.shows (hvalue.trans (if_pos ⟨rfl, hk⟩))
  | @array element length hkind hk =>
    obtain ⟨b, hb, h⟩ := hrender
    have hnew : ScopedBy (((s.render id).countTemp.declare (.array element (s.nextTemp .var)
        length)).bind id ⟨node.ty, .temp (s.nextTemp .var)⟩) (b :: bs) := h.declareTop rfl rfl
    refine ⟨⟨b, hb, hnew⟩, fun t ht => ?_, hnew.shows (hvalue.trans (if_pos ⟨rfl, hk⟩))⟩
    refine ht.imp_left fun ht => ?_
    simp only [Emitter.top, Emitter.bind, Emitter.declare, List.map_append]
    exact List.mem_append_left _ ht

/-- Evaluation keeps everything in scope, and its values can be named. -/
theorem Inside.evaluates {ids : List NodeId} {vs : List Value} (h : Inside bs s)
    (heval : Evaluates cx ids s vs s') :
    Inside bs s' ∧ s.Sees s' ∧ ∀ v ∈ vs, s'.Shows v.expr := by
  induction heval with
  | nil s => exact ⟨h, fun _ ht => ht, by simp⟩
  | known hv _ ih =>
    obtain ⟨hinside, hsees, hshows⟩ := ih h
    obtain ⟨b, hb, h⟩ := h
    refine ⟨hinside, hsees, fun v hv => ?_⟩
    rcases List.mem_cons.1 hv with rfl | hv
    · exact hsees.shows (h.shows ‹_›)
    · exact hshows v hv
  | render hv hnode hargs hv₁ hprod hrest ihargs ihrest =>
    obtain ⟨hinside₁, hsees₁, hshows₁⟩ := ihargs h
    obtain ⟨hinside₂, hsees₂, hshows₂⟩ := hinside₁.produced hshows₁ hprod
    obtain ⟨hinside, hsees, hshows⟩ := ihrest hinside₂
    refine ⟨hinside, (hsees₁.trans hsees₂).trans hsees, fun v hv => ?_⟩
    rcases List.mem_cons.1 hv with rfl | hv
    · exact hsees.shows hshows₂
    · exact hshows v hv

/-- Only the text, the names, the scopes and the kinds of the open constructs count. -/
theorem ScopedBy.congr (h : ScopedBy s bs) (hrows : s'.rows = s.rows)
    (hscopes : s'.scopes = s.scopes)
    (hopened : s'.opened.map Open.isSwitch = s.opened.map Open.isSwitch)
    (hbound : s'.bound = s.bound) (hdeclarations : s'.declarations = s.declarations)
    (hcounter : s'.counter = s.counter) : ScopedBy s' bs := by
  have hlines : s'.lines = s.lines := by rw [Emitter.lines, Emitter.lines, hrows]
  have htop : s'.top = s.top := by rw [Emitter.top, Emitter.top, hdeclarations]
  have hdeclared : s'.declared = s.declared := by
    rw [Emitter.declared, Emitter.declared, htop, hlines]
  refine ⟨hlines ▸ h.braces, hscopes ▸ h.scopes, ?_, h.switch, fun hv => ?_, ?_, ?_⟩
  · have hmap : s'.opened.map (!·.isSwitch) = s.opened.map (!·.isSwitch) := by
      simpa only [List.map_map, Function.comp_def] using congrArg (List.map (!·)) hopened
    rw [h.opened, hmap]
  · rw [htop]
    exact h.bound (by rwa [Emitter.value?, hbound] at hv)
  · rw [htop, hlines]
    exact h.wellScoped
  · rw [hdeclared, hcounter]
    exact h.declared

theorem Inside.congr (h : Inside bs s) (hrows : s'.rows = s.rows)
    (hscopes : s'.scopes = s.scopes)
    (hopened : s'.opened.map Open.isSwitch = s.opened.map Open.isSwitch)
    (hbound : s'.bound = s.bound) (hdeclarations : s'.declarations = s.declarations)
    (hcounter : s'.counter = s.counter) : Inside bs s' := by
  obtain ⟨b, hb, h⟩ := h
  exact ⟨b, hb, h.congr hrows hscopes hopened hbound hdeclarations hcounter⟩

theorem Inside.binds {unstable ids : List NodeId} (h : Inside bs s)
    (hbinds : Binds cx unstable ids s s') : Inside bs s' ∧ s.Sees s' := by
  induction hbinds with
  | nil s => exact ⟨h, fun _ ht => ht⟩
  | known _ _ ih => exact ih h
  | now _ _ heval _ ih =>
    obtain ⟨hinside, hsees, _⟩ := h.evaluates heval
    obtain ⟨hinside', hsees'⟩ := ih hinside
    exact ⟨hinside', hsees.trans hsees'⟩
  | pin _ _ ih =>
    obtain ⟨hinside, hsees⟩ := ih (h.congr rfl rfl rfl rfl rfl rfl)
    exact ⟨hinside, hsees⟩

theorem Inside.hoists {anchor : Anchor} (h : Inside bs s) (hhoist : Hoists cx anchor s s') :
    Inside bs s' ∧ s.Sees s' := by
  cases hhoist with
  | nothing _ hs =>
    subst hs
    exact ⟨h, fun _ ht => ht⟩
  | planned _ hbinds =>
    have hplan : Inside bs { s with plan := s.plan.without anchor } :=
      h.congr rfl rfl rfl rfl rfl rfl
    exact hplan.binds hbinds

/-! ### Edges -/

theorem Inside.flowsIn {staged : Bool} {moves : List (NodeId × NodeId)}
    {assignments : List (NodeId × Expr)} (h : Inside bs s)
    (hin : FlowsIn cx staged moves s assignments s') :
    Inside bs s' ∧ s.Sees s' ∧ ∀ a ∈ assignments, s'.Shows a.2 := by
  induction hin with
  | nil s => exact ⟨h, fun _ ht => ht, by simp⟩
  | direct heval _ _ _ ih =>
    obtain ⟨hinside, hsees, hshows⟩ := h.evaluates heval
    obtain ⟨hinside', hsees', hshows'⟩ := ih hinside
    refine ⟨hinside', hsees.trans hsees', fun a ha => ?_⟩
    rcases List.mem_cons.1 ha with rfl | ha
    · exact hsees'.shows (hshows _ List.mem_cons_self)
    · exact hshows' a ha
  | @stage phi value rest s s₁ s' v assignments _ heval _ ih =>
    obtain ⟨⟨b, hb, hscoped⟩, hsees, hshows⟩ := h.evaluates heval
    have hstaged : ScopedBy (s₁.countTemp.write (.stage (cx.metadata.declaredType v.ty)
        (s₁.nextTemp .var) v.expr)) (⟨true, b.ids ++ [], s₁.nextTemp .var :: b.temps⟩ :: bs) := by
      refine hscoped.declareLine hb rfl rfl (fun _ => rfl) (fun t ht => ?_)
        (Emitter.lines_write _ _) rfl rfl rfl ?_ fun hv => .inl hv
      · refine hshows v List.mem_cons_self t ?_
        simpa [Line.needs, Line.reads, Line.exprs] using ht
      · cases hs : s₁.scopes <;> simp [Emitter.write, Emitter.countTemp, hs]
    have hsees₁ := hscoped.sees hstaged (List.Subset.refl _) (by simp)
    obtain ⟨hinside', hsees', hshows'⟩ := ih ⟨_, rfl, hstaged⟩
    refine ⟨hinside', (hsees.trans hsees₁).trans hsees', fun a ha => ?_⟩
    rcases List.mem_cons.1 ha with rfl | ha
    · intro t ht
      rw [Expr.temps, List.mem_singleton] at ht
      refine hsees' t (.inr ?_)
      rw [hstaged.braces]
      exact ⟨_, List.mem_cons_self, by simp [ht]⟩
    · exact hshows' a ha

theorem Inside.feeds {assignments : List (NodeId × Expr)} (h : Inside bs s)
    (hfeeds : Feeds assignments s s') (hshows : ∀ a ∈ assignments, s.Shows a.2) :
    Inside bs s' ∧ s.Sees s' := by
  induction hfeeds with
  | nil s => exact ⟨h, fun _ ht => ht⟩
  | @cons phi e rest s s' ty t hv _ ih =>
    obtain ⟨b, hb, h⟩ := h
    have hwrite : ScopedBy (s.write (.feed phi t e)) (b :: bs) := by
      refine h.write rfl fun t' ht' => ?_
      rcases List.mem_cons.1 ht' with rfl | ht'
      · exact h.shows hv _ (by simp [Expr.temps])
      · exact hshows _ List.mem_cons_self t' (by simpa [Line.reads, Line.exprs] using ht')
    have hsees : s.Sees (s.write (.feed phi t e)) := Emitter.sees_write rfl
    obtain ⟨hinside, hsees'⟩ := ih ⟨b, hb, hwrite⟩ fun a ha =>
      hsees.shows (hshows a (List.mem_cons_of_mem _ ha))
    exact ⟨hinside, hsees.trans hsees'⟩

theorem Inside.assigns {source : NodeId} (h : Inside bs s) (hassigns : Assigns cx source s s') :
    Inside bs s' := by
  obtain ⟨_, hin, hfeeds⟩ := hassigns
  obtain ⟨hinside, _, hshows⟩ := h.flowsIn hin
  exact (hinside.feeds hfeeds hshows).1

end evaluation

/-! ### Constructs -/

section constructs

variable {s s' : Emitter} {bs : List Brace} {b : Brace} {l : Line}

/-- Where no switch waits for a case, the innermost brace is a scope. -/
theorem ScopedBy.inside (h : ScopedBy s bs) (hhead : (s.opened.map Open.isSwitch).head? ≠ some true) :
    ∃ outer, Inside outer s := by
  have hopened := h.opened
  cases bs with
  | nil => simp at hopened
  | cons b outer =>
    refine ⟨outer, b, ?_, h⟩
    cases hs : s.opened with
    | nil =>
      rw [hs] at hopened
      exact (List.cons.inj hopened).1
    | cons o os =>
      rw [hs] at hopened hhead
      have hb : b.isScope = !o.isSwitch := (List.cons.inj hopened).1
      simpa [hb] using hhead

/-- Opening a brace. -/
theorem ScopedBy.enter {o : Open} (h : ScopedBy s bs)
    (hbrace : ∀ stack, l.brace stack = [] :: stack) (hdecl : l.declared? = none)
    (hneeds : ∀ t ∈ l.needs, s.InScope t) (hlines : s'.lines = s.lines ++ [l])
    (hdeclarations : s'.declarations = s.declarations) (hcounter : s'.counter = s.counter)
    (hbound : s'.bound = s.bound) (hopened : s'.opened = o :: s.opened)
    (hscopes : s'.scopes = if o.isSwitch then s.scopes else [] :: s.scopes) :
    ScopedBy s' (⟨!o.isSwitch, [], []⟩ :: bs) := by
  have htop : s'.top = s.top := by rw [Emitter.top, Emitter.top, hdeclarations]
  refine ⟨?_, ?_, ?_, ?_, fun {id v} hv => ?_, ?_, ?_⟩
  · rw [hlines, braces_concat, hbrace, h.braces]
    rfl
  · rw [hscopes, h.scopes]
    cases ho : o.isSwitch <;> simp
  · rw [hopened, List.map_cons, h.opened]
    rfl
  · intro c hc hscope
    rcases List.mem_cons.1 hc with rfl | hc
    · rfl
    · exact h.switch c hc hscope
  · rw [Emitter.value?, hbound] at hv
    obtain ⟨t, ht, hkept⟩ := h.bound hv
    exact ⟨t, ht, htop ▸ hkept.cons⟩
  · rw [hlines, htop]
    exact h.wellScoped.concat hneeds
  · rw [hcounter, Emitter.declared, hlines, htop]
    simpa [hdecl, Emitter.declared] using h.declared

/-- The innermost brace belongs to the innermost open construct. -/
theorem ScopedBy.uncons {o : Open} {os : List Open} (h : ScopedBy s (b :: bs))
    (hopened : s.opened = o :: os) : b.isScope = (!o.isSwitch) ∧
      bs.map Brace.isScope = os.map (!·.isSwitch) ++ [true] ∧ bs ≠ [] := by
  have hmap := h.opened
  rw [hopened, List.map_cons, List.map_cons, List.cons_append] at hmap
  obtain ⟨hb, hmap⟩ := List.cons.inj hmap
  refine ⟨hb, hmap, ?_⟩
  rintro rfl
  simp at hmap

/-- Closing a brace, with perhaps another one opened in its place. -/
theorem ScopedBy.shut {bs' : List Brace} (h : ScopedBy s (b :: bs)) (hbs : bs ≠ [])
    (hneeds : l.needs = []) (hdecl : l.declared? = none) (hlines : s'.lines = s.lines ++ [l])
    (htop : s'.top = s.top) (hcounter : s'.counter = s.counter)
    (hvalue : ∀ {id v}, s'.value? id = some v → id ∉ b.ids ∧ s.value? id = some v)
    (hbraces : l.brace (b.temps :: bs.map Brace.temps) = bs'.map Brace.temps)
    (hscopes : s'.scopes = (bs'.filter Brace.isScope).map Brace.ids)
    (hopened : bs'.map Brace.isScope = s'.opened.map (!·.isSwitch) ++ [true])
    (hswitch : ∀ b ∈ bs', b.isScope = false → b.ids = [])
    (hkept : ∀ {id t}, Kept s.top bs id t → Kept s.top bs' id t) : ScopedBy s' bs' := by
  refine ⟨?_, hscopes, hopened, hswitch, fun {id v} hv => ?_, ?_, ?_⟩
  · rw [hlines, braces_concat, h.braces, List.map_cons, hbraces]
  · obtain ⟨hid, hv⟩ := hvalue hv
    obtain ⟨t, ht, hkeptid⟩ := h.bound hv
    exact ⟨t, ht, htop ▸ hkept (hkeptid.tail hbs hid)⟩
  · rw [hlines, htop]
    exact h.wellScoped.concat (by simp [hneeds])
  · have hdeclared : s'.declared = s.declared := by
      rw [Emitter.declared, Emitter.declared, hlines, htop]
      simp [hdecl]
    rw [hcounter, hdeclared]
    exact h.declared

/-- Closing a scope forgets the values that belong to it. -/
theorem ScopedBy.leave {o : Open} {os : List Open} (h : ScopedBy s (b :: bs))
    (hopened : s.opened = o :: os) (ho : o.isSwitch = false) : ScopedBy (s.closed os) bs := by
  obtain ⟨hb, hmap, hbs⟩ := h.uncons hopened
  have hscopes : ({ s with opened := os } : Emitter).scopes =
      b.ids :: (bs.filter Brace.isScope).map Brace.ids := by
    refine h.scopes.trans ?_
    rw [List.filter_cons_of_pos (by rw [hb, ho]; rfl), List.map_cons]
  have hstate := Emitter.closeScope_eq _ hscopes
  refine h.shut hbs (l := .close) rfl rfl ?_ ?_ ?_ (fun {id v} hv => ?_) rfl ?_ ?_
    (fun c hc => h.switch c (List.mem_cons_of_mem _ hc)) fun hkept => hkept
  · exact s.lines_closed os
  · rw [Emitter.closed, hstate]
    rfl
  · rw [Emitter.closed, hstate]
    rfl
  · rw [Emitter.closed, Emitter.value?_write, Emitter.value?_closeScope _ hscopes] at hv
    split_ifs at hv with hid
    exact ⟨hid, hv⟩
  · rw [Emitter.closed, hstate]
    rfl
  · rw [hmap, (SameFrame.closed s os).opened]

/-- Closing one arm of a branch and opening the other. -/
theorem ScopedBy.swap {id : NodeId} {os : List Open} (h : ScopedBy s (b :: bs))
    (hopened : s.opened = .branch id false :: os) :
    ScopedBy ({ s with opened := .branch id true :: os }.closeScope.write .otherwise).openScope
      (⟨true, [], []⟩ :: bs) := by
  obtain ⟨hb, hmap, hbs⟩ := h.uncons hopened
  have hscopes : ({ s with opened := .branch id true :: os } : Emitter).scopes =
      b.ids :: (bs.filter Brace.isScope).map Brace.ids := by
    refine h.scopes.trans ?_
    rw [List.filter_cons_of_pos hb, List.map_cons]
  have hstate := Emitter.closeScope_eq _ hscopes
  refine h.shut hbs (l := .otherwise) rfl rfl ?_ ?_ ?_ (fun {j v} hv => ?_) rfl ?_ ?_
    (fun c hc hc' => ?_) fun hkept => hkept.cons
  · rw [hstate]
    exact Emitter.lines_write _ _
  · rw [hstate]
    rfl
  · rw [hstate]
    rfl
  · rw [Emitter.value?_openScope, Emitter.value?_write, Emitter.value?_closeScope _ hscopes] at hv
    split_ifs at hv with hid
    exact ⟨hid, hv⟩
  · rw [hstate]
    rfl
  · rw [hstate]
    simp only [List.map_cons, hmap]
    rfl
  · rcases List.mem_cons.1 hc with rfl | hc
    · rfl
    · exact h.switch c (List.mem_cons_of_mem _ hc) hc'

/-- A default case that is added at the end of a switch closes all that it opens. -/
theorem ScopedBy.writeDefault (h : ScopedBy s bs) : ScopedBy (writeDefault s) bs := by
  have hlines : (Source.writeDefault s).lines = s.lines ++ [.openCase none] ++ [.endCase] ++
      [.close] := by
    simp [lines_writeDefault]
  refine ⟨?_, h.scopes, h.opened, h.switch, h.bound, ?_, ?_⟩
  · rw [hlines, braces_concat, braces_concat, braces_concat]
    exact h.braces
  · have hnone : ∀ {l : Line} {lines : List Line}, l.needs = [] → ∀ t ∈ l.needs,
        Source.InScope s.top lines t := fun hl t ht => by
      rw [hl] at ht
      cases ht
    rw [hlines]
    exact ((h.wellScoped.concat (hnone rfl)).concat (hnone rfl)).concat (hnone rfl)
  · have hdeclared : (Source.writeDefault s).declared = s.declared := by
      rw [Emitter.declared, Emitter.declared, hlines]
      simp [Emitter.top, Source.writeDefault, Emitter.write, Line.declared?]
    rw [hdeclared]
    exact h.declared

/-- Closing a switch, which is no scope. -/
theorem ScopedBy.leaveSwitch {id : NodeId} {hasDefault : Bool} {os : List Open}
    (h : ScopedBy s (b :: bs)) (hopened : s.opened = .switch id hasDefault :: os) :
    ScopedBy ({ s with indent := s.indent - 1, opened := os }.write .close) bs := by
  obtain ⟨hb, hmap, hbs⟩ := h.uncons hopened
  have hids := h.switch b List.mem_cons_self hb
  refine h.shut hbs (l := .close) rfl rfl (Emitter.lines_write _ _) rfl rfl (fun {j v} hv => ?_) rfl
    ?_ hmap (fun c hc => h.switch c (List.mem_cons_of_mem _ hc)) fun hkept => hkept
  · exact ⟨by simp [hids], hv⟩
  · refine h.scopes.trans ?_
    rw [List.filter_cons_of_neg (by simp [hb, Open.isSwitch])]

end constructs

/-! ### Every point of a replay -/

/-- The line that opens a construct may name what its operand names. -/
theorem needs_of_exprs {l : Line} {e : Expr} {t : Temp} {s : Emitter} (he : s.Shows e)
    (hl : l.needs = e.temps) (ht : t ∈ l.needs) : s.InScope t :=
  he t (hl ▸ ht)

/-- One event keeps the temporaries scoped. -/
theorem ScopedBy.emitted {s s' : Emitter} {bs : List Brace} {e : Event} {rest : List Event}
    (h : ScopedBy s bs) (hnested : Nested (s.opened.map Open.isSwitch) (e :: rest))
    (he : Emitted cx e s s') : ∃ bs', ScopedBy s' bs' := by
  cases he with
  | effectKnown => exact ⟨bs, h⟩
  | effectVoid hv hnode hvoid heval =>
    obtain ⟨outer, hinside⟩ := h.inside hnested.1
    obtain ⟨⟨b, hb, h⟩, _, hshows⟩ := hinside.evaluates heval
    exact ⟨_, h.write rfl fun t => needs_of_exprs (hshows _ List.mem_cons_self)
      (by simp [Line.needs, Line.reads, Line.exprs])⟩
  | effectKept hv hnode hvoid heval =>
    obtain ⟨outer, hinside⟩ := h.inside hnested.1
    obtain ⟨⟨b, hb, h⟩, _⟩ := hinside.evaluates heval
    exact ⟨_, h⟩
  | effectFresh hv hnode hvoid heval =>
    obtain ⟨outer, hinside⟩ := h.inside hnested.1
    obtain ⟨hinside, _, hshows⟩ := hinside.evaluates heval
    obtain ⟨⟨b, hb, h⟩, _⟩ := hinside.materialize (hshows _ List.mem_cons_self)
    exact ⟨_, h⟩
  | ret => exact ⟨bs, h.write rfl (by simp [Line.needs, Line.reads, Line.exprs])⟩
  | retValue hops heval =>
    obtain ⟨outer, hinside⟩ := h.inside hnested.1
    obtain ⟨⟨b, hb, h⟩, _, hshows⟩ := hinside.evaluates heval
    exact ⟨_, h.write rfl fun t => needs_of_exprs (hshows _ List.mem_cons_self)
      (by simp [Line.needs, Line.reads, Line.exprs])⟩
  | @startBlock b s s₁ hlabel hhoist =>
    obtain ⟨outer, hinside⟩ := h.inside hnested.1
    have hlabels : Inside outer { s with labels := b.label :: s.labels } :=
      hinside.congr rfl rfl rfl rfl rfl rfl
    obtain ⟨⟨_, _, h⟩, _⟩ := hlabels.hoists hhoist
    exact ⟨_, h.enter (l := .openBlock b) (fun _ => rfl) rfl
      (by simp [Line.needs, Line.reads, Line.exprs]) (Emitter.lines_write _ _) rfl rfl rfl rfl rfl⟩
  | @finishBlock b open_ used os s hopened hlabel =>
    obtain ⟨outer, brace, _, h⟩ := h.inside (by simp [hopened, Open.isSwitch])
    have hclosed := h.leave hopened rfl
    cases used with
    | true =>
      exact ⟨_, hclosed.write (l := .exitMark b.label) rfl
        (by simp [Line.needs, Line.reads, Line.exprs])⟩
    | false => exact ⟨_, hclosed⟩
  | startIf hops heval hhoist =>
    obtain ⟨outer, hinside⟩ := h.inside hnested.1
    obtain ⟨hinside, _, hshows⟩ := hinside.evaluates heval
    obtain ⟨⟨_, _, h⟩, hsees⟩ := hinside.hoists hhoist
    refine ⟨_, h.enter (l := .openIf _) (fun _ => rfl) rfl (fun t => ?_)
      (Emitter.lines_write _ _) rfl rfl rfl rfl rfl⟩
    exact needs_of_exprs (hsees.shows (hshows _ List.mem_cons_self))
      (by simp [Line.needs, Line.reads, Line.exprs])
  | startElse hopened =>
    obtain ⟨outer, _, _, h⟩ := h.inside (by simp [hopened, Open.isSwitch])
    exact ⟨_, h.swap hopened⟩
  | finishIf hopened =>
    obtain ⟨outer, _, _, h⟩ := h.inside (by simp [hopened, Open.isSwitch])
    exact ⟨_, h.leave hopened rfl⟩
  | startSwitch hops heval hhoist =>
    obtain ⟨outer, hinside⟩ := h.inside hnested.1
    obtain ⟨hinside, _, hshows⟩ := hinside.evaluates heval
    obtain ⟨⟨_, _, h⟩, hsees⟩ := hinside.hoists hhoist
    refine ⟨_, h.enter (l := .openSwitch _) (fun _ => rfl) rfl (fun t => ?_)
      (Emitter.lines_write _ _) rfl rfl rfl rfl rfl⟩
    exact needs_of_exprs (hsees.shows (hshows _ List.mem_cons_self))
      (by simp [Line.needs, Line.reads, Line.exprs])
  | @startCase id key hasDefault os s hopened =>
    have hmarked : ScopedBy { s with opened := .switch id (hasDefault || key.isNone) :: os } bs :=
      h.congr rfl rfl (by simp [hopened, Open.isSwitch]) rfl rfl rfl
    exact ⟨_, hmarked.enter (l := .openCase key) (fun _ => rfl) rfl
      (by simp [Line.needs, Line.reads, Line.exprs]) (Emitter.lines_write _ _) rfl rfl rfl rfl rfl⟩
  | @finishCase id os s hopened =>
    obtain ⟨outer, _, _, h⟩ := h.inside (by simp [hopened, Open.isSwitch])
    have hended : ScopedBy (s.write .endCase) _ :=
      h.write rfl (by simp [Line.needs, Line.reads, Line.exprs])
    exact ⟨_, hended.leave hopened rfl⟩
  | @finishSwitch id hasDefault os s s₁ hopened hdefault =>
    obtain ⟨hopened₁, h₁⟩ : s₁.opened = .switch id hasDefault :: os ∧ ScopedBy s₁ bs := by
      subst hdefault
      cases hasDefault with
      | true => exact ⟨hopened, h⟩
      | false => exact ⟨hopened, h.writeDefault⟩
    cases bs with
    | nil => simpa using h₁.opened
    | cons b outer => exact ⟨_, h₁.leaveSwitch hopened₁⟩
  | @leave source label s s₁ hblock hassign =>
    obtain ⟨outer, hinside⟩ := h.inside hnested.1
    have hmarked : Inside outer { s with opened := markExit label s.opened } :=
      hinside.congr rfl rfl (map_isSwitch_markExit label s.opened) rfl rfl rfl
    obtain ⟨_, _, h⟩ := hmarked.assigns hassign
    exact ⟨_, h.write rfl (by simp [Line.needs, Line.reads, Line.exprs])⟩
  | again hblock hloop hassign =>
    obtain ⟨outer, hinside⟩ := h.inside hnested.1
    obtain ⟨_, _, h⟩ := hinside.assigns hassign
    exact ⟨_, h.write rfl (by simp [Line.needs, Line.reads, Line.exprs])⟩
  | edge hassign =>
    obtain ⟨outer, hinside⟩ := h.inside hnested.1
    obtain ⟨_, _, h⟩ := hinside.assigns hassign
    exact ⟨_, h⟩

theorem scopedBy_start : ScopedBy (Emitter.start cx) [⟨true, [], []⟩] := by
  have hphis : ScopedBy (Emitter.declarePhis cx {}) [⟨true, [], []⟩] := by
    apply Emitter.declarePhis_induct (P := fun s => ScopedBy s [⟨true, [], []⟩])
    · refine ⟨rfl, rfl, rfl, by simp, (fun hv => by cases hv), ?_, List.Perm.refl _⟩
      intro before l after hlines
      simp [Emitter.lines] at hlines
    · exact fun _ h => h.declareTop rfl rfl
  exact hphis.congr rfl rfl rfl rfl rfl rfl

theorem Reached.scopedBy {done rest : List Event} {s : Emitter} (h : Reached cx done rest s) :
    ∃ bs, ScopedBy s bs := by
  refine h.induct (motive := fun _ _ s => ∃ bs, ScopedBy s bs) ⟨_, scopedBy_start⟩ ?_
  intro done rest e s s' hreached he ⟨bs, hs⟩
  exact hs.emitted hreached.nested he

/-- The temporaries of open braces were declared by lines. -/
theorem declared_of_mem_braces {lines : List Line} {scope : List Temp} {t : Temp}
    (hscope : scope ∈ braces lines) (ht : t ∈ scope) : t ∈ lines.filterMap Line.declared? := by
  induction lines using List.reverseRecOn generalizing scope with
  | nil =>
    obtain rfl : scope = [] := by simpa [braces] using hscope
    cases ht
  | append_singleton lines l ih =>
    have hold : ∀ {scope}, scope ∈ braces lines → t ∈ scope →
        t ∈ (lines ++ [l]).filterMap Line.declared? := fun hmem ht => by
      rw [List.filterMap_append]
      exact List.mem_append_left _ (ih hmem ht)
    rw [braces_concat] at hscope
    cases l with
    | define _ _ t' _ | stage _ t' _ =>
      cases hb : braces lines with
      | nil => simp [Line.brace, hb] at hscope
      | cons head outer =>
        rw [Line.brace, hb, List.modifyHead_cons] at hscope
        rcases List.mem_cons.1 hscope with rfl | hscope
        · rcases List.mem_cons.1 ht with rfl | ht
          · simp [Line.declared?]
          · exact hold (hb ▸ List.mem_cons_self) ht
        · exact hold (hb ▸ List.mem_cons_of_mem _ hscope) ht
    | openBlock | openIf | openSwitch | openCase =>
      rcases List.mem_cons.1 hscope with rfl | hscope
      · cases ht
      · exact hold hscope ht
    | otherwise =>
      rcases List.mem_cons.1 hscope with rfl | hscope
      · cases ht
      · exact hold (List.mem_of_mem_tail hscope) ht
    | close => exact hold (List.mem_of_mem_tail hscope) ht
    | _ => exact hold hscope ht

/-- At every point of a replay, whatever a line names without declaring it is declared at the top or in
a brace that is open there; every name written so far is declared exactly once; and whatever is
remembered as the name of a value can still be named. -/
theorem temporaries_in_scope {done rest : List Event} {s : Emitter}
    (h : Reached cx done rest s) :
    WellScoped s.top s.lines ∧
      (∀ l ∈ s.lines, ∀ t ∈ l.names, (s.declared.map Temp.name).count t.name = 1) ∧
      (s.declared.map Temp.index).Perm (List.range s.counter) ∧
      ∀ id v, s.value? id = some v → ∃ t, v.expr = .temp t ∧ s.InScope t := by
  obtain ⟨bs, hs⟩ := h.scopedBy
  have hnodup : (s.declared.map Temp.name).Nodup := by
    refine List.Nodup.map Temp.name_injective (List.Nodup.of_map Temp.index ?_)
    exact hs.declared.nodup_iff.2 List.nodup_range
  refine ⟨hs.wellScoped, fun l hl t ht => ?_, hs.declared, fun id v hv => ?_⟩
  · obtain ⟨before, after, hlines⟩ := List.append_of_mem hl
    have hmem : t ∈ s.declared := by
      refine List.mem_append.2 ?_
      rcases List.mem_append.1 ht with ht | ht
      · rcases hs.wellScoped before l after hlines t ht with ht | ⟨scope, hscope, ht⟩
        · exact .inl ht
        · rw [hlines, List.filterMap_append]
          exact .inr (List.mem_append_left _ (declared_of_mem_braces hscope ht))
      · exact .inr (List.mem_filterMap.2 ⟨l, hl, by simpa using ht⟩)
    exact List.count_eq_one_of_mem hnodup (List.mem_map_of_mem hmem)
  · obtain ⟨t, ht, hkept⟩ := hs.bound hv
    exact ⟨t, ht, hs.inScope hkept⟩

/-- A value that is shared between a loop with a switch in it and the code after the loop. -/
def sharedAfterLoop : Context where
  cls := { name := ⟨"Kernel"⟩ }
  method :=
    { name := "run"
      params := [⟨"n", .int⟩, ⟨"xs", .array .int⟩]
      graph := ⟨#[.param 0 .int, .param 1 (.array .int), ⟨.arrayLoad, .int, [1, 0]⟩,
        ⟨.binary .add, .int, [2, 0]⟩, .arrayStore 1 3 3, .arrayStore 1 0 3,
        ⟨.switch .lookup, .void, [3]⟩, .marker .goto]⟩
      body := [
        .block ⟨"L", true⟩ [
          .effect 2,
          .switch 6 [(1, [.effect 4, .again 7 "L"])] [.leave 7 "L"]],
        .effect 5] }

theorem temporaries_in_scope_sharedAfterLoop :
    ∃ s, Reached sharedAfterLoop (bodyEvents sharedAfterLoop.method.body) [] s ∧
      WellScoped s.top s.lines ∧
      ∀ l ∈ s.lines, ∀ t ∈ l.names, (s.declared.map Temp.name).count t.name = 1 := by
  obtain ⟨_, s, hrun⟩ := Emit.exists_ok (replay (emitEvent sharedAfterLoop)
    sharedAfterLoop.method.body) (Emitter.start sharedAfterLoop) (by cbv)
  have hreached : Reached sharedAfterLoop (bodyEvents sharedAfterLoop.method.body) [] s :=
    replay_ok_iff.1 hrun
  obtain ⟨hscoped, hnames, -⟩ := temporaries_in_scope hreached
  exact ⟨s, hreached, hscoped, hnames⟩

end KernelForge.Source
