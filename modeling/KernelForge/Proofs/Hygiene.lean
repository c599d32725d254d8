import KernelForge.Proofs.Calls
import KernelForge.Proofs.Scoping

/-!
# Names of the variables of a function

The variables of a generated function are its parameters, with the kernel arguments among them, and
its temporaries. All of them have identifiers. One count numbers the temporaries, those of phis
first, so no two of them have one name. A parameter has the identifier of its own name, and nothing
keeps the identifiers of parameters apart from each other or from the names of temporaries: the
variables have different names exactly if the parameters happen to be named so
(`variables_nodup_iff`).
-/

namespace KernelForge

/-! ### Identifiers -/

namespace Identifier

theorem isPart_clean (c : Char) : isPart (clean c) = true := by
  unfold clean
  split_ifs with h
  · exact h
  · decide

/-- Cleaning makes no digit out of another character. -/
theorem isDigit_clean {c : Char} (h : c.isDigit = false) : (clean c).isDigit = false := by
  unfold clean
  split_ifs
  · exact h
  · decide

theorem isIdentifier_ofChars (cs : List Char) : IsIdentifier (ofChars cs) := by
  have hclean : ∀ c ∈ cs.map clean, isPart c = true := by
    intro c hc
    obtain ⟨c, -, rfl⟩ := List.mem_map.1 hc
    exact isPart_clean c
  unfold ofChars
  split_ifs with hlead
  · exact ⟨rfl, List.forall_mem_cons.2 ⟨by decide, hclean⟩⟩
  · refine ⟨?_, hclean⟩
    cases cs with
    | nil => exact absurd rfl hlead
    | cons c cs => exact isDigit_clean (by simpa [needsLead] using hlead)

theorem isIdentifier_ofName (name : String) : IsIdentifier (ofName name).toList := by
  rw [ofName, String.toList_ofList]
  exact isIdentifier_ofChars name.toList

/-- A name that is an identifier stands for itself. -/
theorem ofName_eq_self {name : String} (h : IsIdentifier name.toList) : ofName name = name := by
  obtain ⟨hlead, hparts⟩ := h
  have hclean : ∀ c ∈ name.toList, clean c = c := by
    intro c hc
    rw [clean, if_pos (hparts c hc)]
  have hmap : name.toList.map clean = name.toList :=
    (List.map_congr_left hclean).trans (List.map_id' _)
  rw [ofName, ofChars, hlead, hmap]
  exact String.ofList_toList

end Identifier

namespace Source

/-- A temporary is named by letters and the digits of its index. -/
theorem Temp.isIdentifier_name (t : Temp) : Identifier.IsIdentifier t.name.toList := by
  have hdigits : ∀ c ∈ Nat.toDigits 10 t.index, Identifier.isPart c = true := by
    intro c hc
    have hdigit : c.isDigit = true := Nat.isDigit_of_mem_toDigits (by decide) (by decide) hc
    simp [Identifier.isPart, Char.isAlphanum, hdigit]
  have hindex : (toString t.index).toList = Nat.toDigits 10 t.index := by simp
  obtain ⟨letters, hname, hlead, hletters⟩ : ∃ letters, t.name.toList =
      letters ++ Nat.toDigits 10 t.index ∧ (∀ cs, Identifier.needsLead (letters ++ cs) = false) ∧
        letters.all Identifier.isPart = true := by
    unfold Temp.name
    cases t.kind with
    | var =>
      exact ⟨['v', 'a', 'r'], by rw [String.toList_append, hindex]; rfl, fun _ => rfl, by decide⟩
    | phi =>
      exact ⟨['p', 'h', 'i'], by rw [String.toList_append, hindex]; rfl, fun _ => rfl, by decide⟩
  rw [hname]
  refine ⟨hlead _, fun c hc => ?_⟩
  exact (List.mem_append.1 hc).elim (List.all_eq_true.1 hletters c) (hdigits c)

/-! ### Handing out temporaries -/

variable {cx : Context} {s s' : Emitter}

/-- What is declared after declarations and lines were added. -/
theorem Emitter.mem_declared_of_append (ds : List Declaration) (ls : List Line) {t : Temp}
    (hdeclarations : s'.declarations = s.declarations ++ ds) (hlines : s'.lines = s.lines ++ ls)
    (ht : t ∈ s'.declared) :
    t ∈ s.declared ∨ t ∈ ds.map Declaration.temp ++ ls.filterMap Line.declared? := by
  rw [Emitter.declared, Emitter.top, hdeclarations, hlines, List.map_append,
    List.filterMap_append] at ht
  simp only [Emitter.declared, Emitter.top, List.mem_append] at ht ⊢
  tauto

/-- Whatever was declared between two emitters has a number that had not been handed out, and is no
phi. -/
structure HandsOut (s s' : Emitter) : Prop where
  counter : s.counter ≤ s'.counter
  new : ∀ t ∈ s'.declared, t ∈ s.declared ∨ t.kind = .var ∧ s.counter ≤ t.index

namespace HandsOut

@[refl] theorem refl (s : Emitter) : HandsOut s s :=
  ⟨le_rfl, fun _ ht => .inl ht⟩

theorem trans {s₁ s₂ s₃ : Emitter} (h₁ : HandsOut s₁ s₂) (h₂ : HandsOut s₂ s₃) :
    HandsOut s₁ s₃ := by
  refine ⟨h₁.counter.trans h₂.counter, fun t ht => ?_⟩
  obtain ht | ⟨hkind, hindex⟩ := h₂.new t ht
  · exact h₁.new t ht
  · exact .inr ⟨hkind, h₁.counter.trans hindex⟩

/-- Declarations and lines are added that declare at most the next temporary. -/
theorem of_append (ds : List Declaration) (ls : List Line) (hcounter : s.counter ≤ s'.counter)
    (hdeclarations : s'.declarations = s.declarations ++ ds) (hlines : s'.lines = s.lines ++ ls)
    (hnew : ∀ t ∈ ds.map Declaration.temp ++ ls.filterMap Line.declared?, t = s.nextTemp .var) :
    HandsOut s s' := by
  refine ⟨hcounter, fun t ht => ?_⟩
  obtain ht | ht := Emitter.mem_declared_of_append ds ls hdeclarations hlines ht
  · exact .inl ht
  · rw [hnew t ht]
    exact .inr ⟨rfl, le_rfl⟩

/-- Lines are added that declare nothing. -/
theorem of_lines (ls : List Line) (hcounter : s'.counter = s.counter)
    (hdeclarations : s'.declarations = s.declarations) (hlines : s'.lines = s.lines ++ ls)
    (hls : ls.filterMap Line.declared? = []) : HandsOut s s' :=
  of_append [] ls hcounter.ge (by simp [hdeclarations]) hlines (by simp [hls])

/-- Neither the count nor anything declared changes. -/
theorem of_eq (hcounter : s'.counter = s.counter) (hdeclarations : s'.declarations = s.declarations)
    (hlines : s'.lines = s.lines) : HandsOut s s' :=
  of_lines [] hcounter hdeclarations (by simp [hlines]) rfl

theorem write (h : HandsOut s s') {l : Line} (hl : l.declared? = none) :
    HandsOut s (s'.write l) :=
  h.trans (of_lines _ rfl rfl (s'.lines_write l) (by simp [hl]))

theorem materialize (h : HandsOut s s') (id : NodeId) (ty : Ty) (e : Expr) (keep : Bool) :
    HandsOut s (s'.materialize cx id ty e keep) := by
  refine h.trans ?_
  have hlines := s'.lines_materialize cx id ty e keep
  rw [Emitter.materialize_eq] at hlines ⊢
  refine of_append _ _ (Nat.le_succ _) rfl hlines fun t ht => ?_
  rw [Emitter.keepLine] at ht
  cases hapart : s'.isApart keep with
  | true => simpa [hapart, Line.declared?, Declaration.temp] using ht
  | false => simpa [hapart, Line.declared?] using ht

end HandsOut

theorem Produced.handsOut {id : NodeId} {node : Node} {args : List Value} {v : Value}
    (h : Produced cx id node args s v s') : HandsOut s s' := by
  have hrender : HandsOut s (s.render id) := .of_eq rfl rfl rfl
  cases h with
  | inline => exact hrender
  | kept => exact hrender.materialize ..
  | @array element length =>
    refine .of_append _ [] (Nat.le_succ _) rfl (List.append_nil _).symm fun t ht => ?_
    simpa [Declaration.temp] using ht

theorem Evaluates.handsOut {ids : List NodeId} {vs : List Value}
    (h : Evaluates cx ids s vs s') : HandsOut s s' := by
  induction h with
  | nil s => exact .refl s
  | known _ _ ih => exact ih
  | render _ _ _ _ hprod _ ihargs ihrest => exact (ihargs.trans hprod.handsOut).trans ihrest

theorem Binds.handsOut {unstable ids : List NodeId} (h : Binds cx unstable ids s s') :
    HandsOut s s' := by
  induction h with
  | nil s => exact .refl s
  | known _ _ ih => exact ih
  | now _ _ heval _ ih => exact heval.handsOut.trans ih
  | pin _ _ ih => exact ⟨ih.counter, ih.new⟩

theorem Hoists.handsOut {anchor : Anchor} (h : Hoists cx anchor s s') : HandsOut s s' := by
  cases h with
  | nothing _ h => exact h ▸ .refl s
  | planned _ h => exact ⟨h.handsOut.counter, h.handsOut.new⟩

theorem FlowsIn.handsOut {staged : Bool} {moves : List (NodeId × NodeId)}
    {assignments : List (NodeId × Expr)} (h : FlowsIn cx staged moves s assignments s') :
    HandsOut s s' := by
  induction h with
  | nil s => exact .refl s
  | direct heval _ _ _ ih => exact heval.handsOut.trans ih
  | @stage _ _ _ s s₁ _ v _ _ heval _ ih =>
    refine (heval.handsOut.trans ?_).trans ih
    refine .of_append [] _ (Nat.le_succ _) (List.append_nil _).symm
      (s₁.countTemp.lines_write _) fun t ht => ?_
    simpa [Line.declared?] using ht

theorem Feeds.handsOut {assignments : List (NodeId × Expr)} (h : Feeds assignments s s') :
    HandsOut s s' := by
  induction h with
  | nil s => exact .refl s
  | cons _ _ ih => exact ((HandsOut.refl _).write rfl).trans ih

theorem Assigns.handsOut {source : NodeId} (h : Assigns cx source s s') : HandsOut s s' := by
  obtain ⟨_, hin, hfeed⟩ := h
  exact hin.handsOut.trans hfeed.handsOut

theorem HandsOut.closeScope (h : HandsOut s s') : HandsOut s s'.closeScope :=
  h.trans (.of_eq s'.counter_closeScope s'.declarations_closeScope s'.lines_closeScope)

theorem HandsOut.closed (h : HandsOut s s') (rest : List Open) : HandsOut s (s'.closed rest) := by
  have hopened : HandsOut s { s' with opened := rest } := ⟨h.counter, h.new⟩
  exact hopened.closeScope.write rfl

/-- An event hands out temporaries for values only. -/
theorem Emitted.handsOut {e : Event} (h : Emitted cx e s s') : HandsOut s s' := by
  cases h with
  | effectKnown => exact .refl s
  | effectVoid _ _ _ heval => exact heval.handsOut.write rfl
  | effectKept _ _ _ heval => exact heval.handsOut
  | effectFresh _ _ _ heval => exact heval.handsOut.materialize ..
  | ret => exact (HandsOut.refl s).write rfl
  | retValue _ heval => exact heval.handsOut.write rfl
  | @startBlock b _ _ _ hhoist =>
    have hopen := hhoist.handsOut.write (l := .openBlock b) rfl
    exact ⟨hopen.counter, hopen.new⟩
  | @finishBlock b _ used rest =>
    have hclosed := (HandsOut.refl s).closed rest
    cases used with
    | true => exact hclosed.write (l := .exitMark b.label) rfl
    | false => exact hclosed
  | @startIf _ _ _ _ _ v _ heval hhoist =>
    have hopen := (heval.handsOut.trans hhoist.handsOut).write (l := .openIf v.expr) rfl
    exact ⟨hopen.counter, hopen.new⟩
  | @startElse id rest =>
    have hopened : HandsOut s { s with opened := .branch id true :: rest } := .of_eq rfl rfl rfl
    have helse := hopened.closeScope.write (l := .otherwise) rfl
    exact ⟨helse.counter, helse.new⟩
  | @finishIf _ _ rest => exact (HandsOut.refl s).closed rest
  | @startSwitch _ _ _ _ _ v _ heval hhoist =>
    have hopen := (heval.handsOut.trans hhoist.handsOut).write (l := .openSwitch v.expr) rfl
    exact ⟨hopen.counter, hopen.new⟩
  | @startCase _ key =>
    have hopen := (HandsOut.refl s).write (l := .openCase key) rfl
    exact ⟨hopen.counter, hopen.new⟩
  | @finishCase _ rest => exact ((HandsOut.refl s).write rfl).closed rest
  | @finishSwitch _ hasDefault rest _ s₁ _ hdefault =>
    have hs₁ : HandsOut s s₁ := by
      rw [hdefault]
      split_ifs
      · exact .refl s
      · exact .of_lines _ rfl rfl (lines_writeDefault s) rfl
    have hopened : HandsOut s { s₁ with indent := s₁.indent - 1, opened := rest } :=
      ⟨hs₁.counter, hs₁.new⟩
    exact hopened.write rfl
  | @leave _ label _ _ _ hassign =>
    have hmarked : HandsOut s { s with opened := markExit label s.opened } := .of_eq rfl rfl rfl
    exact (hmarked.trans hassign.handsOut).write rfl
  | again _ _ hassign => exact hassign.handsOut.write rfl
  | edge hassign => exact hassign.handsOut

/-! ### The temporaries of a function -/

/-- The temporary of a number in a function with so many phis: the phis come first. -/
def tempAt (phis i : Nat) : Temp :=
  ⟨if i < phis then .phi else .var, i⟩

/-- Nothing but phis is declared at the start. -/
theorem kind_of_mem_start {t : Temp} (h : t ∈ (Emitter.start cx).declared) : t.kind = .phi := by
  have hphis : ∀ t ∈ (Emitter.declarePhis cx {}).declared, t.kind = .phi := by
    apply Emitter.declarePhis_induct (P := fun s => ∀ t ∈ s.declared, t.kind = .phi)
    · simp [Emitter.lines, Emitter.declared, Emitter.top]
    · intro s phi _ hkind t ht
      have hlines : (s.declarePhi cx phi).lines = s.lines ++ [] := (List.append_nil s.lines).symm
      obtain ht | ht := Emitter.mem_declared_of_append _ [] rfl hlines ht
      · exact hkind t ht
      · obtain rfl := List.mem_singleton.1 ht
        rfl
  exact hphis t h

theorem Reached.handsOut {done rest : List Event} (h : Reached cx done rest s) :
    HandsOut (Emitter.start cx) s :=
  h.induct (motive := fun _ _ s => HandsOut (Emitter.start cx) s) (.refl _) fun _ he h =>
    h.trans he.handsOut

/-- The temporaries declared at some point are the first ones, in some order. -/
theorem Reached.declared_perm {done rest : List Event} (h : Reached cx done rest s) :
    s.declared.Perm ((List.range s.counter).map (tempAt cx.graph.phis.length)) := by
  have hkind : ∀ t ∈ s.declared, tempAt cx.graph.phis.length t.index = t := by
    intro t ht
    obtain ht | ⟨hkind, hindex⟩ := h.handsOut.new t ht
    · have hindex : t.index ∈ List.range (Emitter.start cx).counter :=
        scopedBy_start.declared.subset (List.mem_map_of_mem ht)
      rw [Emitter.counter_start, List.mem_range] at hindex
      rw [tempAt, if_pos hindex, ← kind_of_mem_start ht]
    · rw [Emitter.counter_start] at hindex
      rw [tempAt, if_neg (Nat.not_lt.2 hindex), ← hkind]
  obtain ⟨bs, hs⟩ := h.scopedBy
  have hself : s.declared.map (tempAt cx.graph.phis.length ∘ Temp.index) = s.declared :=
    (List.map_congr_left hkind).trans (List.map_id' _)
  have hnumbers := hs.declared.map (tempAt cx.graph.phis.length)
  rwa [List.map_map, hself] at hnumbers

/-! ### The variables of a function -/

/-- The name that a parameter has in the analysed program. -/
def Parameter.name : Parameter → String
  | .own v | .argument v => v.name

/-- The name that a parameter is declared by. -/
def Parameter.identifier (p : Parameter) : String :=
  Identifier.ofName p.name

/-- The names of the variables that a function declares: its parameters and its temporaries. -/
def Function.variables (cls : KernelClass) (f : Function) (s : Emitter) : List String :=
  (f.parameters cls).map Parameter.identifier ++ s.declared.map Temp.name

/-- Different parameters have different identifiers, and none of them is the name of one of the
first `n` temporaries. -/
structure Function.KeepsApart (cls : KernelClass) (f : Function) (n : Nat) : Prop where
  distinct : ∀ p ∈ f.parameters cls, ∀ q ∈ f.parameters cls, p.identifier = q.identifier →
    p.name = q.name
  unreserved : ∀ p ∈ f.parameters cls, ∀ i < n,
    p.identifier ≠ (tempAt f.method.graph.phis.length i).name

section names

variable {cls : KernelClass} {f : Function}

theorem isIdentifier_of_mem_variables {name : String} (h : name ∈ f.variables cls s) :
    Identifier.IsIdentifier name.toList := by
  obtain h | h := List.mem_append.1 h
  · obtain ⟨p, -, rfl⟩ := List.mem_map.1 h
    exact Identifier.isIdentifier_ofName p.name
  · obtain ⟨t, -, rfl⟩ := List.mem_map.1 h
    exact t.isIdentifier_name

/-- Kernel arguments and own parameters are named apart in the analysed program. -/
theorem nodup_names (hfields : (cls.fields.map Variable.name).Nodup)
    (hparams : (f.method.params.map Variable.name).Nodup)
    (hdisjoint : (f.method.params.map Variable.name).Disjoint (cls.fields.map Variable.name)) :
    ((f.parameters cls).map Parameter.name).Nodup := by
  have hown : (f.method.params.map Parameter.own).map Parameter.name =
      f.method.params.map Variable.name := by
    rw [List.map_map]
    rfl
  have hargument : (cls.fields.map Parameter.argument).map Parameter.name =
      cls.fields.map Variable.name := by
    rw [List.map_map]
    rfl
  unfold Function.parameters
  cases f.role with
  | entry =>
    rw [List.map_append, hown, hargument]
    exact hfields.append hparams hdisjoint.symm
  | helper =>
    rw [List.map_append, hown, hargument]
    exact hparams.append hfields hdisjoint

/-- The temporaries have different names, so only those of the parameters matter. -/
theorem nodup_variables_iff (hnames : ((f.parameters cls).map Parameter.name).Nodup)
    (hdeclared : s.declared.Perm
      ((List.range s.counter).map (tempAt f.method.graph.phis.length))) :
    (f.variables cls s).Nodup ↔ f.KeepsApart cls s.counter := by
  have hidentifiers : ((f.parameters cls).map Parameter.identifier).Nodup ↔
      ∀ p ∈ f.parameters cls, ∀ q ∈ f.parameters cls, p.identifier = q.identifier →
        p.name = q.name := by
    have hmap : (f.parameters cls).map Parameter.identifier =
        ((f.parameters cls).map Parameter.name).map Identifier.ofName := by
      rw [List.map_map]
      rfl
    rw [hmap, List.nodup_map_iff_inj_on hnames]
    simp [Parameter.identifier]
  have htemps : (s.declared.map Temp.name).Nodup := by
    refine List.Nodup.map Temp.name_injective (hdeclared.nodup_iff.2 ?_)
    refine List.nodup_range.map fun i j h => ?_
    exact congrArg Temp.index h
  have happart : (∀ a ∈ (f.parameters cls).map Parameter.identifier,
      ∀ b ∈ s.declared.map Temp.name, a ≠ b) ↔ ∀ p ∈ f.parameters cls, ∀ i < s.counter,
        p.identifier ≠ (tempAt f.method.graph.phis.length i).name := by
    simp [hdeclared.mem_iff]
  rw [Function.variables, List.nodup_append, hidentifiers, happart]
  exact ⟨fun ⟨hdistinct, _, hunreserved⟩ => ⟨hdistinct, hunreserved⟩,
    fun h => ⟨h.distinct, htemps, h.unreserved⟩⟩

/-- Nothing but the names of temporaries is in the way of names that are identifiers already. -/
theorem keepsApart_of_isIdentifier {n : Nat}
    (hidentifiers : ∀ p ∈ f.parameters cls, Identifier.IsIdentifier p.name.toList)
    (hunreserved : ∀ p ∈ f.parameters cls, ∀ t : Temp, p.name ≠ t.name) : f.KeepsApart cls n := by
  have hself : ∀ p ∈ f.parameters cls, p.identifier = p.name :=
    fun p hp => Identifier.ofName_eq_self (hidentifiers p hp)
  constructor
  · intro p hp q hq h
    rwa [hself p hp, hself q hq] at h
  · intro p hp i _
    rw [hself p hp]
    exact hunreserved p hp _

/-- The text of a definition is its header and what the emitter holds at the end. -/
theorem text_of_definition {text : String} (h : (Item.definition f).text cls = .ok text) :
    ∃ s, Reached ⟨cls, f.method⟩ (bodyEvents f.method.body) [] s ∧
      text = definitionText (f.result cls ++ " " ++ f.name ++ "(" ++
        parameterText ((f.parameters cls).map (Parameter.declare cls.metadata)) ++ ")")
        (s.declarations.map Declaration.render) s.text := by
  obtain ⟨⟨header, hheader⟩, out, hout⟩ := definition_ok h
  obtain ⟨s, hs, hfinish⟩ := reached_of_emitBody hout
  refine ⟨s, hs, ?_⟩
  rw [← signature_ok hheader]
  simp only [Item.text, hheader, hout, finish_eq hfinish, bind, Except.bind] at h
  exact (Except.ok.inj h).symm

theorem mem_methods_of_mem_functions {entry : Method} (hentry : cls.entry? = some entry)
    (hf : f ∈ functions cls entry) : f.method ∈ cls.methods := by
  obtain h | h := List.mem_cons.1 (method_of_mem_functions hf)
  · rw [h]
    exact List.mem_of_find?_eq_some hentry
  · exact List.mem_of_mem_filter h

end names

/-- In a generated unit all variables of a function are identifiers, and its temporaries are the
first ones of one count. They have different names exactly if the identifiers of parameters are
different and none is the name of a temporary. -/
theorem variables_nodup_iff {cls : KernelClass} {src : KernelSource}
    (hfields : (cls.fields.map Variable.name).Nodup)
    (hparams : ∀ m ∈ cls.methods, (m.params.map Variable.name).Nodup ∧
      (m.params.map Variable.name).Disjoint (cls.fields.map Variable.name))
    (h : generate cls = .ok src) :
    ∃ entry texts, cls.entry? = some entry ∧
      (items cls entry).mapM (Item.text cls) = .ok texts ∧ src.text = String.join texts ∧
      ∀ f ∈ functions cls entry, ∃ s,
        Reached ⟨cls, f.method⟩ (bodyEvents f.method.body) [] s ∧
        (Item.definition f).text cls = .ok (definitionText (f.result cls ++ " " ++ f.name ++ "(" ++
          parameterText ((f.parameters cls).map (Parameter.declare cls.metadata)) ++ ")")
          (s.declarations.map Declaration.render) s.text) ∧
        (∀ name ∈ f.variables cls s, Identifier.IsIdentifier name.toList) ∧
        s.declared.Perm ((List.range s.counter).map (tempAt f.method.graph.phis.length)) ∧
        ((f.variables cls s).Nodup ↔ f.KeepsApart cls s.counter) := by
  obtain ⟨entry, texts, hentry, htexts, htext⟩ := generate_ok h
  refine ⟨entry, texts, hentry, htexts, htext, fun f hf => ?_⟩
  obtain ⟨text, -, hdefinition⟩ := exists_mem_of_mapM_ok htexts (mem_functions.1 hf)
  obtain ⟨s, hs, rfl⟩ := text_of_definition hdefinition
  obtain ⟨hown, hdisjoint⟩ := hparams f.method (mem_methods_of_mem_functions hentry hf)
  exact ⟨s, hs, hdefinition, fun name hname => isIdentifier_of_mem_variables hname,
    hs.declared_perm, nodup_variables_iff (nodup_names hfields hown hdisjoint) hs.declared_perm⟩

/-- An entry that counts in an array. -/
def fill : Method where
  name := entryName
  params := [⟨"n", .int⟩]
  graph := ⟨#[.receiver ⟨"Kernel"⟩, .getField 0 "data" (.array .int), .param 0 .int, .int 0, .int 1,
    .marker .start, .marker .goto, .marker .goto, .phi .int [(5, 3), (6, 9)],
    ⟨.binary .add, .int, [8, 4]⟩, .arrayStore 1 3 9, .compare .lt 8 2, .branch 11]⟩
  body := [
    .edge 5,
    .block ⟨"L", true⟩ [
      .effect 10,
      .branch 12 [.again 6 "L"] [.leave 7 "L"]]]

def filling : KernelClass where
  name := ⟨"Kernel"⟩
  fields := [⟨"data", .array .int⟩]
  methods := [fill]

theorem variables_nodup_iff_filling :
    ∃ src s, generate filling = .ok src ∧
      Reached ⟨filling, fill⟩ (bodyEvents fill.body) [] s ∧
      Function.variables filling ⟨.entry, fill⟩ s = ["data", "n", "phi0", "var1"] ∧
      (Function.variables filling ⟨.entry, fill⟩ s).Nodup := by
  have hentry : filling.entry? = some fill := by cbv
  have hhelpers : filling.helpers = [] := by cbv
  obtain ⟨src, hsrc⟩ : ∃ src, generate filling = .ok src := by
    refine exists_generate hentry rfl ?_
    rw [hhelpers]
    exact List.forall_mem_singleton.2 (exists_emitBody (by cbv))
  obtain ⟨entry, -, hentry', -, -, hfunctions⟩ :=
    variables_nodup_iff (by decide) (by simp [filling, fill]) hsrc
  obtain rfl := Option.some.inj (hentry.symm.trans hentry')
  obtain ⟨s, hs, -, -, -, hnodup⟩ := hfunctions ⟨.entry, fill⟩ (by simp [functions_eq])
  have hcounter : s.counter = 2 := eq_of_reached (f := Emitter.counter) hs (by cbv)
  have hdeclared : s.declared = [⟨.phi, 0⟩, ⟨.var, 1⟩] :=
    eq_of_reached (f := Emitter.declared) hs (by cbv)
  have hparameters : Function.parameters filling ⟨.entry, fill⟩ =
      [.argument ⟨"data", .array .int⟩, .own ⟨"n", .int⟩] := rfl
  have hkeeps : Function.KeepsApart filling ⟨.entry, fill⟩ s.counter := by
    rw [hcounter]
    refine ⟨?_, ?_⟩
    · rw [hparameters]
      decide
    · rw [hparameters]
      decide
  refine ⟨src, s, hsrc, hs, ?_, hnodup.2 hkeeps⟩
  rw [Function.variables, hparameters, hdeclared]
  decide

/-- An entry that loads the first element of an array and stores it in the same place. -/
def touch : Method where
  name := entryName
  graph := ⟨#[.receiver ⟨"Kernel"⟩, .getField 0 "var0" (.array .int), .int 0,
    ⟨.arrayLoad, .int, [1, 2]⟩, .arrayStore 1 2 3]⟩
  body := [.effect 3, .effect 4]

/-- A class with a field that is called like a temporary. -/
def touching : KernelClass where
  name := ⟨"Kernel"⟩
  fields := [⟨"var0", .array .int⟩]
  methods := [touch]

/-- The loaded element hides the array that it is loaded from. -/
theorem variables_clash_touching :
    (touching.fields.map Variable.name).Nodup ∧
      (∀ m ∈ touching.methods, (m.params.map Variable.name).Nodup ∧
        (m.params.map Variable.name).Disjoint (touching.fields.map Variable.name)) ∧
      ∃ src s, generate touching = .ok src ∧
        Reached ⟨touching, touch⟩ (bodyEvents touch.body) [] s ∧
        s.lines = [.define 3 "int" ⟨.var, 0⟩ (.element (.name "var0") (.int 0)),
          .effect 4 (.assign (.element (.name "var0") (.int 0)) (.temp ⟨.var, 0⟩))] ∧
        Function.variables touching ⟨.entry, touch⟩ s = ["var0", "var0"] ∧
        ¬ (Function.variables touching ⟨.entry, touch⟩ s).Nodup := by
  have hentry : touching.entry? = some touch := by cbv
  have hhelpers : touching.helpers = [] := by cbv
  obtain ⟨out, hout⟩ : ∃ out, emitBody ⟨touching, touch⟩ = .ok out := exists_emitBody (by cbv)
  obtain ⟨s, hs, -⟩ := reached_of_emitBody hout
  have hsrc : ∃ src, generate touching = .ok src := by
    refine exists_generate hentry rfl ?_
    rw [hhelpers]
    exact List.forall_mem_singleton.2 ⟨out, hout⟩
  have hlines : s.lines = [.define 3 "int" ⟨.var, 0⟩ (.element (.name "var0") (.int 0)),
      .effect 4 (.assign (.element (.name "var0") (.int 0)) (.temp ⟨.var, 0⟩))] :=
    eq_of_reached (f := Emitter.lines) hs (by cbv)
  have hdeclared : s.declared = [⟨.var, 0⟩] := eq_of_reached (f := Emitter.declared) hs (by cbv)
  have hvariables : Function.variables touching ⟨.entry, touch⟩ s = ["var0", "var0"] := by
    have hparameters : Function.parameters touching ⟨.entry, touch⟩ =
        [.argument ⟨"var0", .array .int⟩] := rfl
    rw [Function.variables, hparameters, hdeclared]
    decide
  obtain ⟨src, hsrc⟩ := hsrc
  refine ⟨by decide, by simp [touching, touch], src, s, hsrc, hs, hlines, hvariables, ?_⟩
  rw [hvariables]
  decide

end Source

end KernelForge
