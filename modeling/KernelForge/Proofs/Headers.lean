import KernelForge.Proofs.Declarations
import KernelForge.Proofs.Hygiene

/-!
# Identifiers and the headers of kernels

Whatever is named in the analysed program is written as `Identifier.ofName` of its name. That is an
identifier for every name, and names that are identifiers are left as they are. So a name that is
written at two places reads alike at both. For the entry function it shows: the lines of a unit
declare a kernel of the name that is handed out with the unit (`mem_kernelNames_of_generate`). They
declare no other, unless the spelling of a type has a line end or looks like the start of a kernel
(`kernelNames_of_generate`).
-/

namespace KernelForge

/-! ### Identifiers -/

namespace Identifier

/-- An identifier of the kernel language by its characters. -/
structure IsLegal (name : String) : Prop where
  nonempty : name ≠ ""
  characters : ∀ c ∈ name.toList,
    'A' ≤ c ∧ c ≤ 'Z' ∨ 'a' ≤ c ∧ c ≤ 'z' ∨ '0' ≤ c ∧ c ≤ '9' ∨ c = '_'
  head : ∀ c ∈ name.toList.head?, ¬ ('0' ≤ c ∧ c ≤ '9')

theorem isDigit_iff {c : Char} : c.isDigit = true ↔ '0' ≤ c ∧ c ≤ '9' := by
  simp [Char.isDigit, Char.le_def]

theorem isPart_iff {c : Char} : isPart c = true ↔
    'A' ≤ c ∧ c ≤ 'Z' ∨ 'a' ≤ c ∧ c ≤ 'z' ∨ '0' ≤ c ∧ c ≤ '9' ∨ c = '_' := by
  simp [isPart, Char.isAlphanum, Char.isAlpha, Char.isUpper, Char.isLower, Char.isDigit,
    Char.le_def, or_assoc]

theorem isIdentifier_iff {name : String} : IsIdentifier name.toList ↔ IsLegal name := by
  have hlead : needsLead name.toList = false ↔
      name ≠ "" ∧ ∀ c ∈ name.toList.head?, ¬ ('0' ≤ c ∧ c ≤ '9') := by
    rw [ne_eq, ← String.toList_inj]
    cases name.toList with
    | nil => simp [needsLead]
    | cons c cs => simp [needsLead, ← isDigit_iff]
  constructor
  · rintro ⟨hname, hparts⟩
    obtain ⟨hnonempty, hhead⟩ := hlead.1 hname
    exact ⟨hnonempty, fun c hc => isPart_iff.1 (hparts c hc), hhead⟩
  · intro h
    exact ⟨hlead.2 ⟨h.nonempty, h.head⟩, fun c hc => isPart_iff.2 (h.characters c hc)⟩

theorem isLegal_ofName (name : String) : IsLegal (ofName name) :=
  isIdentifier_iff.1 (isIdentifier_ofName name)

/-- The names that stand for themselves are the identifiers. -/
theorem ofName_eq_self_iff {name : String} : ofName name = name ↔ IsLegal name := by
  constructor
  · intro h
    rw [← h]
    exact isLegal_ofName name
  · intro h
    exact ofName_eq_self (isIdentifier_iff.2 h)

theorem ofName_ofName (name : String) : ofName (ofName name) = ofName name :=
  ofName_eq_self_iff.2 (isLegal_ofName name)

theorem not_mem_ofName {c : Char} (hc : isPart c = false) (name : String) :
    c ∉ (ofName name).toList := by
  intro hmem
  rw [(isIdentifier_ofName name).2 c hmem] at hc
  cases hc

end Identifier

namespace Source

/-! ### Reading headers -/

/-- The words before the name of a kernel. -/
def kernelWords : List Char :=
  "__kernel void".toList

/-- The name of the kernel that a line declares: what stands between the words for a kernel and the
parenthesis of the parameters. -/
def kernelName? (line : List Char) : Option String :=
  (line.dropPrefix? (kernelWords ++ [' '])).bind fun rest =>
    if '(' ∈ rest then some (String.ofList (rest.takeWhile (· != '('))) else none

/-- The names of the kernels that the lines of a text declare, in order. -/
def kernelNames (text : String) : List String :=
  (text.toList.splitOn '\n').filterMap kernelName?

variable {text text' : String} {line : List Char}

theorem kernelName?_eq_some_iff {name : String} :
    kernelName? line = some name ↔
      '(' ∉ name.toList ∧ ∃ rest, line = kernelWords ++ ' ' :: (name.toList ++ '(' :: rest) := by
  simp only [kernelName?, Option.bind_eq_some_iff, List.dropPrefix?_eq_some_iff, beq_iff_eq]
  constructor
  · rintro ⟨rest, ⟨_, rfl, rfl⟩, hname⟩
    split_ifs at hname with hparen
    rw [← Option.some.inj hname, String.toList_ofList]
    obtain ⟨before, after, rfl, hbefore⟩ := List.eq_append_cons_of_mem hparen
    have htake : (before ++ '(' :: after).takeWhile (· != '(') = before := by
      rw [List.takeWhile_append_of_pos fun c hc => by
        simpa using fun h : c = '(' => hbefore (h ▸ hc)]
      simp
    rw [htake]
    exact ⟨hbefore, after, by simp⟩
  · rintro ⟨hname, rest, rfl⟩
    refine ⟨name.toList ++ '(' :: rest, ⟨_, by simp, rfl⟩, ?_⟩
    rw [if_pos (by simp), List.takeWhile_append_of_pos fun c hc => by
      simpa using fun h : c = '(' => hname (h ▸ hc)]
    simp

theorem kernelName?_eq_none (h : ¬ kernelWords ++ [' '] <+: line) :
    kernelName? line = none := by
  refine Option.eq_none_iff_forall_ne_some.2 fun name hname => h ?_
  obtain ⟨-, rest, rfl⟩ := kernelName?_eq_some_iff.1 hname
  exact ⟨name.toList ++ '(' :: rest, by simp⟩

/-- A text is split at its line ends. What is read off a text that is put together follows from this
equation. -/
theorem kernelNames_split (text rest : String) :
    kernelNames (text ++ "\n" ++ rest) = kernelNames text ++ kernelNames rest := by
  have hchars : (text ++ "\n" ++ rest).toList = text.toList ++ '\n' :: rest.toList := by
    simp [String.toList_append]
  rw [kernelNames, hchars, List.splitOn_eq_splitOnP, List.splitOnP_append_cons _ _ (by simp),
    List.filterMap_append]
  rfl

theorem kernelNames_line (h : '\n' ∉ text.toList) :
    kernelNames text = (kernelName? text.toList).toList := by
  rw [kernelNames, List.splitOn_eq_singleton h]
  cases hname : kernelName? text.toList <;> simp [hname]

/-- A text that starts with the header of a kernel declares it, whatever follows the parenthesis. -/
theorem mem_kernelNames_of_header {name : String} {rest : List Char} (hparen : '(' ∉ name.toList)
    (hend : '\n' ∉ name.toList)
    (h : text.toList = kernelWords ++ ' ' :: (name.toList ++ '(' :: rest)) :
    name ∈ kernelNames text := by
  have hwords : '\n' ∉ kernelWords := by decide
  have hone : ∀ {line : String} {more : List Char}, '\n' ∉ more →
      line.toList = kernelWords ++ ' ' :: (name.toList ++ '(' :: more) →
      name ∈ kernelNames line := by
    intro line more hmore hline
    have hname : kernelName? line.toList = some name :=
      kernelName?_eq_some_iff.2 ⟨hparen, more, hline⟩
    rw [kernelNames_line (by simp [hline, hwords, hend, hmore]), hname]
    exact List.mem_singleton_self name
  by_cases hmem : '\n' ∈ rest
  · obtain ⟨more, later, rfl, hmore⟩ := List.eq_append_cons_of_mem hmem
    have htext : text = String.ofList (kernelWords ++ ' ' :: (name.toList ++ '(' :: more)) ++
        "\n" ++ String.ofList later := by
      rw [← String.toList_inj, h]
      simp [String.toList_append]
    rw [htext, kernelNames_split]
    exact List.mem_append_left _ (hone hmore String.toList_ofList)
  · exact hone hmem h

/-! ### Texts at the start of a line -/

/-- A text that is made of whole lines, which declare kernels of these names. -/
def Declares (text : String) (names : List String) : Prop :=
  ∀ rest, kernelNames (text ++ rest) = names ++ kernelNames rest

namespace Declares

variable {names names' : List String}

theorem kernelNames_eq (h : Declares text names) : kernelNames text = names := by
  have hempty := h ""
  rwa [String.append_empty, show kernelNames "" = [] from rfl, List.append_nil] at hempty

theorem empty : Declares "" [] := by
  intro rest
  rw [String.empty_append, List.nil_append]

theorem append (h : Declares text names) (h' : Declares text' names') :
    Declares (text ++ text') (names ++ names') := by
  intro rest
  rw [String.append_assoc, h, h', List.append_assoc]

theorem join {texts : List String} {lists : List (List String)}
    (h : List.Forall₂ Declares texts lists) : Declares (String.join texts) lists.flatten := by
  induction h with
  | nil => exact empty
  | cons hfirst _ ih =>
    rw [String.join_cons, List.flatten_cons]
    exact hfirst.append ih

theorem of_line_end (text : String) : Declares (text ++ "\n") (kernelNames text) :=
  kernelNames_split text

/-- A line that declares no kernel, or one. -/
theorem of_line (text : String) (h : '\n' ∉ text.toList) :
    Declares (text ++ "\n") (kernelName? text.toList).toList :=
  kernelNames_line h ▸ of_line_end text

end Declares

/-! ### Indented lines -/

theorem not_mem_linesFrom {l : List Char} : ∀ {cs line : List Char}, '\n' ∉ line →
    l ∈ Text.linesFrom line cs → '\n' ∉ l := by
  have hdrop : ∀ line : List Char, '\n' ∉ line → '\n' ∉ Text.dropReturn line := by
    intro line h
    unfold Text.dropReturn
    split
    · exact fun hmem => h (List.mem_cons_of_mem _ hmem)
    · exact h
  intro cs line hline hl
  fun_induction Text.linesFrom line cs with
  | case1 => cases hl
  | case2 line =>
    rw [List.mem_singleton.1 hl]
    simpa using hline
  | case3 line rest ih =>
    obtain rfl | hl := List.mem_cons.1 hl
    · simpa using hdrop line hline
    · exact ih (by simp) hl
  | case4 line c rest hc ih =>
    refine ih ?_ hl
    rw [List.mem_cons, not_or]
    exact ⟨fun h => hc h.symm, hline⟩

theorem not_mem_of_mem_lines {l : String} (h : l ∈ Text.lines text) : '\n' ∉ l.toList := by
  obtain ⟨cs, hcs, rfl⟩ := List.mem_map.1 h
  rw [String.toList_ofList]
  exact not_mem_linesFrom (by simp) hcs

/-- A page below the outermost level, where no line declares a kernel. -/
structure Page.Inside (p : Page) : Prop where
  indent : 0 < p.indent
  declares : Declares p.text []

namespace Page.Inside

variable {p : Page}

theorem newline (h : p.Inside) : p.newline.Inside :=
  ⟨h.indent, h.declares.append (Declares.of_line "" (by simp))⟩

theorem writeLine (h : p.Inside) {l : String} (hl : '\n' ∉ l.toList) : (p.writeLine l).Inside := by
  have hchars : (indentation p.indent ++ l).toList =
      List.replicate (4 * p.indent) ' ' ++ l.toList := by
    simp [indentation]
  have hnone : kernelName? (indentation p.indent ++ l).toList = none := by
    obtain ⟨n, hn⟩ := Nat.exists_eq_add_of_lt (Nat.mul_pos (by decide : 0 < 4) h.indent)
    rw [hchars, hn, Nat.zero_add, List.replicate_succ, List.cons_append]
    exact kernelName?_eq_none fun hprefix =>
      absurd (List.cons_prefix_cons.1 hprefix).1 (by decide)
  have hline := Declares.of_line (indentation p.indent ++ l) (by simp [hchars, hl])
  rw [hnone] at hline
  have htext : (p.writeLine l).text = p.text ++ (indentation p.indent ++ l ++ "\n") := by
    simp [Page.writeLine, writeIndent, write, Page.newline, String.append_assoc]
  exact ⟨h.indent, htext ▸ h.declares.append hline⟩

/-- Whatever its characters, a text that is indented line by line declares no kernel. -/
theorem writeLines (h : p.Inside) (text : String) : (p.writeLines text).Inside := by
  refine List.foldlRecOn (motive := Page.Inside) _ _ h fun p hp l hl => ?_
  split_ifs
  · exact hp.newline
  · exact hp.writeLine (not_mem_of_mem_lines hl)

end Page.Inside

end Source

/-! ### Spellings of types -/

/-- No spelling of a type has a line end or looks like the start of a kernel. -/
def Metadata.Plain (md : Metadata) : Prop :=
  ∀ cls t, md.type? cls = some t →
    '\n' ∉ t.name.toList ∧ ¬ Source.kernelWords <+: t.name.toList

namespace Metadata.Plain

variable {md : Metadata}

theorem typeName (h : md.Plain) (ty : Ty) :
    '\n' ∉ (md.typeName ty).toList ∧ ¬ Source.kernelWords <+: (md.typeName ty).toList := by
  induction ty with
  | object cls =>
    rw [Metadata.typeName]
    cases ht : md.type? cls with
    | some t => exact h cls t ht
    | none =>
      refine ⟨Identifier.not_mem_ofName (by decide) _, fun hwords => ?_⟩
      exact Identifier.not_mem_ofName (by decide) _ (hwords.subset (by decide : ' ' ∈ _))
  | array element ih =>
    obtain ⟨hend, hwords⟩ := ih
    rw [Metadata.typeName, String.toList_append]
    refine ⟨by simp [hend], fun hstar => ?_⟩
    obtain heq | hprefix := List.prefix_concat_iff.1 hstar
    · have hlast := congrArg List.getLast? heq
      rw [List.getLast?_concat] at hlast
      exact absurd hlast (by decide)
    · exact hwords hprefix
  | _ =>
    rw [Metadata.typeName]
    decide

theorem declaredType (h : md.Plain) (ty : Ty) : '\n' ∉ (md.declaredType ty).toList := by
  have hname := (h.typeName ty).1
  unfold Metadata.declaredType
  split_ifs <;> simp [hname]

end Metadata.Plain

namespace Source

/-! ### Lines of a unit -/

theorem not_mem_toString (z : Int) : '\n' ∉ (toString z).toList := by
  have hdigits : ∀ n : Nat, '\n' ∉ n.repr.toList := by
    intro n hmem
    rw [Nat.toList_repr] at hmem
    exact absurd (Nat.isDigit_of_mem_toDigits (by decide) (by decide) hmem) (by decide)
  rw [Int.toString_eq_repr, Int.repr_eq_if]
  split_ifs
  · exact hdigits _
  · rw [String.toList_append, List.mem_append, not_or]
    exact ⟨by decide, hdigits _⟩

theorem not_mem_parameterText {params : List String} (h : ∀ p ∈ params, '\n' ∉ p.toList) :
    '\n' ∉ (parameterText params).toList := by
  unfold parameterText
  split_ifs
  · decide
  · induction params with
    | nil => decide
    | cons p rest ih =>
      obtain ⟨hp, hrest⟩ := List.forall_mem_cons.1 h
      cases rest with
      | nil => simpa using hp
      | cons q rest =>
        rw [String.intercalate_cons_cons, String.toList_append, String.toList_append]
        simp only [List.mem_append, not_or]
        exact ⟨⟨hp, by decide⟩, ih hrest (by simp)⟩

/-- The header of a function that has one. -/
def Function.header (cls : KernelClass) (f : Function) : String :=
  f.result cls ++ " " ++ f.name ++ "(" ++
    parameterText ((f.parameters cls).map (Parameter.declare cls.metadata)) ++ ")"

/-- The kernels that a function is. -/
def Function.kernels (f : Function) : List String :=
  match f.role with
  | .entry => [f.name]
  | .helper => []

section function

variable {cls : KernelClass} (f : Function)

theorem Function.toList_result_of_entry (h : f.role = .entry) :
    (f.result cls).toList = kernelWords := by
  rw [result, h]
  rfl

theorem Function.result_of_helper (h : f.role = .helper) :
    f.result cls = cls.metadata.typeName f.method.returns := by
  rw [result, h]

theorem Function.kernels_of_entry (h : f.role = .entry) : f.kernels = [f.name] := by
  rw [kernels, h]

theorem Function.kernels_of_helper (h : f.role = .helper) : f.kernels = [] := by
  rw [kernels, h]

theorem Function.not_mem_name {c : Char} (hc : Identifier.isPart c = false) : c ∉ f.name.toList :=
  Identifier.not_mem_ofName hc f.method.name

end function

theorem Function.toList_header (cls : KernelClass) (f : Function) (more : String) :
    ∃ rest, (f.header cls ++ more).toList =
      (f.result cls).toList ++ ' ' :: (f.name.toList ++ '(' :: rest) := by
  refine ⟨(parameterText ((f.parameters cls).map (Parameter.declare cls.metadata))).toList ++
    ')' :: more.toList, ?_⟩
  simp [header, String.toList_append]

/-- A text that starts with the header of the entry function declares it, whatever follows. -/
theorem Function.mem_kernelNames_header {cls : KernelClass} (f : Function) (h : f.role = .entry)
    (more : String) : f.name ∈ kernelNames (f.header cls ++ more) := by
  obtain ⟨rest, hrest⟩ := f.toList_header cls more
  rw [f.toList_result_of_entry h] at hrest
  exact mem_kernelNames_of_header (f.not_mem_name (by decide)) (f.not_mem_name (by decide)) hrest

/-- A prefix without a character ends before it. -/
theorem prefix_of_not_mem {c : Char} {cs before after : List Char}
    (h : cs <+: before ++ c :: after) (hc : c ∉ cs) : cs <+: before := by
  obtain hprefix | ⟨rest, rfl⟩ := List.prefix_or_prefix_of_prefix h (List.prefix_append ..)
  · exact hprefix
  · rw [List.prefix_append_right_inj] at h
    obtain rfl | ⟨rest, rfl, -⟩ := List.prefix_cons_iff.1 h
    · simp
    · exact absurd (by simp) hc

/-- A blank is no part of a name, so a result and a name do not make up the words for a kernel. -/
theorem not_start_of_kernel {result name rest : List Char} (hresult : ¬ kernelWords <+: result)
    (hname : ' ' ∉ name) : ¬ kernelWords ++ [' '] <+: result ++ ' ' :: (name ++ '(' :: rest) := by
  intro hwords
  obtain hprefix | ⟨q, hq⟩ := List.prefix_or_prefix_of_prefix hwords (List.prefix_append ..)
  · exact hresult ((List.prefix_append ..).trans hprefix)
  rw [← hq, List.prefix_append_right_inj] at hwords
  obtain rfl | ⟨q, rfl, hafter⟩ := List.prefix_cons_iff.1 hwords
  · rw [List.append_nil] at hq
    exact hresult (hq ▸ List.prefix_append ..)
  have hparen : '(' ∉ q := by
    intro hmem
    have hmem : '(' ∈ kernelWords ++ [' '] := hq ▸ by simp [hmem]
    exact absurd hmem (by decide)
  have hblank : ' ' ∉ q := fun hmem => hname ((prefix_of_not_mem hafter hparen).subset hmem)
  -- the blank after the result is the last one of the words
  obtain ⟨mid, hmid, hlast⟩ | ⟨mid, rfl, -⟩ := List.append_eq_append_iff.1 hq
  · cases mid with
    | nil => exact hresult (by rw [hmid, List.append_nil])
    | cons c mid =>
      obtain ⟨-, rfl⟩ := List.cons.inj hlast
      exact hblank (by simp)
  · exact hresult (List.prefix_append ..)

section plain

variable {cls : KernelClass} (h : cls.metadata.Plain)

include h

theorem Declaration.SpeltBy.not_mem_render {d : Declaration} (hd : d.SpeltBy cls.metadata) :
    '\n' ∉ d.render.toList := by
  have htemp : '\n' ∉ d.temp.name.toList := by
    intro hmem
    exact absurd (d.temp.isIdentifier_name.2 _ hmem) (by decide)
  cases d with
  | scalar type t =>
    obtain ⟨ty, rfl⟩ := hd
    have htype := h.declaredType ty
    simp_all [Declaration.render, Declaration.temp]
  | array element t length =>
    obtain ⟨ty, rfl⟩ := hd
    have htype := (h.typeName ty).1
    have hlength := not_mem_toString length.toInt
    simp_all [Declaration.render, Declaration.temp]

/-- The header of the entry function is that of a kernel, and no helper has one. -/
theorem Function.kernelName?_header (f : Function) (more : String) :
    (kernelName? (f.header cls ++ more).toList).toList = f.kernels := by
  obtain ⟨rest, hrest⟩ := f.toList_header cls more
  rw [hrest]
  cases hrole : f.role with
  | entry =>
    rw [f.toList_result_of_entry hrole, f.kernels_of_entry hrole,
      kernelName?_eq_some_iff.2 ⟨f.not_mem_name (by decide), rest, rfl⟩, Option.toList_some]
  | helper =>
    have hresult := (h.typeName f.method.returns).2
    rw [f.result_of_helper hrole, f.kernels_of_helper hrole,
      kernelName?_eq_none (not_start_of_kernel hresult (f.not_mem_name (by decide))),
      Option.toList_none]

theorem Function.not_mem_header (f : Function) : '\n' ∉ (f.header cls).toList := by
  have hresult : '\n' ∉ (f.result cls).toList := by
    cases hrole : f.role with
    | entry =>
      rw [f.toList_result_of_entry hrole]
      decide
    | helper =>
      rw [f.result_of_helper hrole]
      exact (h.typeName _).1
  have hname : '\n' ∉ f.name.toList := f.not_mem_name (by decide)
  have hparams : '\n' ∉ (parameterText ((f.parameters cls).map
      (Parameter.declare cls.metadata))).toList := by
    refine not_mem_parameterText fun p hp => ?_
    obtain ⟨p, -, rfl⟩ := List.mem_map.1 hp
    have hparam : ∀ v : Variable,
        '\n' ∉ (cls.metadata.declare v.ty (Identifier.ofName v.name)).toList := by
      intro v
      have htype := h.declaredType v.ty
      have hname := Identifier.not_mem_ofName (c := '\n') (by decide) v.name
      simp [Metadata.declare, htype, hname]
    cases p with
    | own v | argument v => exact hparam v
  simp [header, hresult, hname, hparams]

/-- A line that starts with the header of a function. -/
theorem Function.declares_header (f : Function) (more : String)
    (hmore : '\n' ∉ more.toList) :
    Declares (f.header cls ++ more ++ "\n") f.kernels := by
  have hheader := f.not_mem_header h
  rw [← f.kernelName?_header h more]
  exact .of_line _ (by simp [hheader, hmore])

theorem declares_definitionText (f : Function) {declarations : List String}
    (hdeclarations : ∀ d ∈ declarations, '\n' ∉ d.toList) (body : String) :
    Declares (definitionText (f.header cls) declarations body) f.kernels := by
  have hstart : Page.Inside { indent := 1 } := ⟨Nat.one_pos, .empty⟩
  have hpage : (declarations.foldl Page.writeLine { indent := 1 }).Inside :=
    List.foldlRecOn (motive := Page.Inside) _ _ hstart fun p hp d hd =>
      hp.writeLine (hdeclarations d hd)
  have hopen := f.declares_header h " \x7b" (by decide)
  have hclose : Declares ("\x7d" ++ "\n") [] := .of_line _ (by decide)
  have htext := (hopen.append (hpage.writeLines body).declares).append hclose
  rw [List.append_nil, List.append_nil] at htext
  simpa [definitionText, String.append_assoc] using htext

end plain

/-! ### The kernels of a unit -/

/-- The kernels that an item declares. -/
def Item.kernels : Item → List String
  | .pragma | .blank => []
  | .prototype f | .definition f => f.kernels

section unit

variable {cls : KernelClass} {entry : Method} {i : Item}

theorem text_of_prototype {f : Function} (h : (Item.prototype f).text cls = .ok text) :
    text = f.header cls ++ ";" ++ "\n" := by
  simp only [Item.text, bind, Except.bind] at h
  split at h
  · cases h
  · rename_i header hheader
    have hclose : ";\n" = ";" ++ "\n" := rfl
    have heq : header = f.header cls := signature_ok hheader
    rw [← Except.ok.inj h, heq, hclose, String.append_assoc]

theorem text_eq_of_definition {f : Function} (h : (Item.definition f).text cls = .ok text) :
    ∃ more, text = f.header cls ++ more ++ "\n" := by
  obtain ⟨s, -, htext⟩ := text_of_definition h
  refine ⟨" \x7b\n" ++ (((s.declarations.map Declaration.render).foldl Page.writeLine
    { indent := 1 }).writeLines s.text).text ++ "\x7d", htext.trans ?_⟩
  have hclose : "\x7d\n" = "\x7d" ++ "\n" := rfl
  rw [definitionText, hclose, Function.header]
  simp only [String.append_assoc]

/-- The text of every item ends a line. -/
theorem exists_line_end (h : i.text cls = .ok text) : ∃ init, text = init ++ "\n" := by
  cases i with
  | pragma =>
    exact ⟨"#pragma OPENCL EXTENSION cl_khr_fp64 : enable", (Except.ok.inj h).symm⟩
  | blank => exact ⟨"", (Except.ok.inj h).symm⟩
  | prototype f => exact ⟨_, text_of_prototype h⟩
  | definition f =>
    obtain ⟨more, hmore⟩ := text_eq_of_definition h
    exact ⟨_, hmore⟩

theorem declares_of_plain (hplain : cls.metadata.Plain) (h : i.text cls = .ok text) :
    Declares text i.kernels := by
  cases i with
  | pragma =>
    rw [← Except.ok.inj h]
    exact .of_line "#pragma OPENCL EXTENSION cl_khr_fp64 : enable" (by decide)
  | blank =>
    rw [← Except.ok.inj h]
    exact .of_line "" (by decide)
  | prototype f =>
    rw [text_of_prototype h]
    exact f.declares_header hplain ";" (by decide)
  | definition f =>
    obtain ⟨s, hs, rfl⟩ := text_of_definition h
    refine declares_definitionText hplain f (fun line hline => ?_) s.text
    obtain ⟨d, hd, rfl⟩ := List.mem_map.1 hline
    exact (hs.spelt d hd).not_mem_render hplain

/-- Only the last item of a unit is a kernel. -/
theorem kernels_items (cls : KernelClass) (entry : Method) :
    (items cls entry).flatMap Item.kernels = [Identifier.ofName entry.name] := by
  have hpragma : (if cls.usesDouble then [Item.pragma, .blank] else []).flatMap Item.kernels =
      [] := by
    split <;> rfl
  have hprototypes : (prototypes cls).flatMap Item.kernels = [] := by
    unfold prototypes
    split_ifs
    · rfl
    · simp [Item.kernels, Function.kernels]
  have hhelpers : (cls.helpers.flatMap fun m =>
      [Item.definition ⟨.helper, m⟩, .blank]).flatMap Item.kernels = [] := by
    simp [List.flatMap_assoc, Item.kernels, Function.kernels]
  rw [items, List.flatMap_append, List.flatMap_append, List.flatMap_append, hpragma, hprototypes,
    hhelpers]
  rfl

/-- The entry point of a unit is the name of a kernel that a line of its text declares. -/
theorem mem_kernelNames_of_generate {src : KernelSource} (h : generate cls = .ok src) :
    src.entryPoint ∈ kernelNames src.text := by
  obtain ⟨entry, texts, hentry, htexts, rfl⟩ := eq_of_generate h
  have hall : List.Forall₂ Declares texts (texts.map kernelNames) := by
    rw [List.forall₂_map_right_iff, List.forall₂_same]
    intro text htext
    obtain ⟨i, -, hi⟩ := exists_of_mapM_ok htexts htext
    obtain ⟨init, rfl⟩ := exists_line_end hi
    rw [(Declares.of_line_end init).kernelNames_eq]
    exact .of_line_end init
  obtain ⟨text, htext, hdefinition⟩ := exists_mem_of_mapM_ok htexts
    (mem_functions.1 (by simp [functions_eq] : ⟨.entry, entry⟩ ∈ functions cls entry))
  have hname : Function.name ⟨.entry, entry⟩ ∈ kernelNames text := by
    obtain ⟨more, rfl⟩ := text_eq_of_definition hdefinition
    rw [String.append_assoc]
    exact Function.mem_kernelNames_header ⟨.entry, entry⟩ rfl _
  rw [(Declares.join hall).kernelNames_eq]
  exact List.mem_flatten.2 ⟨_, List.mem_map_of_mem htext, hname⟩

/-- It is the only one if no spelling of a type gets in the way. -/
theorem kernelNames_of_generate {src : KernelSource} (hplain : cls.metadata.Plain)
    (h : generate cls = .ok src) : kernelNames src.text = [src.entryPoint] := by
  obtain ⟨entry, texts, hentry, htexts, rfl⟩ := eq_of_generate h
  have hall : List.Forall₂ Declares texts ((items cls entry).map Item.kernels) := by
    rw [List.forall₂_map_right_iff]
    exact ((forall₂_of_mapM_ok htexts).imp fun _ _ hi => declares_of_plain hplain hi).flip
  rw [(Declares.join hall).kernelNames_eq, ← List.flatMap_def]
  exact kernels_items cls entry

end unit

/-- A class that spells the result of a helper like the start of a kernel. -/
def disguised : KernelClass where
  name := ⟨"Kernel"⟩
  methods := [{ name := "helper", returns := .object ⟨"Result"⟩ }, { name := entryName }]
  metadata := Metadata.builtins.addType ⟨"Result"⟩ ⟨"__kernel void", none⟩

example : (generate disguised).toOption.map (kernelNames ·.text) =
    some ["helper", "helper", "process_work_item"] := by
  cbv

/-- Every name is mapped to an identifier, and exactly the identifiers are mapped to themselves. So
a name that is mapped again reads alike, and a line of every unit declares a kernel of the name that
is handed out as the entry point. No other kernel is declared, if no spelling of a type gets in the
way. -/
theorem ofName_projects_onto_identifiers :
    (∀ name, Identifier.IsLegal (Identifier.ofName name)) ∧
      (∀ name, Identifier.ofName (Identifier.ofName name) = Identifier.ofName name) ∧
      (∀ name, Identifier.ofName name = name ↔ Identifier.IsLegal name) ∧
      ∀ cls src, generate cls = .ok src →
        src.entryPoint ∈ kernelNames src.text ∧
          (cls.metadata.Plain → kernelNames src.text = [src.entryPoint]) :=
  ⟨Identifier.isLegal_ofName, Identifier.ofName_ofName, fun _ => Identifier.ofName_eq_self_iff,
    fun _ _ h => ⟨mem_kernelNames_of_generate h, fun hplain => kernelNames_of_generate hplain h⟩⟩

/-- A helper whose name is no identifier. -/
def rotate : Method where
  name := "rotate$left"
  params := [⟨"2d", .object ⟨"demo.Float2"⟩⟩]
  returns := .object ⟨"demo.Float2"⟩
  graph := ⟨#[.param 0 (.object ⟨"demo.Float2"⟩), .ret (some 0)]⟩
  body := [.ret 1]

def startRotate : Method where
  name := entryName
  params := [⟨"θ", .double⟩]

/-- A class with a vector type. -/
def rotating : KernelClass where
  name := ⟨"Kernel"⟩
  methods := [rotate, startRotate]
  metadata := Metadata.builtins.addType ⟨"demo.Float2"⟩ ⟨"float2", some 2⟩

theorem ofName_projects_onto_identifiers_rotating :
    Identifier.IsLegal "rotate_left" ∧ Identifier.ofName "rotate_left" = "rotate_left" ∧
      ∃ src, generate rotating = .ok src ∧ rotating.metadata.Plain ∧
        kernelNames src.text = ["process_work_item"] := by
  have hentry : rotating.entry? = some startRotate := by cbv
  have hhelpers : rotating.helpers = [rotate] := by cbv
  obtain ⟨src, hsrc⟩ : ∃ src, generate rotating = .ok src := by
    refine exists_generate hentry rfl ?_
    rw [hhelpers]
    simp only [List.forall_mem_cons]
    exact ⟨exists_emitBody (by cbv), exists_emitBody (by cbv), by simp⟩
  have hplain : rotating.metadata.Plain := by
    intro cls t ht
    simp only [Metadata.type?, rotating, Metadata.addType, List.lookup_cons] at ht
    split at ht
    · obtain rfl := Option.some.inj ht
      decide
    · cases ht
  obtain ⟨hlegal, -, hself, hunits⟩ := ofName_projects_onto_identifiers
  have hname : Identifier.ofName "rotate$left" = "rotate_left" := by decide
  have hrotate : Identifier.IsLegal "rotate_left" := hname ▸ hlegal "rotate$left"
  obtain ⟨-, hkernels⟩ := hunits rotating src hsrc
  obtain ⟨entry, texts, hentry', -, rfl⟩ := eq_of_generate hsrc
  obtain rfl := Option.some.inj (hentry.symm.trans hentry')
  have hpoint : Identifier.ofName startRotate.name = "process_work_item" := by decide
  exact ⟨hrotate, (hself _).2 hrotate, _, hsrc, hplain, hpoint ▸ hkernels hplain⟩

end Source

end KernelForge
