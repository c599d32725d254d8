import Mathlib
import KernelForge.Source.CompilationUnit

/-!
# What a unit consists of

A unit is a list of items: prototypes of the helper methods, then the definitions of all functions
with the entry function last. Its text is that of the items, one after the other (`generate_eq`), so that
where something stands in the text can be read off the list.
-/

namespace KernelForge.Source

/-! ### Pages grow at the end -/

namespace Page

/-- An operation that appends a text, which depends on the level alone. -/
def Appends (op : Page → Page) : Prop :=
  ∀ p, op p = p.write (op { indent := p.indent }).text

@[simp] theorem indent_write (p : Page) (text : String) : (p.write text).indent = p.indent := rfl

theorem write_write (p : Page) (text text' : String) :
    (p.write text).write text' = p.write (text ++ text') := by
  simp [write, String.append_assoc]

namespace Appends

theorem write (text : String) : Appends (·.write text) := by
  intro p
  simp [Page.write]

theorem writeIndent : Appends Page.writeIndent :=
  fun p => write (indentation p.indent) p

theorem comp {op op' : Page → Page} (h' : Appends op') (h : Appends op) :
    Appends fun p => op' (op p) := by
  intro p
  have hindent : (op { indent := p.indent }).indent = p.indent := by rw [h, indent_write]
  change op' (op p) = p.write (op' (op { indent := p.indent })).text
  rw [h' (op p), h' (op { indent := p.indent }), h p, write_write, hindent]
  rfl

theorem newline : Appends Page.newline :=
  write "\n"

theorem writeLine (line : String) : Appends (·.writeLine line) :=
  newline.comp ((write line).comp writeIndent)

theorem foldl {α : Type} {op : Page → α → Page} (h : ∀ a, Appends (op · a)) (as : List α) :
    Appends (as.foldl op ·) := by
  induction as with
  | nil => exact fun p => by simp [Page.write]
  | cons a as ih => exact ih.comp (h a)

theorem writeLines (text : String) : Appends (·.writeLines text) := by
  refine foldl (fun line => ?_) (Text.lines text)
  cases hline : line.isEmpty with
  | true => simpa [hline] using newline
  | false => simpa [hline] using writeLine line

end Appends

/-- A line at the outermost level has no blanks before it. -/
theorem writeLine_eq {p : Page} (h : p.indent = 0) (line : String) :
    p.writeLine line = p.write (line ++ "\n") := by
  rw [writeLine, writeIndent, h, newline, write_write, write_write]
  rfl

end Page

/-! ### Functions -/

/-- A function of a unit. -/
structure Function where
  role : Role
  method : Method

/-- A parameter of a function: one of its method's own, or a kernel argument. -/
inductive Parameter
  | own (v : Variable)
  | argument (field : Variable)

/-- The declaration of a parameter. -/
def Parameter.declare (md : Metadata) : Parameter → String
  | .own v | .argument v => md.declare v.ty (Identifier.ofName v.name)

namespace Function

def name (f : Function) : String :=
  Identifier.ofName f.method.name

/-- The parameters. The entry function takes the kernel arguments first, a helper last. -/
def parameters (cls : KernelClass) (f : Function) : List Parameter :=
  match f.role with
  | .entry => cls.fields.map .argument ++ f.method.params.map .own
  | .helper => f.method.params.map .own ++ cls.fields.map .argument

/-- What stands before the name of a function. -/
def result (cls : KernelClass) (f : Function) : String :=
  match f.role with
  | .entry => "__kernel void"
  | .helper => cls.metadata.typeName f.method.returns

end Function

theorem declareAll_eq (md : Metadata) (vars : List Variable) {kind : Variable → Parameter}
    (h : ∀ v, (kind v).declare md = md.declare v.ty (Identifier.ofName v.name)) :
    declareAll md vars = (vars.map kind).map (Parameter.declare md) := by
  simp [declareAll, h]

/-- A header declares the parameters of its function, in order. -/
theorem signature_ok {cls : KernelClass} {f : Function} {header : String}
    (h : signature ⟨cls, f.method⟩ f.role = .ok header) :
    header = f.result cls ++ " " ++ f.name ++ "(" ++
      parameterText ((f.parameters cls).map (Parameter.declare cls.metadata)) ++ ")" := by
  have hown : declareAll cls.metadata f.method.params =
      (f.method.params.map .own).map (Parameter.declare cls.metadata) :=
    declareAll_eq _ _ fun _ => rfl
  have hargument : declareAll cls.metadata cls.fields =
      (cls.fields.map .argument).map (Parameter.declare cls.metadata) :=
    declareAll_eq _ _ fun _ => rfl
  unfold Function.parameters Function.result
  cases hrole : f.role with
  | entry =>
    simp only [signature, hrole, Context.metadata, hown, hargument, ← List.map_append] at h
    split_ifs at h
    rw [← Except.ok.inj h]
    simp [Function.name, String.append_assoc]
  | helper =>
    simp only [signature, hrole, Context.metadata, hown, hargument, ← List.map_append] at h
    exact (Except.ok.inj h).symm

/-! ### Items -/

/-- A part of a unit. -/
inductive Item
  /-- The line that turns on double precision. -/
  | pragma
  | blank
  | prototype (f : Function)
  | definition (f : Function)

/-- The text of a definition. -/
def definitionText (header : String) (declarations : List String) (body : String) : String :=
  header ++ " \x7b\n" ++
    ((declarations.foldl Page.writeLine { indent := 1 }).writeLines body).text ++ "\x7d\n"

/-- The text of an item. -/
def Item.text (cls : KernelClass) : Item → Except Error String
  | .pragma => .ok "#pragma OPENCL EXTENSION cl_khr_fp64 : enable\n"
  | .blank => .ok "\n"
  | .prototype f => do
    let header ← signature ⟨cls, f.method⟩ f.role
    return header ++ ";\n"
  | .definition f => do
    let header ← signature ⟨cls, f.method⟩ f.role
    let (declarations, body) ← emitBody ⟨cls, f.method⟩
    return definitionText header declarations body

/-- The prototypes of a unit, followed by a blank line if there are any. -/
def prototypes (cls : KernelClass) : List Item :=
  if cls.helpers.isEmpty then []
  else cls.helpers.map (fun m => .prototype ⟨.helper, m⟩) ++ [.blank]

/-- The items of a unit. -/
def items (cls : KernelClass) (entry : Method) : List Item :=
  (if cls.usesDouble then [.pragma, .blank] else []) ++ prototypes cls ++
    cls.helpers.flatMap (fun m => [.definition ⟨.helper, m⟩, .blank]) ++
    [.definition ⟨.entry, entry⟩]

/-! ### The text of a unit -/

/-- Append the texts of items. -/
def printItems (cls : KernelClass) (is : List Item) (page : Page) : Except Error Page := do
  let texts ← is.mapM (Item.text cls)
  return page.write (String.join texts)

section print

variable {cls : KernelClass} {page : Page}

theorem printItems_nil : printItems cls [] page = .ok page := by
  simp only [printItems, List.mapM_nil, pure_bind, String.join_nil]
  simp [Page.write, pure, Except.pure]

theorem printItems_singleton (i : Item) :
    printItems cls [i] page = page.write <$> i.text cls := by
  simp [printItems, List.mapM_cons, String.join_cons]

theorem printItems_blank : printItems cls [.blank] page = .ok page.newline :=
  printItems_singleton _

theorem printItems_append (is is' : List Item) :
    printItems cls (is ++ is') page = printItems cls is page >>= printItems cls is' := by
  simp [printItems, List.mapM_append, String.join_append, Page.write_write]

theorem indent_of_printItems {is : List Item} {page' : Page}
    (h : printItems cls is page = .ok page') : page'.indent = page.indent := by
  simp only [printItems] at h
  cases hts : is.mapM (Item.text cls) with
  | error e => simp [hts, bind, Except.bind] at h
  | ok ts =>
    simp only [hts, bind, Except.bind, pure, Except.pure, Except.ok.injEq] at h
    rw [← h, Page.indent_write]

/-- What follows some items goes on at their level. -/
theorem printItems_bind_congr {α : Type} {is : List Item} {k k' : Page → Except Error α}
    (hindent : page.indent = 0) (h : ∀ page : Page, page.indent = 0 → k page = k' page) :
    printItems cls is page >>= k = printItems cls is page >>= k' := by
  cases hpage : printItems cls is page with
  | error e => rfl
  | ok page' => exact h page' ((indent_of_printItems hpage).trans hindent)

/-- A loop that prints some items for each element prints the items of all elements. -/
theorem foldlM_printItems {α : Type} {step : Page → α → Except Error Page} {itemsOf : α → List Item}
    (hstep : ∀ page a, page.indent = 0 → step page a = printItems cls (itemsOf a) page) :
    ∀ (as : List α) (page : Page), page.indent = 0 →
      as.foldlM step page = printItems cls (as.flatMap itemsOf) page
  | [], page, _ => by
    rw [List.flatMap_nil, printItems_nil]
    rfl
  | a :: as, page, hindent => by
    rw [List.foldlM_cons, List.flatMap_cons, printItems_append, hstep page a hindent]
    exact printItems_bind_congr hindent (foldlM_printItems hstep as)

theorem writeFunction_eq (hindent : page.indent = 0) (f : Function) :
    writeFunction ⟨cls, f.method⟩ f.role page = printItems cls [.definition f] page := by
  rw [printItems_singleton, Item.text, writeFunction]
  simp only [map_bind, map_pure]
  refine bind_congr fun header => bind_congr fun ⟨declarations, body⟩ => congrArg pure ?_
  have hbody := (Page.Appends.writeLines body).comp
    (Page.Appends.foldl Page.Appends.writeLine declarations)
    (page.write (header ++ " \x7b" ++ "\n")).deeper
  dsimp only at hbody ⊢
  have houter : ((page.write (header ++ " \x7b" ++ "\n")).deeper.write
      ((declarations.foldl Page.writeLine { indent := 1 }).writeLines body).text).back.indent =
        0 := by
    simp [Page.back, Page.deeper, hindent]
  rw [Page.writeLine_eq hindent, hbody]
  simp only [Page.deeper, Page.indent_write, hindent] at houter ⊢
  rw [Page.writeLine_eq houter]
  simp [definitionText, Page.back, Page.write, String.append_assoc, hindent]

theorem writePrototypes_eq (hindent : page.indent = 0) :
    writePrototypes cls page = printItems cls (prototypes cls) page := by
  have hstep : ∀ (page : Page) (m : Method), page.indent = 0 → (do
      let header ← signature ⟨cls, m⟩ .helper
      return page.writeLine (header ++ ";")) = printItems cls [.prototype ⟨.helper, m⟩] page := by
    intro page m hindent
    rw [printItems_singleton, Item.text]
    simp only [map_bind, map_pure]
    refine bind_congr fun header => congrArg pure ?_
    rw [Page.writeLine_eq hindent, String.append_assoc]
    rfl
  unfold writePrototypes prototypes
  split_ifs with hempty
  · exact printItems_nil.symm
  · rw [printItems_append, ← List.flatMap_pure_eq_map]
    change (do let page ← cls.helpers.foldlM _ page; return page.newline) = _
    rw [foldlM_printItems hstep _ _ hindent]
    exact bind_congr fun page => printItems_blank.symm

theorem writeHelpers_eq (hindent : page.indent = 0) :
    cls.helpers.foldlM (fun page helper => do
      let page ← writeFunction ⟨cls, helper⟩ .helper page
      return page.newline) page =
    printItems cls (cls.helpers.flatMap fun m => [.definition ⟨.helper, m⟩, .blank]) page := by
  refine foldlM_printItems (fun page m hindent => ?_) _ _ hindent
  rw [writeFunction_eq hindent ⟨.helper, m⟩]
  change _ = printItems cls ([.definition ⟨.helper, m⟩] ++ [.blank]) page
  rw [printItems_append]
  exact bind_congr fun page => printItems_blank.symm

end print

/-- The text of a unit is that of its items. -/
theorem generate_eq (cls : KernelClass) :
    generate cls = (do
      let entry ← match cls.entry? with
        | some entry => .ok entry
        | none => .error (.noEntry cls.name)
      let texts ← (items cls entry).mapM (Item.text cls)
      return ⟨String.join texts, Identifier.ofName entry.name, cls.fields⟩) := by
  unfold generate
  cases cls.entry? with
  | none => rfl
  | some entry =>
    have hpragma : printItems cls (if cls.usesDouble then [.pragma, .blank] else []) {} =
        .ok (if cls.usesDouble then
          (Page.writeLine {} "#pragma OPENCL EXTENSION cl_khr_fp64 : enable").newline else {}) := by
      cases cls.usesDouble <;> rfl
    have hpage : (if cls.usesDouble then
        (Page.writeLine {} "#pragma OPENCL EXTENSION cl_khr_fp64 : enable").newline else {}).indent =
          0 := indent_of_printItems hpragma
    have htexts : (do
        let texts ← (items cls entry).mapM (Item.text cls)
        return (⟨String.join texts, Identifier.ofName entry.name, cls.fields⟩ : KernelSource)) = (do
        let page ← printItems cls (items cls entry) {}
        return ⟨page.text, Identifier.ofName entry.name, cls.fields⟩) := by
      simp [printItems, Page.write]
    refine Eq.trans ?_ htexts.symm
    rw [items, printItems_append, printItems_append, printItems_append, hpragma]
    change writePrototypes cls _ >>= _ = _
    rw [writePrototypes_eq hpage]
    simp only [bind_assoc]
    refine printItems_bind_congr hpage fun page hindent => ?_
    rw [writeHelpers_eq hindent]
    refine printItems_bind_congr hindent fun page hindent => ?_
    rw [writeFunction_eq hindent ⟨.entry, entry⟩]

/-- What a class that has a source generates. -/
theorem eq_of_generate {cls : KernelClass} {src : KernelSource} (h : generate cls = .ok src) :
    ∃ entry texts, cls.entry? = some entry ∧ (items cls entry).mapM (Item.text cls) = .ok texts ∧
      src = ⟨String.join texts, Identifier.ofName entry.name, cls.fields⟩ := by
  rw [generate_eq] at h
  cases hentry : cls.entry? with
  | none => simp [hentry, bind, Except.bind] at h
  | some entry =>
    cases htexts : (items cls entry).mapM (Item.text cls) with
    | error e => simp [hentry, htexts, bind, Except.bind] at h
    | ok texts =>
      simp only [hentry, htexts, bind, Except.bind, pure, Except.pure, Except.ok.injEq] at h
      exact ⟨entry, texts, rfl, htexts, h.symm⟩

end KernelForge.Source
