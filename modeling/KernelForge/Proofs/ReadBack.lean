import Mathlib
import KernelForge.Proofs.Hygiene
import KernelForge.Proofs.Meaning
import KernelForge.Proofs.Parsing
import KernelForge.Proofs.Recursion

/-!
# Integer expressions read back

A tree of integer constants, parameters, negations, operations and comparisons, in which no operation
is used twice, is evaluated to one expression, without temporaries (`Context.Spans.evaluate`). Its
text is cut into the tokens of the tree (`Tree.lexes`), which are read as the tree with one exception:
the minus sign of a negation and that of a negative constant right after it run together to a
decrement (`Tree.reads`). So the text is read as the tree exactly if no negation has a negative
constant for its operand and no parameter has a reserved word for its name (`evaluate_reads_back`).
-/

namespace KernelForge.Source

open Relation
open Grammar (Token Parsed Delimited Lexes Reads greatest tokens)

/-! ### Constants -/

/-- An integer constant. -/
inductive Constant
  | int (value : Int32)
  | long (value : Int64)

namespace Constant

def kind : Constant → NodeKind
  | int value => .int value
  | long value => .long value

def expr : Constant → Expr
  | int value => .int value
  | long value => .long value

/-- Whether a constant has 64 bits. -/
def wide : Constant → Bool
  | int _ => false
  | long _ => true

def value : Constant → Int
  | int value => value.toInt
  | long value => value.toInt

/-- How a constant is written: as a literal, as minus a literal, or, since no literal has the
magnitude of the least one, as a difference. -/
inductive Form
  | plain (n : Nat)
  | negative (n : Nat)
  | least

def form (c : Constant) : Form :=
  if c.value = -(greatest c.wide + 1) then .least
  else if c.value < 0 then .negative c.value.natAbs
  else .plain c.value.natAbs

/-- The literal of a number. Wide literals have a suffix. -/
def number (wide : Bool) (n : Nat) : List Char :=
  Nat.toDigits 10 n ++ if wide then ['L'] else []

/-- The text of a constant. -/
def chars (c : Constant) : List Char :=
  match c.form with
  | .plain n => number c.wide n
  | .negative n => '-' :: number c.wide n
  | .least => '(' :: '-' :: number c.wide (greatest c.wide) ++
      ' ' :: '-' :: ' ' :: number c.wide 1 ++ [')']

/-- The tokens of a constant. -/
def tokens (c : Constant) : List Token :=
  match c.form with
  | .plain n => [.number (number c.wide n)]
  | .negative n => [.sign ['-'], .number (number c.wide n)]
  | .least => .sign ['('] :: [.sign ['-'], .number (number c.wide (greatest c.wide))] ++
      .sign ['-'] :: [.number (number c.wide 1)] ++ [.sign [')']]

/-- A constant as an expression. -/
def asWritten (c : Constant) : Parsed :=
  match c.form with
  | .plain n => .literal c.wide n
  | .negative n => .unary ['-'] (.literal c.wide n)
  | .least =>
    .pair ['-'] (.unary ['-'] (.literal c.wide (greatest c.wide))) (.literal c.wide 1)

theorem greatest_false : greatest false = 2147483647 := rfl

theorem greatest_true : greatest true = 9223372036854775807 := rfl

theorem value_bounds (c : Constant) :
    -(greatest c.wide + 1) ≤ c.value ∧ c.value ≤ greatest c.wide := by
  cases c with
  | int value =>
    have hlow := value.le_toInt
    have hhigh := value.toInt_lt
    rw [Constant.value, wide, greatest_false]
    norm_num at hlow hhigh ⊢
    omega
  | long value =>
    have hlow := value.le_toInt
    have hhigh := value.toInt_lt
    rw [Constant.value, wide, greatest_true]
    norm_num at hlow hhigh ⊢
    omega

/-- The literals of a constant are in the range of its type. -/
theorem le_greatest {c : Constant} {n : Nat} (h : c.form = .plain n ∨ c.form = .negative n) :
    n ≤ greatest c.wide := by
  have hbounds := c.value_bounds
  rw [form] at h
  split_ifs at h with hleast hneg
  · simp at h
  · obtain rfl : c.value.natAbs = n := by simpa using h
    omega
  · obtain rfl : c.value.natAbs = n := by simpa using h
    omega

theorem toList_toString (z : Int) : (toString z).toList =
    if z < 0 then '-' :: Nat.toDigits 10 z.natAbs else Nat.toDigits 10 z.natAbs := by
  have hpos : 0 ≤ z → z.toNat = z.natAbs := by omega
  have hneg : z < 0 → (-z).toNat = z.natAbs := by omega
  rw [Int.toString_eq_repr, Int.repr_eq_if]
  split_ifs with h h' h'
  · omega
  · rw [Nat.toList_repr, hpos h]
  · rw [String.toList_append, Nat.toList_repr, hneg h']
    rfl
  · omega

theorem chars_of_least {c : Constant} (h : c.value = -(greatest c.wide + 1)) :
    c.chars = '(' :: '-' :: number c.wide (greatest c.wide) ++
      ' ' :: '-' :: ' ' :: number c.wide 1 ++ [')'] := by
  rw [chars, form, if_pos h]

theorem chars_of_ne {c : Constant} (h : c.value ≠ -(greatest c.wide + 1)) :
    c.chars = (toString c.value).toList ++ if c.wide then ['L'] else [] := by
  rw [chars, form, if_neg h, toList_toString]
  by_cases hneg : c.value < 0
  · rw [if_pos hneg, if_pos hneg]
    rfl
  · rw [if_neg hneg, if_neg hneg]
    rfl

theorem value_int_eq_least (value : Int32) :
    (int value).value = -(greatest (int value).wide + 1) ↔ value = Int32.minValue := by
  rw [wide, greatest_false, Constant.value, ← Int32.toInt_inj, Int32.toInt_minValue]
  norm_num

theorem value_long_eq_least (value : Int64) :
    (long value).value = -(greatest (long value).wide + 1) ↔ value = Int64.minValue := by
  rw [wide, greatest_true, Constant.value, ← Int64.toInt_inj, Int64.toInt_minValue]
  norm_num

theorem toList_literalInt (value : Int32) :
    (Literal.int value).toList = (int value).chars := by
  rw [Literal.int]
  split_ifs with h
  · rw [chars_of_least ((value_int_eq_least value).2 h), wide]
    decide
  · rw [chars_of_ne (mt (value_int_eq_least value).1 h), wide, if_neg Bool.false_ne_true,
      List.append_nil, Constant.value]

theorem toList_literalLong (value : Int64) :
    (Literal.long value).toList = (long value).chars := by
  rw [Literal.long]
  split_ifs with h
  · rw [chars_of_least ((value_long_eq_least value).2 h), wide]
    decide
  · rw [chars_of_ne (mt (value_long_eq_least value).1 h), wide, if_pos rfl, String.toList_append,
      Constant.value]
    rfl

theorem render_expr (c : Constant) : c.expr.render.toList = c.chars := by
  cases c with
  | int value => exact toList_literalInt value
  | long value => exact toList_literalLong value

/-! ### Reading constants -/

theorem isDigit_toDigits {n : Nat} {c : Char} (h : c ∈ Nat.toDigits 10 n) : c.isDigit :=
  Nat.isDigit_of_mem_toDigits (by decide) (by decide) h

theorem number_eq_cons (wide : Bool) (n : Nat) :
    ∃ c ds, number wide n = c :: ds ∧ c.isDigit ∧ ∀ d ∈ ds, Identifier.isPart d := by
  obtain ⟨c, ds, hdigits⟩ := List.exists_cons_of_ne_nil (Nat.toDigits_ne_nil (n := n) (b := 10))
  refine ⟨c, ds ++ if wide then ['L'] else [], by rw [number, hdigits]; rfl,
    isDigit_toDigits (hdigits ▸ List.mem_cons_self), fun d hd => ?_⟩
  obtain hdigit | hsuffix := List.mem_append.1 hd
  · exact Grammar.isPart_of_isDigit
      (isDigit_toDigits (hdigits ▸ List.mem_cons_of_mem c hdigit))
  · split_ifs at hsuffix
    · obtain rfl := List.mem_singleton.1 hsuffix
      decide
    · cases hsuffix

theorem lexes_number (wide : Bool) (n : Nat) :
    Lexes (number wide n) [.number (number wide n)] := by
  obtain ⟨c, ds, hnumber, hc, hds⟩ := number_eq_cons wide n
  rw [hnumber]
  exact Grammar.lexes_number hc hds

/-- No sign is made longer by a digit. -/
theorem lexes_minus_number (wide : Bool) (n : Nat) :
    Lexes ('-' :: number wide n) [.sign ['-'], .number (number wide n)] := by
  have hnumber := lexes_number wide n
  obtain ⟨c, ds, heq, hc, -⟩ := number_eq_cons wide n
  rw [heq] at hnumber ⊢
  refine hnumber.minus fun hmem => ?_
  simp only [List.mem_cons, List.not_mem_nil, or_false] at hmem
  obtain rfl | rfl | rfl := hmem <;> exact absurd hc (by decide)

theorem lexes (c : Constant) : Lexes c.chars c.tokens := by
  rw [chars, tokens]
  cases c.form with
  | plain n => exact lexes_number c.wide n
  | negative n => exact lexes_minus_number c.wide n
  | least =>
    have hminus : ['-'] ∈ Grammar.signs := by decide
    exact (lexes_minus_number c.wide _).pair (lexes_number c.wide 1) hminus (by decide)

section reads

variable {reserved : List (List Char)} {scope : List Char → Option Nat}

theorem reads_number {wide : Bool} {n : Nat} (h : n ≤ greatest wide) :
    Reads reserved scope [.number (number wide n)] (.literal wide n) := by
  have hsuffix : ∀ c ∈ (if wide then ['L'] else []).head?, c.isDigit = false := by
    cases wide with
    | false => exact nofun
    | true =>
      rintro c ⟨⟩
      rfl
  refine .operand nofun ?_
  rw [Grammar.operand?, number, Grammar.literal?_toDigits hsuffix, Grammar.literalOf]
  cases wide with
  | false => rw [if_neg Bool.false_ne_true, if_pos ⟨rfl, h⟩]
  | true => rw [if_pos rfl, if_neg (by simp), if_pos ⟨.inr (.inl rfl), h⟩]

theorem reads_minus_number {wide : Bool} {n : Nat} (h : n ≤ greatest wide) :
    Reads reserved scope [.sign ['-'], .number (number wide n)]
      (.unary ['-'] (.literal wide n)) :=
  (reads_number h).unary (by decide)

theorem reads (c : Constant) : Reads reserved scope c.tokens c.asWritten := by
  rw [tokens, asWritten]
  cases hform : c.form with
  | plain n => exact reads_number (le_greatest (.inl hform))
  | negative n => exact reads_minus_number (le_greatest (.inr hform))
  | least =>
    have hone : 1 ≤ greatest c.wide := by
      cases c.wide with
      | false => rw [greatest_false]; norm_num
      | true => rw [greatest_true]; norm_num
    have hlevel : Grammar.precedence? ['-'] = some 9 := rfl
    exact (reads_minus_number (Nat.le_refl _)).pair hlevel (reads_number hone)

end reads

end Constant

/-! ### Trees -/

/-- Operators between integers. -/
inductive InfixOp
  | add | sub | mul | and | or | xor
  | compare (op : CompareOp)

namespace InfixOp

def kind : InfixOp → NodeKind
  | add => .binary .add
  | sub => .binary .sub
  | mul => .binary .mul
  | and => .binary .and
  | or => .binary .or
  | xor => .binary .xor
  | compare op => .compare op

def expr : InfixOp → Expr → Expr → Expr
  | add => .binary .add
  | sub => .binary .sub
  | mul => .binary .mul
  | and => .binary .and
  | or => .binary .or
  | xor => .binary .xor
  | compare op => .compare op

/-- The sign of an operator. -/
def sign : InfixOp → List Char
  | add => ['+']
  | sub => ['-']
  | mul => ['*']
  | and => ['&']
  | or => ['|']
  | xor => ['^']
  | compare op => op.symbol.toList

theorem render_expr (op : InfixOp) (l r : Expr) :
    (op.expr l r).render.toList =
      '(' :: l.render.toList ++ (' ' :: op.sign ++ ' ' :: r.render.toList) ++ [')'] := by
  have hrender : ∀ symbol : String,
      ("(" ++ l.render ++ " " ++ symbol ++ " " ++ r.render ++ ")").toList =
        '(' :: l.render.toList ++ (' ' :: symbol.toList ++ ' ' :: r.render.toList) ++ [')'] := by
    intro symbol
    simp [String.toList_append]
  cases op with
  | compare op => exact hrender op.symbol
  | add => exact hrender "+"
  | sub => exact hrender "-"
  | mul => exact hrender "*"
  | and => exact hrender "&"
  | or => exact hrender "|"
  | xor => exact hrender "^"

theorem sign_eq_cons (op : InfixOp) :
    ∃ c sign, op.sign = c :: sign ∧ c :: sign ∈ Grammar.signs ∧ c ≠ '.' := by
  rcases op with _ | _ | _ | _ | _ | _ | _ | _ | _ | _ | _ | _ <;>
    exact ⟨_, _, rfl, by decide, by decide⟩

theorem exists_precedence (op : InfixOp) : ∃ level, Grammar.precedence? op.sign = some level := by
  rcases op with _ | _ | _ | _ | _ | _ | _ | _ | _ | _ | _ | _ <;> exact ⟨_, rfl⟩

end InfixOp

/-- A tree of integer operations. -/
inductive Tree
  | constant (c : Constant)
  | param (index : Nat)
  | negate (t : Tree)
  | pair (op : InfixOp) (l r : Tree)

/-- The identifier of a parameter. -/
def Context.identifier (cx : Context) (index : Nat) : String :=
  Identifier.ofName ((cx.method.params[index]?.map Variable.name).getD "")

namespace Tree

/-- The parameters in a tree. -/
def params : Tree → List Nat
  | constant _ => []
  | param index => [index]
  | negate t => t.params
  | pair _ l r => l.params ++ r.params

/-- The type and the magnitude of a constant that is written as minus a literal. -/
def signed? : Tree → Option (Bool × Nat)
  | constant c =>
    match c.form with
    | .negative n => some (c.wide, n)
    | _ => none
  | _ => none

/-- Whether a negation has a constant for its operand that is written with a minus sign in front. -/
def gluesSigns : Tree → Bool
  | constant _ | param _ => false
  | negate t => t.signed?.isSome || t.gluesSigns
  | pair _ l r => l.gluesSigns || r.gluesSigns

/-- A tree as an expression. -/
def asWritten : Tree → Parsed
  | constant c => c.asWritten
  | param index => .name index
  | negate t => .unary ['-'] t.asWritten
  | pair op l r => .pair op.sign l.asWritten r.asWritten

/-- The expression that the text of a tree is read as: two minus signs in a row are a decrement. -/
def asRead : Tree → Parsed
  | constant c => c.asWritten
  | param index => .name index
  | negate t =>
    match t.signed? with
    | some (wide, n) => .unary ['-', '-'] (.literal wide n)
    | none => .unary ['-'] t.asRead
  | pair op l r => .pair op.sign l.asRead r.asRead

theorem asRead_eq_asWritten_iff (t : Tree) : t.asRead = t.asWritten ↔ t.gluesSigns = false := by
  induction t with
  | constant c => simp [asRead, asWritten, gluesSigns]
  | param index => simp [asRead, asWritten, gluesSigns]
  | negate t ih =>
    rw [asRead, asWritten, gluesSigns]
    cases t.signed? with
    | some literal => simp
    | none => simpa using ih
  | pair op l r ihl ihr => simp [asRead, asWritten, gluesSigns, ihl, ihr]

section text

variable (cx : Context)

/-- The expression that a tree becomes. -/
def expr : Tree → Expr
  | constant c => c.expr
  | param index => .name (cx.identifier index)
  | negate t => .negate t.expr
  | pair op l r => op.expr l.expr r.expr

/-- The text of a tree. -/
def chars : Tree → List Char
  | constant c => c.chars
  | param index => (cx.identifier index).toList
  | negate t => '(' :: '-' :: t.chars ++ [')']
  | pair op l r => '(' :: l.chars ++ (' ' :: op.sign ++ ' ' :: r.chars) ++ [')']

/-- The tokens of a tree. -/
def tokens : Tree → List Token
  | constant c => c.tokens
  | param index => [.word (cx.identifier index).toList]
  | negate t =>
    match t.signed? with
    | some (wide, n) =>
      .sign ['('] :: [.sign ['-', '-'], .number (Constant.number wide n)] ++ [.sign [')']]
    | none => .sign ['('] :: (.sign ['-'] :: t.tokens) ++ [.sign [')']]
  | pair op l r => .sign ['('] :: l.tokens ++ .sign op.sign :: r.tokens ++ [.sign [')']]

/-- The parameter of an identifier. -/
def scope (t : Tree) (cs : List Char) : Option Nat :=
  t.params.find? fun index => (cx.identifier index).toList == cs

variable {cx} {t : Tree}

theorem render_expr (t : Tree) : (t.expr cx).render.toList = t.chars cx := by
  induction t with
  | constant c => exact c.render_expr
  | param index => rfl
  | negate t ih =>
    rw [chars, ← ih]
    change ("(-" ++ (t.expr cx).render ++ ")").toList = _
    simp [String.toList_append]
  | pair op l r ihl ihr => rw [expr, chars, op.render_expr, ihl, ihr]

theorem exists_of_signed {wide : Bool} {n : Nat} (h : t.signed? = some (wide, n)) :
    ∃ c, t = .constant c ∧ c.form = .negative n ∧ c.wide = wide := by
  cases t with
  | constant c =>
    rw [signed?] at h
    split at h
    · rename_i hform
      cases h
      exact ⟨c, rfl, hform, rfl⟩
    · cases h
  | param index => cases h
  | negate t => cases h
  | pair op l r => cases h

theorem chars_of_signed {wide : Bool} {n : Nat} (h : t.signed? = some (wide, n)) :
    t.chars cx = '-' :: Constant.number wide n := by
  obtain ⟨c, rfl, hform, rfl⟩ := exists_of_signed h
  rw [chars, Constant.chars, hform]

/-- What is not written with a minus sign in front starts with a character that does not make a
minus sign before it longer. -/
theorem chars_eq_cons (h : t.signed? = none) :
    ∃ c cs, t.chars cx = c :: cs ∧ c ∉ ['-', '>', '='] := by
  have hpart {c : Char} (hc : Identifier.isPart c) : c ∉ ['-', '>', '='] := by
    intro hmem
    simp only [List.mem_cons, List.not_mem_nil, or_false] at hmem
    obtain rfl | rfl | rfl := hmem <;> exact absurd hc (by decide)
  cases t with
  | constant c =>
    rw [chars, Constant.chars]
    cases hform : c.form with
    | plain n =>
      obtain ⟨first, ds, hnumber, hfirst, -⟩ := Constant.number_eq_cons c.wide n
      exact ⟨first, ds, hnumber, hpart (Grammar.isPart_of_isDigit hfirst)⟩
    | negative n => simp [signed?, hform] at h
    | least => exact ⟨'(', _, rfl, by decide⟩
  | param index =>
    obtain ⟨hlead, hparts⟩ := Identifier.isIdentifier_ofName
      ((cx.method.params[index]?.map Variable.name).getD "")
    rw [chars, Context.identifier]
    generalize (Identifier.ofName _).toList = cs at hlead hparts
    cases cs with
    | nil => cases hlead
    | cons c cs => exact ⟨c, cs, rfl, hpart (hparts c List.mem_cons_self)⟩
  | negate t => exact ⟨'(', _, rfl, by decide⟩
  | pair op l r => exact ⟨'(', _, rfl, by decide⟩

theorem lexes (t : Tree) : Lexes (t.chars cx) (t.tokens cx) := by
  induction t with
  | constant c => exact c.lexes
  | param index => exact Grammar.lexes_word (Identifier.isIdentifier_ofName _)
  | negate t ih =>
    rw [chars, tokens]
    cases hsigned : t.signed? with
    | some literal =>
      rw [chars_of_signed hsigned]
      exact (Constant.lexes_number literal.1 literal.2).decrement.paren
    | none =>
      obtain ⟨c, cs, hchars, hc⟩ : ∃ c cs, t.chars cx = c :: cs ∧ c ∉ ['-', '>', '='] :=
        chars_eq_cons hsigned
      rw [hchars] at ih ⊢
      exact (ih.minus hc).paren
  | pair op l r ihl ihr =>
    obtain ⟨c, sign, hsign, hmem, hpoint⟩ := op.sign_eq_cons
    rw [chars, tokens, hsign]
    exact ihl.pair ihr hmem hpoint

/-! ### Reading trees -/

section reads

variable {reserved : List (List Char)} {scope : List Char → Option Nat}

theorem reads (t : Tree) (hreserved : ∀ i ∈ t.params, (cx.identifier i).toList ∉ reserved)
    (hscope : ∀ i ∈ t.params, scope (cx.identifier i).toList = some i) :
    Reads reserved scope (t.tokens cx) t.asRead := by
  induction t with
  | constant c => exact c.reads
  | param index =>
    refine .operand nofun ?_
    rw [Grammar.operand?, if_neg (hreserved index (List.mem_singleton_self _)),
      hscope index (List.mem_singleton_self _)]
    rfl
  | negate t ih =>
    rw [tokens, asRead]
    cases hsigned : t.signed? with
    | some literal =>
      obtain ⟨c, -, hform, hwide⟩ := exists_of_signed hsigned
      have hle := Constant.le_greatest (.inr hform)
      rw [hwide] at hle
      exact ((Constant.reads_number hle).unary (by decide)).paren
    | none => exact ((ih hreserved hscope).unary (by decide)).paren
  | pair op l r ihl ihr =>
    obtain ⟨level, hlevel⟩ := op.exists_precedence
    have hl := ihl (fun i hi => hreserved i (List.mem_append_left _ hi))
      fun i hi => hscope i (List.mem_append_left _ hi)
    have hr := ihr (fun i hi => hreserved i (List.mem_append_right _ hi))
      fun i hi => hscope i (List.mem_append_right _ hi)
    exact hl.pair hlevel hr

/-- The identifier of every parameter is a token. -/
theorem word_mem_tokens {i : Nat} (h : i ∈ t.params) :
    .word (cx.identifier i).toList ∈ t.tokens cx := by
  induction t with
  | constant c => cases h
  | param index =>
    obtain rfl := List.mem_singleton.1 h
    exact List.mem_singleton_self _
  | negate t ih =>
    rw [tokens]
    cases hsigned : t.signed? with
    | some literal =>
      obtain ⟨c, rfl, -⟩ := exists_of_signed hsigned
      cases h
    | none => simpa using ih h
  | pair op l r ihl ihr =>
    rw [tokens]
    obtain hl | hr := List.mem_append.1 h
    · simp [ihl hl]
    · simp [ihr hr]

/-- A parameter is found by its identifier if no other has the same. -/
theorem scope_identifier
    (hdistinct : ∀ i ∈ t.params, ∀ j ∈ t.params, cx.identifier i = cx.identifier j → i = j)
    {i : Nat} (hi : i ∈ t.params) : t.scope cx (cx.identifier i).toList = some i := by
  let named (index : Nat) : Bool := (cx.identifier index).toList == (cx.identifier i).toList
  obtain ⟨found, hfound⟩ : ∃ found, t.params.find? named = some found :=
    Option.isSome_iff_exists.1 (List.find?_isSome.2 ⟨i, hi, beq_self_eq_true _⟩)
  have hname : named found = true := List.find?_some hfound
  obtain rfl := hdistinct found (List.mem_of_find?_eq_some hfound) i hi
    (String.toList_injective (beq_iff_eq.1 hname))
  exact hfound

/-- The text of a tree is read with decrements in it, if no parameter has the name of a reserved
word. -/
theorem read_render {reserved : List (List Char)}
    (hdistinct : ∀ i ∈ t.params, ∀ j ∈ t.params, cx.identifier i = cx.identifier j → i = j)
    (hreserved : ∀ i ∈ t.params, (cx.identifier i).toList ∉ reserved) :
    Grammar.read reserved (t.scope cx) (t.expr cx).render = some t.asRead := by
  refine Grammar.read_of_reads ?_ (t.reads hreserved fun i hi => scope_identifier hdistinct hi)
  rw [t.render_expr]
  exact t.lexes.tokens_eq

theorem not_reserved_of_read {reserved : List (List Char)} {x : Parsed}
    (h : Grammar.read reserved (t.scope cx) (t.expr cx).render = some x) :
    ∀ i ∈ t.params, (cx.identifier i).toList ∉ reserved := by
  intro i hi
  rw [Grammar.read, t.render_expr, t.lexes.tokens_eq, Option.bind_some] at h
  obtain ⟨reading, hreading, -⟩ := Option.bind_eq_some_iff.1 h
  exact Grammar.not_reserved_of_readFrom hreading (word_mem_tokens hi)

/-- The text of a tree is read as the tree exactly if no two minus signs meet in it and no parameter
has the name of a reserved word. -/
theorem read_render_iff
    (hdistinct : ∀ i ∈ t.params, ∀ j ∈ t.params, cx.identifier i = cx.identifier j → i = j)
    (reserved : List (List Char)) :
    Grammar.read reserved (t.scope cx) (t.expr cx).render = some t.asWritten ↔
      t.gluesSigns = false ∧ ∀ i ∈ t.params, (cx.identifier i).toList ∉ reserved := by
  constructor
  · intro h
    have hreserved := not_reserved_of_read h
    rw [read_render hdistinct hreserved] at h
    exact ⟨(asRead_eq_asWritten_iff t).1 (Option.some.inj h), hreserved⟩
  · rintro ⟨hglues, hreserved⟩
    rw [read_render hdistinct hreserved, (asRead_eq_asWritten_iff t).2 hglues]

end reads

end text

end Tree

/-! ### Evaluating trees -/

variable {cx : Context} {s s' : Emitter} {id : NodeId} {t : Tree}

/-- The nodes from `id` on form a tree of integer operations, none of which is used twice. -/
inductive Context.Spans (cx : Context) : NodeId → Tree → Prop
  | constant {id : NodeId} {c : Constant} {ty : Ty} (h : cx.graph.get? id = some ⟨c.kind, ty, []⟩) :
      Spans cx id (.constant c)
  | param {id : NodeId} {index : Nat} {ty : Ty}
      (h : cx.graph.get? id = some ⟨.param index, ty, []⟩)
      (hindex : index < cx.method.params.length) : Spans cx id (.param index)
  | negate {id a : NodeId} {ty : Ty} {t : Tree} (h : cx.graph.get? id = some ⟨.negate, ty, [a]⟩)
      (hused : cx.graph.useCount id ≤ 1) (ha : Spans cx a t) : Spans cx id (.negate t)
  | pair {id a b : NodeId} {op : InfixOp} {ty : Ty} {l r : Tree}
      (h : cx.graph.get? id = some ⟨op.kind, ty, [a, b]⟩) (hused : cx.graph.useCount id ≤ 1)
      (ha : Spans cx a l) (hb : Spans cx b r) : Spans cx id (.pair op l r)

namespace Context.Spans

/-- The operands of a node have smaller trees. -/
theorem operand (h : cx.Spans id t) {b : NodeId} (hb : cx.Operand id b) :
    ∃ t', cx.Spans b t' ∧ sizeOf t' < sizeOf t := by
  cases h with
  | constant h | param h => simp [Context.Operand, Graph.operands, h] at hb
  | negate h hused ha =>
    obtain rfl : b = _ := by simpa [Context.Operand, Graph.operands, h] using hb
    exact ⟨_, ha, by simp⟩
  | @pair _ x y op ty l r h hused hx hy =>
    obtain rfl | rfl : b = x ∨ b = y := by simpa [Context.Operand, Graph.operands, h] using hb
    · exact ⟨l, hx, by simp; omega⟩
    · exact ⟨r, hy, by simp⟩

theorem of_reflTransGen (h : cx.Spans id t) {b : NodeId} (hb : ReflTransGen cx.Operand id b) :
    ∃ t', cx.Spans b t' := by
  induction hb with
  | refl => exact ⟨t, h⟩
  | tail _ hb ih =>
    obtain ⟨middle, hmiddle⟩ := ih
    obtain ⟨t', ht', -⟩ := hmiddle.operand hb
    exact ⟨t', ht'⟩

/-- A node of a tree is neither a phi nor an array, and it is rendered in place. -/
theorem inline (h : cx.Spans id t) {node : Node} (hnode : cx.graph.get? id = some node) :
    (∀ predecessors, node.kind ≠ .phi predecessors) ∧ node.kind ≠ .newArray ∧
      cx.isKept id node = false := by
  cases h with
  | @constant _ c _ h =>
    obtain rfl := Option.some.inj (h.symm.trans hnode)
    cases c <;> simp [Context.isKept, Node.hasSideEffects, NodeKind.hasSideEffects,
      Context.isTrivial, Constant.kind, NodeKind.isConstant]
  | param h hindex =>
    obtain rfl := Option.some.inj (h.symm.trans hnode)
    simp [Context.isKept, Node.hasSideEffects, NodeKind.hasSideEffects, Context.isTrivial]
  | negate h hused ha =>
    obtain rfl := Option.some.inj (h.symm.trans hnode)
    simp [Context.isKept, Node.hasSideEffects, NodeKind.hasSideEffects, Nat.not_lt.2 hused]
  | @pair _ x y op ty l r h hused hx hy =>
    obtain rfl := Option.some.inj (h.symm.trans hnode)
    cases op <;> simp [Context.isKept, Node.hasSideEffects, NodeKind.hasSideEffects,
      InfixOp.kind, Nat.not_lt.2 hused]

/-- At the start no node of a tree has a name. -/
theorem value?_start (h : cx.Spans id t) (j : NodeId) (hj : ReflTransGen cx.Operand id j) :
    (Emitter.start cx).value? j = none := by
  obtain ⟨t', ht'⟩ := h.of_reflTransGen hj
  cases hv : (Emitter.start cx).value? j with
  | none => rfl
  | some v =>
    obtain ⟨phi, hphi, rfl, -⟩ := Emitter.value?_start hv
    exact absurd rfl ((ht'.inline (get?_of_mem_phis hphi)).1 phi.predecessors)

/-- A node demands nodes of smaller trees. -/
theorem demands (h : cx.Spans id t) {b : NodeId} (hd : Demands cx s id b) :
    ∃ t', cx.Spans b t' ∧ sizeOf t' < sizeOf t :=
  h.operand (operand_of_demands hd)

theorem lt_of_transGen {a b : NodeId} {t : Tree} (h : cx.Spans a t)
    (hd : TransGen (Demands cx s) a b) : ∃ t', cx.Spans b t' ∧ sizeOf t' < sizeOf t := by
  induction hd with
  | single hd => exact h.demands hd
  | tail _ hd ih =>
    obtain ⟨middle, hmiddle, hlt⟩ := ih
    obtain ⟨t', ht', hlt'⟩ := hmiddle.demands hd
    exact ⟨t', ht', hlt'.trans hlt⟩

/-- A tree has no cycle. -/
theorem not_transGen {a : NodeId} {t : Tree} (h : cx.Spans a t) :
    ¬ TransGen (Demands cx s) a a := by
  intro hcycle
  induction hn : sizeOf t using Nat.strongRecOn generalizing t with
  | _ n ih =>
    obtain ⟨t', ht', hlt⟩ := h.lt_of_transGen hcycle
    exact ih (sizeOf t') (hn ▸ hlt) ht' rfl

theorem ends (h : cx.Spans id t) (s : Emitter) : Ends cx s id := by
  intro a ha
  obtain rfl | hbelow := reflTransGen_iff_eq_or_transGen.1 ha
  · exact h.not_transGen
  · obtain ⟨t', ht', -⟩ := h.lt_of_transGen hbelow
    exact ht'.not_transGen

end Context.Spans

/-- A node that is not kept is rendered in place. -/
theorem produce_inline {node : Node} {args : List Value} {e : Expr} (hv : s.value? id = none)
    (hkind : node.kind ≠ .newArray) (he : cx.express id node (args.map Value.expr) = .ok e)
    (hkept : cx.isKept id node = false) :
    produce cx id node args s = .ok ⟨node.ty, e⟩ (s.render id) := by
  cases hproduce : produce cx id node args s with
  | error error s' => cases (error_of_produce hproduce).1.symm.trans (rendering_of_express he)
  | ok v s' =>
    cases produced_of_ok hv hproduce with
    | inline he' _ => rw [Except.ok.inj (he.symm.trans he')]
    | kept _ hk => cases hk.symm.trans hkept
    | array hkind' => exact absurd hkind' hkind

namespace Context.Spans

/-- A node of a tree is evaluated in place: first its operands, then it is an expression. -/
theorem evaluate_node (h : cx.Spans id t) {node : Node} {args : List Value} {s₁ : Emitter} {e : Expr}
    (hnode : cx.graph.get? id = some node) (hv : s.value? id = none)
    (hargs : (cx.evaluated node).mapM (evaluate cx) s = .ok args s₁)
    (hsame : ∀ j, s₁.value? j = s.value? j)
    (he : cx.express id node (args.map Value.expr) = .ok e) :
    evaluate cx id s = .ok ⟨node.ty, e⟩ (s₁.render id) := by
  obtain ⟨-, hkind, hkept⟩ := h.inline hnode
  rw [recursive_evaluate id s (h.ends s), evaluateBy_eq, hv, hnode]
  exact (Emit.bind_of_ok hargs).trans (produce_inline ((hsame id).trans hv) hkind he hkept)

/-- Evaluating a tree gives its expression and no node a name. -/
theorem exists_evaluate (h : cx.Spans id t)
    (hfree : ∀ j, ReflTransGen cx.Operand id j → s.value? j = none) :
    ∃ ty s', evaluate cx id s = .ok ⟨ty, t.expr cx⟩ s' ∧ ∀ j, s'.value? j = s.value? j := by
  induction h generalizing s with
  | @constant id c ty h =>
    have hargs : (cx.evaluated ⟨c.kind, ty, []⟩).mapM (evaluate cx) s = .ok [] s := by
      cases c <;> rfl
    have hexpress : cx.express id ⟨c.kind, ty, []⟩ [] = .ok c.expr := by cases c <;> rfl
    exact ⟨ty, s.render id, evaluate_node (.constant h) h (hfree id .refl) hargs (fun _ => rfl)
      hexpress, fun _ => rfl⟩
  | @param id index ty h hindex =>
    have hparam : cx.method.params[index]? = some cx.method.params[index] :=
      List.getElem?_eq_getElem hindex
    have hexpress : cx.express id ⟨.param index, ty, []⟩ [] =
        .ok (.name (cx.identifier index)) := by
      simp only [Context.express, Context.identifier, hparam]
      rfl
    exact ⟨ty, s.render id, evaluate_node (.param h hindex) h (hfree id .refl) rfl (fun _ => rfl)
      hexpress, fun _ => rfl⟩
  | @negate id a ty t h hused ha ih =>
    have hoperand : cx.Operand id a := by simp [Context.Operand, Graph.operands, h]
    obtain ⟨tya, s₁, heval, hsame⟩ := ih fun j hj => hfree j (.head hoperand hj)
    have hargs : (cx.evaluated ⟨.negate, ty, [a]⟩).mapM (evaluate cx) s =
        .ok [⟨tya, t.expr cx⟩] s₁ :=
      Emit.mapM_cons_ok.2 ⟨_, s₁, [], heval, rfl, rfl⟩
    exact ⟨ty, s₁.render id, evaluate_node (.negate h hused ha) h (hfree id .refl) hargs hsame rfl,
      hsame⟩
  | @pair id a b op ty l r h hused ha hb iha ihb =>
    have hleft : cx.Operand id a := by simp [Context.Operand, Graph.operands, h]
    have hright : cx.Operand id b := by simp [Context.Operand, Graph.operands, h]
    obtain ⟨tya, s₁, hevala, hsame₁⟩ := iha fun j hj => hfree j (.head hleft hj)
    obtain ⟨tyb, s₂, hevalb, hsame₂⟩ := ihb (s := s₁) fun j hj =>
      (hsame₁ j).trans (hfree j (.head hright hj))
    have hevaluated : cx.evaluated ⟨op.kind, ty, [a, b]⟩ = [a, b] := by cases op <;> rfl
    have hargs : (cx.evaluated ⟨op.kind, ty, [a, b]⟩).mapM (evaluate cx) s =
        .ok [⟨tya, l.expr cx⟩, ⟨tyb, r.expr cx⟩] s₂ := by
      rw [hevaluated]
      exact Emit.mapM_cons_ok.2 ⟨_, s₁, _, hevala,
        Emit.mapM_cons_ok.2 ⟨_, s₂, [], hevalb, rfl, rfl⟩, rfl⟩
    have hexpress : cx.express id ⟨op.kind, ty, [a, b]⟩ [l.expr cx, r.expr cx] =
        .ok (op.expr (l.expr cx) (r.expr cx)) := by cases op <;> rfl
    have hsame : ∀ j, s₂.value? j = s.value? j := fun j => (hsame₂ j).trans (hsame₁ j)
    exact ⟨ty, s₂.render id, evaluate_node (.pair h hused ha hb) h (hfree id .refl) hargs hsame
      hexpress, hsame⟩

end Context.Spans

/-- The text of a tree of integer operations, none of which is used twice, is read as the tree exactly
if no negation has a negative constant other than the least one for its operand and no parameter has
a reserved word for its identifier. There is such a text: evaluation succeeds. In the reading, a
literal has the type of its constant, a negative constant is minus its magnitude, and the least one is
the difference of minus the greatest one and one. -/
theorem evaluate_reads_back (h : cx.Spans id t)
    (hfree : ∀ j, ReflTransGen cx.Operand id j → s.value? j = none)
    (hdistinct : ∀ i ∈ t.params, ∀ j ∈ t.params, cx.identifier i = cx.identifier j → i = j) :
    ∃ v s', evaluate cx id s = .ok v s' ∧ ∀ reserved : List (List Char),
      Grammar.read reserved (t.scope cx) v.expr.render = some t.asWritten ↔
        t.gluesSigns = false ∧ ∀ i ∈ t.params, (cx.identifier i).toList ∉ reserved := by
  obtain ⟨ty, s', hok, -⟩ := h.exists_evaluate hfree
  exact ⟨_, s', hok, fun reserved => Tree.read_render_iff hdistinct reserved⟩

/-- Whether minus the difference of a parameter and a negative constant is less than the least
constant, and minus a negative constant. -/
def signs : Context where
  cls := { name := ⟨"Kernel"⟩ }
  method :=
    { name := "run"
      params := [⟨"n", .int⟩]
      graph := ⟨#[.param 0 .int, .int (-5), ⟨.binary .sub, .int, [0, 1]⟩, ⟨.negate, .int, [2]⟩,
        .int Int32.minValue, .compare .lt 3 4, ⟨.negate, .int, [1]⟩]⟩ }

def belowLeast : Tree :=
  .pair (.compare .lt) (.negate (.pair .sub (.param 0) (.constant (.int (-5)))))
    (.constant (.int Int32.minValue))

theorem spans_belowLeast : signs.Spans 5 belowLeast := by
  have hfive : signs.Spans 1 (.constant (.int (-5))) := .constant rfl
  have hsub : signs.Spans 2 (.pair .sub (.param 0) (.constant (.int (-5)))) :=
    .pair rfl (by decide) (.param rfl (by decide)) hfive
  have hleast : signs.Spans 4 (.constant (.int Int32.minValue)) := .constant rfl
  exact .pair rfl (by decide) (.negate rfl (by decide) hsub) hleast

theorem evaluate_reads_back_belowLeast :
    ∃ v s', evaluate signs 5 (Emitter.start signs) = .ok v s' ∧
      Grammar.read Grammar.keywords (belowLeast.scope signs) v.expr.render =
        some (.pair ['<']
          (.unary ['-'] (.pair ['-'] (.name 0) (.unary ['-'] (.literal false 5))))
          (.pair ['-'] (.unary ['-'] (.literal false 2147483647)) (.literal false 1))) := by
  have hfree := spans_belowLeast.value?_start
  obtain ⟨v, s', hok, hread⟩ := evaluate_reads_back spans_belowLeast hfree (by decide)
  exact ⟨v, s', hok, (hread Grammar.keywords).2 ⟨by decide, by decide⟩⟩

def minusMinusFive : Tree :=
  .negate (.constant (.int (-5)))

/-- Minus a negative constant is read as the decrement of its magnitude. -/
theorem decrement_of_minusMinusFive :
    signs.Spans 6 minusMinusFive ∧
      ∃ v s', evaluate signs 6 (Emitter.start signs) = .ok v s' ∧ v.expr.render = "(--5)" ∧
        Grammar.read Grammar.keywords (minusMinusFive.scope signs) v.expr.render =
          some (.unary ['-', '-'] (.literal false 5)) ∧
        minusMinusFive.asWritten = .unary ['-'] (.unary ['-'] (.literal false 5)) := by
  have hspans : signs.Spans 6 minusMinusFive := .negate rfl (by decide) (.constant rfl)
  obtain ⟨ty, s', hok, -⟩ := hspans.exists_evaluate hspans.value?_start
  have hread : Grammar.read Grammar.keywords (minusMinusFive.scope signs)
      (minusMinusFive.expr signs).render = some minusMinusFive.asRead :=
    Tree.read_render nofun nofun
  have htext : (minusMinusFive.expr signs).render = "(--5)" := by decide
  exact ⟨hspans, _, s', hok, htext, hread, by decide⟩

end KernelForge.Source
