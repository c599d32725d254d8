import Mathlib.Data.List.Basic
import Mathlib.Tactic.IntervalCases
import KernelForge.Proofs.Lexing

/-!
# Expressions of the kernel language, as they are read

The tokens of an expression are put together by the precedence of the operators of C. `step` reads one
token: the operations that are waiting for their right operand are on a stack, and an operator
completes all of them that bind at least as tightly as it does. Operators in front of an operand bind
most tightly, so they are applied as soon as the operand is there. Assignments, calls, conversions and
everything else that takes more than operators and parentheses is not read.
-/

namespace KernelForge.Grammar

/-- An expression of literals, names and operators. What a name stands for is a number. -/
inductive Parsed
  /-- A literal of 32 bits, or of 64 bits if it is wide. -/
  | literal (wide : Bool) (value : Nat)
  | name (index : Nat)
  | unary (sign : List Char) (operand : Parsed)
  | pair (sign : List Char) (lhs rhs : Parsed)
deriving DecidableEq

/-! ### Literals -/

/-- The greatest value of a literal. -/
def greatest (wide : Bool) : Nat :=
  if wide then 9223372036854775807 else 2147483647

/-- The value of decimal digits. A leading zero would make them octal. -/
def decimal? (digits : List Char) : Option Nat :=
  match digits with
  | [] => none
  | ['0'] => some 0
  | '0' :: _ => none
  | digits => some (Nat.ofDigitChars 10 digits 0)

/-- The type of a literal without a suffix is the first one that holds its value, and a suffix asks
for the wide type. Literals that no type holds have no reading. -/
def literalOf (suffix : List Char) (value : Nat) : Option Parsed :=
  if suffix = [] ∧ value ≤ greatest false then some (.literal false value)
  else if (suffix = [] ∨ suffix = ['L'] ∨ suffix = ['l']) ∧ value ≤ greatest true then
    some (.literal true value)
  else none

/-- Read a number as a decimal literal. -/
def literal? (cs : List Char) : Option Parsed :=
  (decimal? (cs.takeWhile Char.isDigit)).bind (literalOf (cs.dropWhile Char.isDigit))

/-! ### Operators -/

/-- The operators that stand in front of their operand. -/
def unarySigns : List (List Char) :=
  ["-", "+", "!", "~", "++", "--", "*", "&"].map String.toList

/-- The operators between two operands and how tightly they bind. -/
def precedences : List (List Char × Nat) :=
  [("*", 10), ("/", 10), ("%", 10), ("+", 9), ("-", 9), ("<<", 8), (">>", 8), ("<", 7), ("<=", 7),
    (">", 7), (">=", 7), ("==", 6), ("!=", 6), ("&", 5), ("^", 4), ("|", 3), ("&&", 2),
    ("||", 1)].map fun (sign, level) => (sign.toList, level)

/-- How tightly an operator between two operands binds. -/
def precedence? (sign : List Char) : Option Nat :=
  precedences.lookup sign

/-- The reserved words of C. -/
def keywords : List (List Char) :=
  ["auto", "break", "case", "char", "const", "continue", "default", "do", "double", "else", "enum",
    "extern", "float", "for", "goto", "if", "inline", "int", "long", "register", "restrict", "return",
    "short", "signed", "sizeof", "static", "struct", "switch", "typedef", "union", "unsigned", "void",
    "volatile", "while", "_Bool", "_Complex", "_Imaginary"].map String.toList

/-! ### Reading -/

/-- What waits for an operand. -/
inductive Pending
  | paren
  | unary (sign : List Char)
  /-- An operator of some precedence and its left operand. -/
  | pair (sign : List Char) (level : Nat) (lhs : Parsed)

/-- A reading: the operand that was read last, if the next token may continue it, and what waits. -/
abbrev Reading := Option Parsed × List Pending

/-- Give an operand to the operators in front of it. -/
def complete (x : Parsed) : List Pending → Reading
  | .unary sign :: waiting => complete (.unary sign x) waiting
  | waiting => (some x, waiting)

/-- Complete the operations that bind at least as tightly as a given precedence. -/
def reduce (level : Nat) (x : Parsed) : List Pending → Parsed × List Pending
  | .pair sign level' lhs :: waiting =>
    if level ≤ level' then reduce level (.pair sign lhs x) waiting
    else (x, .pair sign level' lhs :: waiting)
  | waiting => (x, waiting)

section

variable (reserved : List (List Char)) (scope : List Char → Option Nat)

/-- Read a word or a number as an operand. A reserved word names nothing. -/
def operand? : Token → Option Parsed
  | .word cs => if cs ∈ reserved then none else (scope cs).map .name
  | .number cs => literal? cs
  | .sign _ => none

/-- Read one token. -/
def step : Reading → Token → Option Reading
  | (none, waiting), .sign sign =>
    if sign = ['('] then some (none, .paren :: waiting)
    else if sign ∈ unarySigns then some (none, .unary sign :: waiting)
    else none
  | (none, waiting), token => (operand? reserved scope token).map (complete · waiting)
  | (some x, waiting), .sign sign =>
    if sign = [')'] then
      match reduce 0 x waiting with
      | (x, .paren :: waiting) => some (complete x waiting)
      | _ => none
    else (precedence? sign).map fun level =>
      let (lhs, waiting) := reduce level x waiting
      (none, .pair sign level lhs :: waiting)
  | (some _, _), _ => none

/-- Read tokens one after the other. -/
def readFrom (reading : Reading) (tokens : List Token) : Option Reading :=
  tokens.foldlM (step reserved scope) reading

/-- The expression that was read, if nothing waits any more. -/
def finish : Reading → Option Parsed
  | (some x, waiting) =>
    match reduce 0 x waiting with
    | (x, []) => some x
    | _ => none
  | (none, _) => none

/-- Read a text as an expression. -/
def read (text : String) : Option Parsed :=
  (tokens text.toList).bind fun tokens => (readFrom reserved scope (none, []) tokens).bind finish

end

/-! ### Literals that are read -/

/-- Only zero is written with a zero in front. -/
theorem head?_toDigits_of_pos {n : Nat} (h : 0 < n) : (Nat.toDigits 10 n).head? ≠ some '0' := by
  induction n using Nat.strongRecOn with
  | _ n ih =>
    by_cases hsmall : n < 10
    · rw [Nat.toDigits_of_lt_base hsmall]
      interval_cases n <;> decide
    · have hle : 10 ≤ n := Nat.le_of_not_lt hsmall
      rw [Nat.toDigits_of_base_le (by decide) hle,
        List.head?_append_of_ne_nil _ Nat.toDigits_ne_nil]
      exact ih (n / 10) (by omega) (by omega)

theorem decimal?_toDigits (n : Nat) : decimal? (Nat.toDigits 10 n) = some n := by
  by_cases h : n = 0
  · rw [h]
    rfl
  · have hhead := head?_toDigits_of_pos (Nat.pos_of_ne_zero h)
    have hvalue := Nat.ofDigitChars_ten_toDigits (n := n)
    unfold decimal?
    split
    · rename_i hnil
      exact absurd hnil Nat.toDigits_ne_nil
    · rename_i hzero
      exact absurd (congrArg List.head? hzero) hhead
    · rename_i hzero
      exact absurd (congrArg List.head? hzero) hhead
    · exact congrArg some hvalue

/-- The digits of a literal end where its suffix starts. -/
theorem literal?_toDigits {suffix : List Char} (h : ∀ c ∈ suffix.head?, c.isDigit = false)
    (n : Nat) : literal? (Nat.toDigits 10 n ++ suffix) = literalOf suffix n := by
  have hdigits : ∀ c ∈ Nat.toDigits 10 n, c.isDigit := fun c hc =>
    Nat.isDigit_of_mem_toDigits (by decide) (by decide) hc
  have htake : suffix.takeWhile Char.isDigit = [] := by
    cases suffix with
    | nil => rfl
    | cons c cs => exact List.takeWhile_cons_of_neg (by simp [h c rfl])
  have hdrop : suffix.dropWhile Char.isDigit = suffix := by
    have hall := List.takeWhile_append_dropWhile (p := Char.isDigit) (l := suffix)
    rwa [htake] at hall
  rw [literal?, List.takeWhile_append_of_pos hdigits, List.dropWhile_append_of_pos hdigits, htake,
    hdrop, List.append_nil, decimal?_toDigits]
  rfl

/-! ### Expressions that are read -/

variable {reserved : List (List Char)} {scope : List Char → Option Nat} {x l r : Parsed}
  {sign : List Char} {waiting : List Pending} {ts : List Token}

/-- Whatever waits for an operand, these tokens are read as one. -/
def Reads (reserved : List (List Char)) (scope : List Char → Option Nat) (ts : List Token)
    (x : Parsed) : Prop :=
  ∀ waiting, readFrom reserved scope (none, waiting) ts = some (complete x waiting)

theorem readFrom_cons {reading next : Reading} {token : Token}
    (h : step reserved scope reading token = some next) (ts : List Token) :
    readFrom reserved scope reading (token :: ts) = readFrom reserved scope next ts := by
  rw [readFrom, List.foldlM_cons, h]
  rfl

theorem readFrom_append {reading next : Reading} {ts : List Token}
    (h : readFrom reserved scope reading ts = some next) (more : List Token) :
    readFrom reserved scope reading (ts ++ more) = readFrom reserved scope next more := by
  rw [readFrom] at h ⊢
  rw [List.foldlM_append, h]
  rfl

theorem step_open (waiting : List Pending) :
    step reserved scope (none, waiting) (.sign ['(']) = some (none, .paren :: waiting) :=
  rfl

theorem step_unary (h : sign ∈ unarySigns) (waiting : List Pending) :
    step reserved scope (none, waiting) (.sign sign) = some (none, .unary sign :: waiting) := by
  have hparen : sign ≠ ['('] := by
    rintro rfl
    exact absurd h (by decide)
  rw [step, if_neg hparen, if_pos h]

/-- Inside parentheses, the first operation is never complete before its right operand. -/
theorem step_pair {level : Nat} (h : precedence? sign = some level) (x : Parsed)
    (waiting : List Pending) :
    step reserved scope (some x, .paren :: waiting) (.sign sign) =
      some (none, .pair sign level x :: .paren :: waiting) := by
  have hparen : sign ≠ [')'] := by
    rintro rfl
    cases h
  rw [step, if_neg hparen, h]
  rfl

theorem step_close (x : Parsed) (waiting : List Pending) :
    step reserved scope (some x, .paren :: waiting) (.sign [')']) = some (complete x waiting) :=
  rfl

theorem step_close_pair (l r : Parsed) (level : Nat) (waiting : List Pending) :
    step reserved scope (some r, .pair sign level l :: .paren :: waiting) (.sign [')']) =
      some (complete (.pair sign l r) waiting) := by
  rw [step, if_pos rfl, reduce, if_pos (Nat.zero_le _)]
  rfl

namespace Reads

theorem operand {token : Token} (hsign : ∀ sign, token ≠ .sign sign)
    (h : operand? reserved scope token = some x) : Reads reserved scope [token] x := by
  intro waiting
  have hstep : step reserved scope (none, waiting) token = some (complete x waiting) := by
    cases token with
    | sign sign => exact absurd rfl (hsign sign)
    | word cs | number cs =>
      rw [step, h]
      · rfl
      · exact nofun
  rw [readFrom_cons hstep]
  rfl

/-- An operator in front of an operand. -/
theorem unary (hsign : sign ∈ unarySigns) (h : Reads reserved scope ts x) :
    Reads reserved scope (.sign sign :: ts) (.unary sign x) := by
  intro waiting
  rw [readFrom_cons (step_unary hsign waiting), h]
  rfl

theorem paren (h : Reads reserved scope ts x) :
    Reads reserved scope (.sign ['('] :: ts ++ [.sign [')']]) x := by
  intro waiting
  rw [List.cons_append, readFrom_cons (step_open waiting), readFrom_append (h _)]
  exact readFrom_cons (step_close x waiting) []

/-- An operation in parentheses. -/
theorem pair {level : Nat} {ls rs : List Token} (hsign : precedence? sign = some level)
    (hl : Reads reserved scope ls l) (hr : Reads reserved scope rs r) :
    Reads reserved scope (.sign ['('] :: ls ++ .sign sign :: rs ++ [.sign [')']])
      (.pair sign l r) := by
  intro waiting
  rw [List.append_assoc, List.cons_append, readFrom_cons (step_open waiting),
    readFrom_append (hl _), List.cons_append]
  change readFrom reserved scope (some l, .paren :: waiting) _ = _
  rw [readFrom_cons (step_pair hsign l waiting), readFrom_append (hr _)]
  exact readFrom_cons (step_close_pair l r level waiting) []

end Reads

theorem read_of_reads {text : String} (htokens : tokens text.toList = some ts)
    (h : Reads reserved scope ts x) : read reserved scope text = some x := by
  rw [read, htokens, Option.bind_some, h []]
  rfl

/-- Nothing is read where a word is reserved. -/
theorem not_reserved_of_readFrom {reading next : Reading}
    (h : readFrom reserved scope reading ts = some next) {cs : List Char} (hcs : .word cs ∈ ts) :
    cs ∉ reserved := by
  induction ts generalizing reading with
  | nil => cases hcs
  | cons token ts ih =>
    rw [readFrom, List.foldlM_cons] at h
    obtain ⟨middle, hstep, hrest⟩ := Option.bind_eq_some_iff.1 h
    obtain heq | hmem := List.mem_cons.1 hcs
    · subst heq
      intro hreserved
      obtain ⟨_ | y, waiting⟩ := reading
      · rw [step, operand?, if_pos hreserved] at hstep
        · cases hstep
        · exact nofun
      · cases hstep
    · exact ih hrest hmem

end KernelForge.Grammar
