import Mathlib.Data.List.TakeWhile
import Mathlib.Tactic.Common
import KernelForge.Text.Identifier

/-!
# Tokens of the kernel language

The text of an expression is cut into tokens from left to right, each as long as possible: words,
numbers and the signs of C. What a number is here is what the preprocessor takes for one, so it may be
no literal. Only blanks and line ends separate tokens that would run together otherwise.

Cutting is done by `tokens`, one token at a time by `next?`. The lemmas say when a text starts with a
given token: a word or a number must be followed by something that does not continue it
(`next?_word`, `next?_number`), a sign by something that does not make it longer (`next?_sign`).
-/

namespace KernelForge.Grammar

open Identifier (isPart)

/-- A token. -/
inductive Token
  /-- An identifier or a keyword. -/
  | word (cs : List Char)
  | number (cs : List Char)
  /-- An operator or a bracket. -/
  | sign (cs : List Char)
deriving DecidableEq

/-! ### Cutting a text -/

/-- The signs, the longer ones first. -/
def signs : List (List Char) :=
  ["<<=", ">>=", "...", "->", "++", "--", "<<", ">>", "<=", ">=", "==", "!=", "&&", "||", "*=", "/=",
    "%=", "+=", "-=", "&=", "^=", "|=", "##", "[", "]", "(", ")", "\x7b", "\x7d", ".", "&", "*", "+", "-",
    "~", "!", "/", "%", "<", ">", "^", "|", "?", ":", ";", "=", ",", "#"].map String.toList

/-- Whether a text starts with a number: with a digit, or with a point and a digit. -/
def startsNumber : List Char → Bool
  | '.' :: d :: _ => d.isDigit
  | c :: _ => c.isDigit
  | [] => false

/-- How far a number goes on, and what follows it. A sign belongs to it after the letter of an
exponent. -/
def splitNumber (afterExponent : Bool) : List Char → List Char × List Char
  | [] => ([], [])
  | c :: cs =>
    if isPart c || c == '.' || (afterExponent && (c == '+' || c == '-')) then
      let (more, rest) := splitNumber (c ∈ ['e', 'E', 'p', 'P']) cs
      (c :: more, rest)
    else ([], c :: cs)

/-- The first token of a text that does not start with a blank, and what follows it. -/
def next? (cs : List Char) : Option (Token × List Char) :=
  if startsNumber cs then
    let (number, rest) := splitNumber false cs
    some (.number number, rest)
  else match cs.takeWhile isPart with
    | [] => (signs.find? (·.isPrefixOf cs)).map fun sign => (.sign sign, cs.drop sign.length)
    | word => some (.word word, cs.dropWhile isPart)

/-- A character that separates tokens. -/
def isBlank (c : Char) : Bool :=
  c == ' ' || c == '\n' || c == '\t'

theorem length_splitNumber (afterExponent : Bool) (cs : List Char) :
    (splitNumber afterExponent cs).1.length + (splitNumber afterExponent cs).2.length =
      cs.length := by
  induction cs generalizing afterExponent with
  | nil => rfl
  | cons c cs ih =>
    rw [splitNumber]
    split_ifs
    · have := ih (decide (c ∈ ['e', 'E', 'p', 'P']))
      simp only [List.length_cons]
      omega
    · simp

theorem eq_point_or_isDigit {c : Char} {cs : List Char} (h : startsNumber (c :: cs)) :
    c = '.' ∨ c.isDigit := by
  unfold startsNumber at h
  split at h
  · rename_i heq
    exact .inl (List.cons.inj heq).1
  · rename_i heq
    exact .inr ((List.cons.inj heq).1 ▸ h)
  · cases h

theorem isPart_of_isDigit {c : Char} (h : c.isDigit) : isPart c := by
  simp [isPart, Char.isAlphanum, h]

/-- Every token has a character. -/
theorem length_lt_of_next? {cs rest : List Char} {token : Token} (h : next? cs = some (token, rest)) :
    rest.length < cs.length := by
  rw [next?] at h
  split_ifs at h with hnumber
  · cases h
    cases cs with
    | nil => cases hnumber
    | cons c cs =>
      have hstart : (isPart c || c == '.' || (false && (c == '+' || c == '-'))) = true := by
        obtain rfl | hdigit := eq_point_or_isDigit hnumber
        · rfl
        · simp [isPart_of_isDigit hdigit]
      have hlength := length_splitNumber (decide (c ∈ ['e', 'E', 'p', 'P'])) cs
      rw [splitNumber, if_pos hstart, List.length_cons]
      dsimp only
      omega
  · split at h
    · obtain ⟨sign, hsign, heq⟩ := Option.map_eq_some_iff.1 h
      cases heq
      have hmem : ∀ sign ∈ signs, 0 < sign.length := by decide
      have hpos := hmem sign (List.mem_of_find?_eq_some hsign)
      have hfound : sign.isPrefixOf cs = true := by simpa using List.find?_some hsign
      have hle := (List.isPrefixOf_iff_prefix.1 hfound).length_le
      rw [List.length_drop]
      omega
    · rename_i hword
      cases h
      have hlength := congrArg List.length (List.takeWhile_append_dropWhile (p := isPart) (l := cs))
      have hpos : (cs.takeWhile isPart).length ≠ 0 := fun hzero =>
        hword (List.length_eq_zero_iff.1 hzero)
      rw [List.length_append] at hlength
      omega

/-- The tokens of a text, if it is made of tokens. -/
def tokens (cs : List Char) : Option (List Token) :=
  match cs with
  | [] => some []
  | c :: cs =>
    if isBlank c then tokens cs
    else match _h : next? (c :: cs) with
      | none => none
      | some (token, rest) => (token :: ·) <$> tokens rest
termination_by cs.length
decreasing_by
  · exact Nat.lt_succ_self _
  · exact length_lt_of_next? _h

variable {c : Char} {cs ds rest : List Char}

theorem isBlank_of_isPart (h : isPart c) : isBlank c = false := by
  rw [Bool.eq_false_iff]
  intro hblank
  rw [isBlank, Bool.or_eq_true, Bool.or_eq_true, beq_iff_eq, beq_iff_eq, beq_iff_eq] at hblank
  obtain (rfl | rfl) | rfl := hblank <;> exact absurd h (by decide)

theorem tokens_nil : tokens [] = some [] := by
  rw [tokens]

theorem tokens_blank (h : isBlank c) (cs : List Char) : tokens (c :: cs) = tokens cs := by
  rw [tokens, if_pos h]

theorem tokens_of_next? {token : Token} (h : next? (c :: cs) = some (token, rest))
    (hc : isBlank c = false) : tokens (c :: cs) = (token :: ·) <$> tokens rest := by
  rw [tokens, if_neg (by simp [hc])]
  split
  · rename_i hnone
    cases hnone.symm.trans h
  · rename_i hsome
    cases hsome.symm.trans h
    rfl

/-! ### The first token -/

/-- A text that starts with something that ends any word or number. -/
def Delimited (cs : List Char) : Prop :=
  ∀ c ∈ cs.head?, c = ' ' ∨ c = ')'

theorem Delimited.isPart (h : Delimited rest) : ∀ c ∈ rest.head?, isPart c = false := by
  intro c hc
  obtain rfl | rfl := h c hc <;> decide

theorem takeWhile_eq_nil (h : ∀ c ∈ cs.head?, isPart c = false) : cs.takeWhile isPart = [] := by
  cases cs with
  | nil => rfl
  | cons c cs => exact List.takeWhile_cons_of_neg (by simp [h c rfl])

theorem startsNumber_of_isDigit (h : c.isDigit) (cs : List Char) : startsNumber (c :: cs) := by
  unfold startsNumber
  split
  · rename_i heq
    rw [(List.cons.inj heq).1] at h
    cases h
  · rename_i heq
    rwa [← (List.cons.inj heq).1]
  · contradiction

theorem startsNumber_eq_false (hpoint : c ≠ '.') (hdigit : c.isDigit = false) (cs : List Char) :
    startsNumber (c :: cs) = false := by
  rw [Bool.eq_false_iff]
  intro h
  obtain heq | h := eq_point_or_isDigit h
  · exact hpoint heq
  · rw [hdigit] at h
    cases h

theorem splitNumber_append (hds : ∀ d ∈ ds, isPart d) (hrest : Delimited rest)
    (afterExponent : Bool) : splitNumber afterExponent (ds ++ rest) = (ds, rest) := by
  induction ds generalizing afterExponent with
  | nil =>
    cases rest with
    | nil => rfl
    | cons c rest =>
      obtain rfl | rfl := hrest c rfl <;> cases afterExponent <;> rfl
  | cons d ds ih =>
    have hd : isPart d = true := hds d List.mem_cons_self
    rw [List.cons_append, splitNumber, if_pos (by simp [hd]),
      ih fun d hd => hds d (List.mem_cons_of_mem _ hd)]

/-- A number is cut off where nothing continues it. -/
theorem next?_number (hc : c.isDigit) (hds : ∀ d ∈ ds, isPart d) (hrest : Delimited rest) :
    next? (c :: ds ++ rest) = some (.number (c :: ds), rest) := by
  have hall : ∀ d ∈ c :: ds, isPart d := List.forall_mem_cons.2 ⟨isPart_of_isDigit hc, hds⟩
  rw [next?, List.cons_append, if_pos (startsNumber_of_isDigit hc _), ← List.cons_append,
    splitNumber_append hall hrest]

/-- A word is cut off where nothing continues it. -/
theorem next?_word (hc : c.isDigit = false) (hcs : ∀ d ∈ c :: cs, isPart d)
    (hrest : Delimited rest) : next? (c :: cs ++ rest) = some (.word (c :: cs), rest) := by
  have hpoint : c ≠ '.' := by
    rintro rfl
    exact absurd (hcs '.' List.mem_cons_self) (by decide)
  have htake : (c :: cs ++ rest).takeWhile isPart = c :: cs := by
    rw [List.takeWhile_append_of_pos hcs, takeWhile_eq_nil hrest.isPart, List.append_nil]
  have hdrop : (c :: cs ++ rest).dropWhile isPart = rest := by
    have hall := List.takeWhile_append_dropWhile (p := isPart) (l := c :: cs ++ rest)
    rw [htake] at hall
    exact List.append_cancel_left hall
  rw [next?, List.cons_append, startsNumber_eq_false hpoint hc, ← List.cons_append, htake, hdrop]
  rfl

/-- What starts with neither a number nor a word starts with a sign, if with anything. -/
theorem next?_sign {sign : List Char} (hpoint : c ≠ '.') (hc : isPart c = false)
    (h : signs.find? (·.isPrefixOf (c :: cs)) = some sign) :
    next? (c :: cs) = some (.sign sign, (c :: cs).drop sign.length) := by
  have hdigit : c.isDigit = false := by
    rw [Bool.eq_false_iff]
    intro hdigit
    rw [isPart_of_isDigit hdigit] at hc
    cases hc
  rw [next?, startsNumber_eq_false hpoint hdigit, takeWhile_eq_nil (by simpa using hc)]
  simp [h]

/-- The sign that is found is the longest one that a text starts with. -/
theorem length_le_of_find? {sign other : List Char}
    (h : signs.find? (·.isPrefixOf cs) = some sign) (hother : other ∈ signs)
    (hstarts : other <+: cs) : other.length ≤ sign.length := by
  have hsorted : signs.Pairwise fun longer shorter => shorter.length ≤ longer.length := by decide
  -- The list is sorted, and what stands before the sign does not start the text.
  obtain ⟨-, before, after, hsigns, hbefore⟩ := List.find?_eq_some_iff_append.1 h
  rw [hsigns] at hother hsorted
  obtain hmem | rfl | hmem := by simpa using hother
  · have hnot := hbefore other hmem
    rw [List.isPrefixOf_iff_prefix.2 hstarts] at hnot
    cases hnot
  · exact Nat.le_refl _
  · exact (List.pairwise_cons.1 (List.pairwise_append.1 hsorted).2.1).1 other hmem

/-- A sign that is followed by a blank is not part of a longer one. -/
theorem find?_blank {sign : List Char} (h : sign ∈ signs) (cs : List Char) :
    signs.find? (·.isPrefixOf (sign ++ ' ' :: cs)) = some sign := by
  have hstarts : sign <+: sign ++ ' ' :: cs := List.prefix_append sign _
  have hfits : sign.isPrefixOf (sign ++ ' ' :: cs) = true := List.isPrefixOf_iff_prefix.2 hstarts
  obtain ⟨found, hfound⟩ : ∃ found, signs.find? (·.isPrefixOf (sign ++ ' ' :: cs)) = some found :=
    Option.isSome_iff_exists.1 (List.find?_isSome.2 ⟨sign, h, hfits⟩)
  have hle := length_le_of_find? hfound h hstarts
  have hprefix : found <+: sign ++ ' ' :: cs :=
    List.isPrefixOf_iff_prefix.1 (by simpa using List.find?_some hfound)
  have hblank : ∀ sign ∈ signs, ' ' ∉ sign := by decide
  have hmem := List.mem_of_find?_eq_some hfound
  obtain hshort | ⟨more, rfl⟩ := List.prefix_or_prefix_of_prefix hprefix hstarts
  · rw [hfound, hshort.eq_of_length_le hle]
  · -- A longer sign would have the blank in it.
    rw [List.prefix_append_right_inj] at hprefix
    cases more with
    | nil => simpa using hfound
    | cons c more =>
      obtain ⟨rest, hrest⟩ := hprefix
      obtain rfl := (List.cons.inj hrest).1
      exact absurd (by simp) (hblank _ hmem)

/-! ### Texts of which the tokens are known -/

/-- A text that has these tokens wherever it is followed by a blank, a closing parenthesis or
nothing. -/
def Lexes (cs : List Char) (ts : List Token) : Prop :=
  ∀ rest, Delimited rest → tokens (cs ++ rest) = (ts ++ ·) <$> tokens rest

theorem Lexes.tokens_eq {ts : List Token} (h : Lexes cs ts) : tokens cs = some ts := by
  have hall := h [] (by simp [Delimited])
  rw [List.append_nil, tokens_nil] at hall
  simpa using hall

theorem lexes_number (hc : c.isDigit) (hds : ∀ d ∈ ds, isPart d) :
    Lexes (c :: ds) [.number (c :: ds)] := by
  intro rest hrest
  exact tokens_of_next? (next?_number hc hds hrest) (isBlank_of_isPart (isPart_of_isDigit hc))

theorem lexes_word (h : Identifier.IsIdentifier cs) : Lexes cs [.word cs] := by
  intro rest hrest
  obtain ⟨hlead, hparts⟩ := h
  cases cs with
  | nil => cases hlead
  | cons c cs =>
    exact tokens_of_next? (next?_word hlead hparts hrest)
      (isBlank_of_isPart (hparts c List.mem_cons_self))

/-- A parenthesis is a token, whatever follows. -/
theorem tokens_open (cs : List Char) : tokens ('(' :: cs) = (.sign ['('] :: ·) <$> tokens cs :=
  tokens_of_next? (next?_sign (by decide) (by decide) rfl) (by decide)

theorem tokens_close (cs : List Char) : tokens (')' :: cs) = (.sign [')'] :: ·) <$> tokens cs :=
  tokens_of_next? (next?_sign (by decide) (by decide) rfl) (by decide)

/-- A minus sign is a token if what follows does not make it a longer one. -/
theorem tokens_minus (h : c ∉ ['-', '>', '=']) (cs : List Char) :
    tokens ('-' :: c :: cs) = (.sign ['-'] :: ·) <$> tokens (c :: cs) := by
  simp only [List.mem_cons, List.not_mem_nil, or_false, not_or] at h
  obtain ⟨hminus, harrow, hassign⟩ := h
  have hfind : signs.find? (·.isPrefixOf ('-' :: c :: cs)) = some ['-'] := by
    simp [signs, List.isPrefixOf, Ne.symm hminus, Ne.symm harrow, Ne.symm hassign]
  exact tokens_of_next? (next?_sign (by decide) (by decide) hfind) (by decide)

/-- Two minus signs are one token. -/
theorem tokens_decrement (cs : List Char) :
    tokens ('-' :: '-' :: cs) = (.sign ['-', '-'] :: ·) <$> tokens cs :=
  tokens_of_next? (next?_sign (by decide) (by decide) rfl) (by decide)

/-- An operator between blanks is a token. -/
theorem tokens_blank_sign {sign : List Char} (h : c :: sign ∈ signs) (hpoint : c ≠ '.')
    (cs : List Char) :
    tokens (' ' :: c :: sign ++ ' ' :: cs) = (.sign (c :: sign) :: ·) <$> tokens cs := by
  have hheads : (signs.all fun sign => sign.head?.all fun c => !isPart c && !isBlank c) = true := rfl
  have hhead := List.all_eq_true.1 hheads _ h
  obtain ⟨hpart, hblank⟩ : isPart c = false ∧ isBlank c = false := by simpa using hhead
  have hnext : next? (c :: sign ++ ' ' :: cs) = some (.sign (c :: sign), ' ' :: cs) := by
    have hdrop : (c :: sign ++ ' ' :: cs).drop (c :: sign).length = ' ' :: cs := List.drop_left
    exact (next?_sign hpoint hpart (find?_blank h cs)).trans
      (congrArg (fun rest => some (Token.sign (c :: sign), rest)) hdrop)
  rw [List.cons_append, tokens_blank (by decide)]
  exact (tokens_of_next? hnext hblank).trans (by rw [tokens_blank (by decide)])

namespace Lexes

variable {ts : List Token}

theorem minus (h : Lexes (c :: cs) ts) (hc : c ∉ ['-', '>', '=']) :
    Lexes ('-' :: c :: cs) (.sign ['-'] :: ts) := by
  intro rest hrest
  have hall := h rest hrest
  rw [List.cons_append] at hall
  rw [List.cons_append, List.cons_append, tokens_minus hc, hall]
  simp [Function.comp_def]

theorem decrement (h : Lexes cs ts) : Lexes ('-' :: '-' :: cs) (.sign ['-', '-'] :: ts) := by
  intro rest hrest
  rw [List.cons_append, List.cons_append, tokens_decrement, h rest hrest]
  simp [Function.comp_def]

theorem paren (h : Lexes cs ts) : Lexes ('(' :: cs ++ [')']) (.sign ['('] :: ts ++ [.sign [')']]) := by
  intro rest hrest
  have hclose : Delimited (')' :: rest) := fun c hc => .inr (Option.some.inj hc).symm
  rw [List.append_assoc, List.cons_append, List.singleton_append, tokens_open, h _ hclose,
    tokens_close]
  simp [Function.comp_def]

/-- An operation in parentheses, with blanks around its operator. -/
theorem pair {ls rs sign : List Char} {lts rts : List Token} (hl : Lexes ls lts)
    (hr : Lexes rs rts) (hsign : c :: sign ∈ signs) (hpoint : c ≠ '.') :
    Lexes ('(' :: ls ++ (' ' :: c :: sign ++ ' ' :: rs) ++ [')'])
      (.sign ['('] :: lts ++ .sign (c :: sign) :: rts ++ [.sign [')']]) := by
  intro rest hrest
  have hclose : Delimited (')' :: rest) := fun c hc => .inr (Option.some.inj hc).symm
  have hblank : Delimited (' ' :: c :: sign ++ ' ' :: (rs ++ ')' :: rest)) := fun c hc =>
    .inl (Option.some.inj hc).symm
  have hassoc : '(' :: ls ++ (' ' :: c :: sign ++ ' ' :: rs) ++ [')'] ++ rest =
      '(' :: (ls ++ (' ' :: c :: sign ++ ' ' :: (rs ++ ')' :: rest))) := by simp
  rw [hassoc, tokens_open, hl _ hblank, tokens_blank_sign hsign hpoint, hr _ hclose, tokens_close]
  simp [Function.comp_def]

end Lexes

end KernelForge.Grammar
