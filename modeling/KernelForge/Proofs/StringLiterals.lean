import Mathlib.Data.List.Chain
import Mathlib.Tactic.IntervalCases
import KernelForge.Text.Quoted
import KernelForge.Text.Utf8

/-!
# What string literals denote

A string literal of the kernel language is read character by character (`Quoted.read`). A
hexadecimal escape takes all the digits that follow it, so a literal written with escapes of two
digits may be read as something else: a digit right after an escape belongs to the escape. The
literal of a text denotes the UTF-8 bytes of the text exactly if no character of the text that is
written in hexadecimal is followed by a character that is a digit itself (`read_literal_iff`).
Otherwise it is malformed or denotes fewer bytes (`length_of_read_literal`).
-/

namespace KernelForge.Quoted

variable {c d : Char} {cs : List Char} {b : UInt8} {bytes : List UInt8} {n : Nat}

/-! ### Reading a literal -/

/-- How far the reading of a literal has come. -/
inductive Reading
  /-- Between two characters of the text. -/
  | plain
  /-- After a backslash. -/
  | backslash
  /-- In an octal escape, with the number of digits so far. -/
  | octal (count value : Nat)
  /-- In a hexadecimal escape, with its value if it has a digit yet. -/
  | hex (value : Option Nat)
  /-- After the closing quote. -/
  | closed
deriving DecidableEq

/-- The bytes of the escapes of one character. -/
def simpleEscapes : List (Char × UInt8) :=
  [('\x27', 0x27), ('"', 0x22), ('?', 0x3F), ('\\', 0x5C), ('a', 7), ('b', 8), ('f', 12), ('n', 10),
    ('r', 13), ('t', 9), ('v', 11)]

/-- The value of an octal digit. -/
def octal? (c : Char) : Option Nat :=
  if '0' ≤ c ∧ c ≤ '7' then some (c.toNat - 48) else none

/-- Read a character with which no escape goes on. -/
def begin (c : Char) : Option (List UInt8 × Reading) :=
  if c = '"' then some ([], .closed)
  else if c = '\\' then some ([], .backslash)
  else if c = '\n' then none
  else some (String.utf8EncodeChar c, .plain)

/-- End an escape of a given value and read the character after it. The value must be that of a
byte. -/
def finish (value : Nat) (c : Char) : Option (List UInt8 × Reading) :=
  if value < 256 then (begin c).map fun (bytes, next) => (UInt8.ofNat value :: bytes, next) else none

/-- Read one character: the bytes that are now complete and how the reading goes on. An octal escape
has at most three digits, a hexadecimal one all that there are. -/
def step : Reading → Char → Option (List UInt8 × Reading)
  | .plain, c => begin c
  | .backslash, c =>
    if c = 'x' then some ([], .hex none)
    else match octal? c with
      | some digit => some ([], .octal 1 digit)
      | none => (simpleEscapes.lookup c).map fun b => ([b], .plain)
  | .octal count value, c =>
    match octal? c with
    | some digit =>
      if count < 3 then some ([], .octal (count + 1) (8 * value + digit)) else finish value c
    | none => finish value c
  | .hex value, c =>
    match Hex.value? c with
    | some digit => some ([], .hex (some (16 * value.getD 0 + digit)))
    | none => value.bind (finish · c)
  | .closed, _ => none

/-- Read the rest of a literal, its closing quote included. -/
def readFrom (reading : Reading) : List Char → Option (List UInt8)
  | [] => if reading = .closed then some [] else none
  | c :: cs => (step reading c).bind fun (bytes, next) => (bytes ++ ·) <$> readFrom next cs

/-- The bytes that a literal denotes. -/
def read (text : String) : Option (List UInt8) :=
  match text.toList with
  | '"' :: cs => readFrom .plain cs
  | _ => none

/-! ### Single steps -/

theorem readFrom_of_step {reading next : Reading} (h : step reading c = some (bytes, next))
    (cs : List Char) : readFrom reading (c :: cs) = (bytes ++ ·) <$> readFrom next cs := by
  rw [readFrom, h]
  rfl

/-- A step that completes no byte only changes the reading. -/
theorem readFrom_of_step_nil {reading next : Reading} (h : step reading c = some ([], next))
    (cs : List Char) : readFrom reading (c :: cs) = readFrom next cs := by
  rw [readFrom_of_step h]
  exact id_map _

theorem step_hex_of_some {value : Option Nat} {digit : Nat} (h : Hex.value? c = some digit) :
    step (.hex value) c = some ([], .hex (some (16 * value.getD 0 + digit))) := by
  simp only [step, h]

/-- What is no digit ends an escape and is read as if there had been none. -/
theorem readFrom_hex_of_none (h : Hex.value? c = none) (value : Nat) (cs : List Char) :
    readFrom (.hex (some value)) (c :: cs) =
      if value < 256 then (UInt8.ofNat value :: ·) <$> readFrom .plain (c :: cs) else none := by
  simp only [readFrom, step, h, Option.bind_some, finish]
  split_ifs
  · cases begin c with
    | none => rfl
    | some outcome => simp [Function.comp_def]
  · rfl

/-! ### Characters of a text -/

/-- Whether a character is a hexadecimal digit. -/
def isHexDigit (c : Char) : Bool :=
  (Hex.value? c).isSome

/-- Whether a character is written as hexadecimal escapes. -/
def isHexEscaped (c : Char) : Bool :=
  !isPlain c && c != '\n' && c != '\t'

theorem value?_eq_none (h : isHexDigit c = false) : Hex.value? c = none :=
  Option.not_isSome_iff_eq_none.1 (by rw [← isHexDigit, h]; decide)

theorem isPlain_iff : isPlain c ↔ 32 ≤ c.toNat ∧ c.toNat ≤ 126 := by
  rw [isPlain, Bool.and_eq_true, decide_eq_true_iff, decide_eq_true_iff]
  rfl

theorem isPlain_of_isHexDigit (h : isHexDigit c) : isPlain c := by
  obtain ⟨digit, hdigit⟩ := Option.isSome_iff_exists.1 h
  -- Every range of digits is a range of printable characters.
  have hwithin {lo hi : Char} (hrange : lo ≤ c ∧ c ≤ hi) (hlo : 32 ≤ lo.toNat)
      (hhi : hi.toNat ≤ 126) : isPlain c :=
    isPlain_iff.2 ⟨hlo.trans hrange.1, le_trans hrange.2 hhi⟩
  rw [Hex.value?] at hdigit
  split_ifs at hdigit with h₁ h₂ h₃
  · exact hwithin h₁ (by decide) (by decide)
  · exact hwithin h₂ (by decide) (by decide)
  · exact hwithin h₃ (by decide) (by decide)

/-- A digit is written as itself. -/
theorem escape_of_isHexDigit (h : isHexDigit c) : escape c = [c] := by
  have hne {d : Char} (hd : isHexDigit d = false) : c ≠ d := fun heq => by simp [heq ▸ h] at hd
  rw [escape, if_neg (hne (by decide)), if_neg (hne (by decide)), if_neg (hne (by decide)),
    if_neg (hne (by decide)), if_pos (isPlain_of_isHexDigit h)]

theorem length_utf8EncodeChar_of_isHexDigit (h : isHexDigit c) :
    (String.utf8EncodeChar c).length = 1 := by
  have hsmall := (isPlain_iff.1 (isPlain_of_isHexDigit h)).2
  rw [String.length_utf8EncodeChar]
  exact Char.utf8Size_eq_one_iff.2 (UInt32.le_iff_toNat_le.2 (by simpa using by omega))

/-! ### Reading what was written -/

theorem value?_digit (h : n < 16) : Hex.value? (Hex.digit n) = some n := by
  interval_cases n <;> decide

/-- After its two digits, an escape waits for more of them. -/
theorem readFrom_escapeByte (b : UInt8) (cs : List Char) :
    readFrom .plain (escapeByte b ++ cs) = readFrom (.hex (some b.toNat)) cs := by
  have hlt : b.toNat < 256 := UInt8.toNat_lt b
  have hhi := value?_digit (by omega : b.toNat / 16 < 16)
  have hlo := value?_digit (by omega : b.toNat % 16 < 16)
  have hback : step .plain '\\' = some ([], .backslash) := rfl
  have hx : step .backslash 'x' = some ([], .hex none) := rfl
  rw [escapeByte, Hex.ofByte, List.cons_append, readFrom_of_step_nil hback, List.cons_append,
    readFrom_of_step_nil hx, List.cons_append, readFrom_of_step_nil (step_hex_of_some hhi),
    List.cons_append, readFrom_of_step_nil (step_hex_of_some hlo)]
  congr 3
  simp only [Option.getD_none, Option.getD_some]
  omega

/-- Only the last of several escapes is still open after them. -/
theorem readFrom_escapeBytes (bytes : List UInt8) (b : UInt8) (cs : List Char) :
    readFrom .plain ((bytes ++ [b]).flatMap escapeByte ++ cs) =
      (bytes ++ ·) <$> readFrom (.hex (some b.toNat)) cs := by
  induction bytes with
  | nil =>
    rw [List.nil_append, List.flatMap_singleton, readFrom_escapeByte]
    exact (id_map _).symm
  | cons first bytes ih =>
    have hnext : ∃ rest, (bytes ++ [b]).flatMap escapeByte ++ cs = '\\' :: rest := by
      cases bytes <;> exact ⟨_, rfl⟩
    obtain ⟨rest, hrest⟩ := hnext
    rw [List.cons_append, List.flatMap_cons, List.append_assoc, readFrom_escapeByte, hrest,
      readFrom_hex_of_none (by decide), ← hrest, if_pos (UInt8.toNat_lt first), ih,
      UInt8.ofNat_toNat]
    simp [Function.comp_def]

/-- A character that needs no hexadecimal escape is read as its bytes. -/
theorem readFrom_escape (h : isHexEscaped c = false) (cs : List Char) :
    readFrom .plain (escape c ++ cs) = (String.utf8EncodeChar c ++ ·) <$> readFrom .plain cs := by
  have hback : step .plain '\\' = some ([], .backslash) := rfl
  have hsimple {d : Char} {b : UInt8} (hd : step .backslash d = some ([b], .plain))
      (hc : String.utf8EncodeChar c = [b]) :
      readFrom .plain ('\\' :: d :: cs) =
        (String.utf8EncodeChar c ++ ·) <$> readFrom .plain cs := by
    rw [readFrom_of_step_nil hback, readFrom_of_step hd, hc]
  rw [escape]
  split_ifs with hquote hbackslash hline htab hplain
  · subst hquote
    exact hsimple (d := '"') rfl rfl
  · subst hbackslash
    exact hsimple (d := '\\') rfl rfl
  · subst hline
    exact hsimple (d := 'n') rfl rfl
  · subst htab
    exact hsimple (d := 't') rfl rfl
  · refine readFrom_of_step ?_ cs
    rw [step, begin, if_neg hquote, if_neg hbackslash, if_neg hline]
  · simp [isHexEscaped, hplain, hline, htab] at h

theorem escape_of_isHexEscaped (h : isHexEscaped c) :
    escape c = (String.utf8EncodeChar c).flatMap escapeByte := by
  rw [isHexEscaped, Bool.and_eq_true, Bool.and_eq_true, Bool.not_eq_true', bne_iff_ne,
    bne_iff_ne] at h
  obtain ⟨⟨hplain, hline⟩, htab⟩ := h
  have hne {d : Char} (hd : isPlain d) : c ≠ d := fun heq => by simp [heq ▸ hplain] at hd
  rw [escape, if_neg (hne (by decide)), if_neg (hne (by decide)), if_neg hline, if_neg htab, hplain]
  rfl

/-- What is no digit does not start with a digit either when it is written. -/
theorem escape_of_not_isHexDigit (h : isHexDigit c = false) :
    ∃ first rest, escape c = first :: rest ∧ isHexDigit first = false := by
  rw [escape]
  split_ifs
  · exact ⟨_, _, rfl, by decide⟩
  · exact ⟨_, _, rfl, by decide⟩
  · exact ⟨_, _, rfl, by decide⟩
  · exact ⟨_, _, rfl, by decide⟩
  · exact ⟨c, [], rfl, h⟩
  · obtain ⟨b, bytes, hbytes⟩ := List.exists_cons_of_ne_nil (String.utf8EncodeChar_ne_nil (c := c))
    rw [hbytes]
    exact ⟨_, _, rfl, by decide⟩

/-! ### Literals of texts -/

/-- What a literal has after its opening quote. -/
def body (cs : List Char) : List Char :=
  cs.flatMap escape ++ ['"']

theorem body_cons (c : Char) (cs : List Char) : body (c :: cs) = escape c ++ body cs := by
  rw [body, List.flatMap_cons, List.append_assoc, body]

theorem read_literal (text : String) : read (literal text) = readFrom .plain (body text.toList) := by
  rw [read, literal, String.toList_ofList]
  rfl

/-- An escape that no digit follows ends where its two digits do. -/
theorem readFrom_hex_body (h : ∀ c ∈ cs.head?, isHexDigit c = false) (value : Nat) :
    readFrom (.hex (some value)) (body cs) =
      if value < 256 then (UInt8.ofNat value :: ·) <$> readFrom .plain (body cs) else none := by
  cases cs with
  | nil => exact readFrom_hex_of_none (by decide) value []
  | cons c cs =>
    obtain ⟨first, rest, hescape, hfirst⟩ := escape_of_not_isHexDigit (h c rfl)
    rw [body_cons, hescape]
    exact readFrom_hex_of_none (value?_eq_none hfirst) value _

/-- After a character in hexadecimal, the escape of its last byte is still open. -/
theorem readFrom_body_of_isHexEscaped (h : isHexEscaped c) (cs : List Char) :
    ∃ bytes b, String.utf8EncodeChar c = bytes ++ [b] ∧
      readFrom .plain (body (c :: cs)) =
        (bytes ++ ·) <$> readFrom (.hex (some b.toNat)) (body cs) := by
  have hsplit := List.dropLast_append_getLast (String.utf8EncodeChar_ne_nil (c := c))
  refine ⟨_, _, hsplit.symm, ?_⟩
  rw [body_cons, escape_of_isHexEscaped h, ← readFrom_escapeBytes, hsplit]

/-- Two characters of which the second is not taken for a digit of the first. -/
def Apart (c d : Char) : Prop :=
  isHexEscaped c → isHexDigit d = false

/-- If no escape is followed by a digit, a literal denotes its text. -/
theorem readFrom_body_of_isChain (h : cs.IsChain Apart) :
    readFrom .plain (body cs) = some (cs.flatMap String.utf8EncodeChar) := by
  induction cs with
  | nil => rfl
  | cons c cs ih =>
    obtain ⟨hhead, hrest⟩ := List.isChain_cons.1 h
    cases hc : isHexEscaped c with
    | false =>
      rw [body_cons, readFrom_escape hc, ih hrest]
      rfl
    | true =>
      obtain ⟨bytes, b, hbytes, hread⟩ := readFrom_body_of_isHexEscaped hc cs
      rw [hread, readFrom_hex_body fun d hd => hhead d hd hc, if_pos (UInt8.toNat_lt b), ih hrest,
        List.flatMap_cons, hbytes, UInt8.ofNat_toNat]
      simp

/-! ### Digits that escapes take too many -/

/-- How many characters of a text are taken for digits of an escape before them. -/
def absorbed (inEscape : Bool) : List Char → Nat
  | [] => 0
  | c :: cs =>
    if inEscape && isHexDigit c then absorbed true cs + 1 else absorbed (isHexEscaped c) cs

theorem absorbed_true_of_head (h : ∀ c ∈ cs.head?, isHexDigit c = false) :
    absorbed true cs = absorbed false cs := by
  cases cs with
  | nil => rfl
  | cons c cs =>
    rw [absorbed, absorbed, h c rfl]
    rfl

theorem absorbed_true_cons (h : isHexDigit c) (cs : List Char) :
    absorbed true (c :: cs) = absorbed true cs + 1 := by
  rw [absorbed, h]
  rfl

theorem absorbed_false_cons (c : Char) (cs : List Char) :
    absorbed false (c :: cs) = absorbed (isHexEscaped c) cs :=
  rfl

/-- No digit is lost only if none follows an escape. -/
theorem isChain_of_absorbed (h : absorbed false cs = 0) : cs.IsChain Apart := by
  induction cs with
  | nil => exact .nil
  | cons c cs ih =>
    rw [absorbed_false_cons] at h
    cases hc : isHexEscaped c with
    | false =>
      rw [hc] at h
      refine List.isChain_cons.2 ⟨fun d _ hescaped => ?_, ih h⟩
      simp [hc] at hescaped
    | true =>
      rw [hc] at h
      have hhead : ∀ d ∈ cs.head?, isHexDigit d = false := by
        cases cs with
        | nil => nofun
        | cons d cs =>
          rintro _ ⟨⟩
          by_contra hdigit
          rw [absorbed_true_cons (Bool.eq_true_of_not_eq_false hdigit)] at h
          exact absurd h (Nat.succ_ne_zero _)
      rw [absorbed_true_of_head hhead] at h
      exact List.isChain_cons.2 ⟨fun d hd _ => hhead d hd, ih h⟩

/-- What is no digit ends an open escape, which adds its byte. -/
theorem length_of_readFrom_ended {cs : List Char} (hhead : ∀ c ∈ cs.head?, isHexDigit c = false)
    (hplain : ∀ bytes, readFrom .plain (body cs) = some bytes →
      bytes.length + absorbed false cs = (cs.flatMap String.utf8EncodeChar).length)
    (value : Nat) (bytes : List UInt8)
    (hread : readFrom (.hex (some value)) (body cs) = some bytes) :
    bytes.length + absorbed true cs = (cs.flatMap String.utf8EncodeChar).length + 1 := by
  rw [readFrom_hex_body hhead] at hread
  split_ifs at hread
  obtain ⟨rest, hrest, rfl⟩ := Option.map_eq_some_iff.1 hread
  rw [absorbed_true_of_head hhead, ← hplain rest hrest, List.length_cons]
  omega

/-- Every digit that is taken for part of an escape is missing from what is read, in an open escape
as between two characters. -/
theorem length_of_readFrom (cs : List Char) :
    (∀ bytes, readFrom .plain (body cs) = some bytes →
      bytes.length + absorbed false cs = (cs.flatMap String.utf8EncodeChar).length) ∧
    ∀ value bytes, readFrom (.hex (some value)) (body cs) = some bytes →
      bytes.length + absorbed true cs = (cs.flatMap String.utf8EncodeChar).length + 1 := by
  induction cs with
  | nil =>
    have hplain : ∀ bytes, readFrom .plain (body []) = some bytes →
        bytes.length + absorbed false [] = 0 := by
      rintro bytes ⟨⟩
      rfl
    exact ⟨hplain, length_of_readFrom_ended nofun hplain⟩
  | cons c cs ih =>
    obtain ⟨ihplain, ihhex⟩ := ih
    have hplain : ∀ bytes, readFrom .plain (body (c :: cs)) = some bytes →
        bytes.length + absorbed false (c :: cs) =
          ((c :: cs).flatMap String.utf8EncodeChar).length := by
      intro bytes hread
      rw [absorbed_false_cons, List.flatMap_cons, List.length_append]
      cases hc : isHexEscaped c with
      | false =>
        rw [body_cons, readFrom_escape hc] at hread
        obtain ⟨rest, hrest, rfl⟩ := Option.map_eq_some_iff.1 hread
        rw [List.length_append, Nat.add_assoc, ihplain rest hrest]
      | true =>
        obtain ⟨before, b, hbytes, hescaped⟩ := readFrom_body_of_isHexEscaped hc cs
        rw [hescaped] at hread
        obtain ⟨rest, hrest, rfl⟩ := Option.map_eq_some_iff.1 hread
        have hlength := ihhex _ rest hrest
        simp only [hbytes, List.length_append, List.length_singleton]
        omega
    refine ⟨hplain, ?_⟩
    cases hdigit : isHexDigit c with
    | false => exact length_of_readFrom_ended (fun d hd => Option.some.inj hd ▸ hdigit) hplain
    | true =>
      intro value bytes hread
      obtain ⟨digit, hvalue⟩ := Option.isSome_iff_exists.1 hdigit
      rw [body_cons, escape_of_isHexDigit hdigit, List.singleton_append,
        readFrom_of_step_nil (step_hex_of_some hvalue)] at hread
      have hlength := ihhex _ bytes hread
      have hone := length_utf8EncodeChar_of_isHexDigit hdigit
      rw [absorbed_true_cons hdigit, List.flatMap_cons, List.length_append, hone]
      omega

/-- A literal that can be read denotes as many bytes as its text has, less one for each digit that an
escape has taken. -/
theorem length_of_read_literal {text : String} (h : read (literal text) = some bytes) :
    bytes.length + absorbed false text.toList = (Utf8.encode text).length := by
  rw [read_literal] at h
  exact (length_of_readFrom text.toList).1 bytes h

/-- The literal of a text denotes the UTF-8 bytes of the text exactly if no character that is written
in hexadecimal stands before a hexadecimal digit. -/
theorem read_literal_iff (text : String) :
    read (literal text) = some (Utf8.encode text) ↔
      text.toList.IsChain fun c d => isHexEscaped c → isHexDigit d = false := by
  constructor
  · intro h
    have hlength := length_of_read_literal h
    exact isChain_of_absorbed (by omega)
  · intro h
    rw [read_literal]
    exact readFrom_body_of_isChain h

/-- The two bytes of the accented letter are escapes, and the letter after them is a digit. -/
theorem read_literal_ne_eclair :
    read (literal "éclair") ≠ some (Utf8.encode "éclair") := by
  decide

end KernelForge.Quoted
