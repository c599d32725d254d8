import Mathlib.Data.List.TakeWhile
import Mathlib.Tactic.IntervalCases
import KernelForge.Device.Model

/-!
# Reading what was written as UTF-8

Main statements: reading undoes writing on every text (`Utf8.decode_encode`), and what is written
with a closing zero byte is read up to the first zero character (`decodeTerminated_terminated`).

A character is written as a leading byte and bytes of six bits each. Which values the first of these
may take depends on the leading byte: `leads_three` and `leads_four` say that a character in its
shortest form is always within that range.
-/

namespace KernelForge.Utf8

variable {b lo hi : UInt8} {k m n value more : Nat} {rest : List UInt8}

/-! ### Bytes of a character -/

/-- A byte that continues a character carries six bits. -/
theorem continues_ofNat (hm : m < 64) :
    0x80 ≤ UInt8.ofNat (m + 0x80) ∧ UInt8.ofNat (m + 0x80) ≤ 0xBF ∧
      (UInt8.ofNat (m + 0x80)).toNat % 64 = m := by
  have hvalue := UInt8.toNat_ofNat_of_lt' (by omega : m + 0x80 < 256)
  simp only [UInt8.le_iff_toNat_le, hvalue, UInt8.reduceToNat]
  omega

/-- The leading byte `b` carries the bits `k` and announces `more` bytes, the first of which may
carry the bits `m`. -/
def Leads (b : UInt8) (k more m : Nat) : Prop :=
  ∃ lo hi, ¬ b < 0x80 ∧ lead? b = some (more, lo, hi) ∧ leadBits b more = k ∧
    lo ≤ UInt8.ofNat (m + 0x80) ∧ UInt8.ofNat (m + 0x80) ≤ hi

theorem leads_two (hk : k < 32) (hm : m < 64) (hlong : 2 ≤ k) :
    Leads (UInt8.ofNat (k + 0xC0)) k 1 m := by
  obtain ⟨hlo, hhi, -⟩ := continues_ofNat hm
  have hlead : ¬ UInt8.ofNat (k + 0xC0) < 0x80 ∧
      lead? (UInt8.ofNat (k + 0xC0)) = some (1, 0x80, 0xBF) ∧
        leadBits (UInt8.ofNat (k + 0xC0)) 1 = k := by
    interval_cases k <;> decide
  exact ⟨_, _, hlead.1, hlead.2.1, hlead.2.2, hlo, hhi⟩

/-- Three bytes are not used for what fits in two, nor for a surrogate. -/
theorem leads_three (hk : k < 16) (hm : m < 64) (hlong : 32 ≤ 64 * k + m)
    (hsurrogate : k = 13 → m < 32) : Leads (UInt8.ofNat (k + 0xE0)) k 2 m := by
  have hvalue := UInt8.toNat_ofNat_of_lt' (by omega : m + 0x80 < 256)
  unfold Leads
  simp only [UInt8.le_iff_toNat_le, hvalue]
  interval_cases k <;>
    exact ⟨_, _, by decide, rfl, by decide, by simp only [UInt8.reduceToNat]; omega,
      by simp only [UInt8.reduceToNat]; omega⟩

/-- Four bytes are not used for what fits in three, nor past the last character. -/
theorem leads_four (hm : m < 64) (hlong : 16 ≤ 64 * k + m) (hlast : 64 * k + m < 0x110) :
    Leads (UInt8.ofNat (k + 0xF0)) k 3 m := by
  have hvalue := UInt8.toNat_ofNat_of_lt' (by omega : m + 0x80 < 256)
  have hk : k < 5 := by omega
  unfold Leads
  simp only [UInt8.le_iff_toNat_le, hvalue]
  interval_cases k <;>
    exact ⟨_, _, by decide, rfl, by decide, by simp only [UInt8.reduceToNat]; omega,
      by simp only [UInt8.reduceToNat]; omega⟩

/-! ### Reading one byte -/

theorem decodeFrom_ascii (h : n < 0x80) :
    decodeFrom none (UInt8.ofNat n :: rest) = Char.ofNat n :: decodeFrom none rest := by
  have hvalue := UInt8.toNat_ofNat_of_lt' (by omega : n < 256)
  have hsmall : UInt8.ofNat n < 0x80 := by
    rw [UInt8.lt_iff_toNat_lt, hvalue]
    exact h
  simp only [decodeFrom, step, begin, if_pos hsmall, hvalue, List.singleton_append]

theorem decodeFrom_begin (h : ¬ b < 0x80) (hlead : lead? b = some (more, lo, hi)) :
    decodeFrom none (b :: rest) = decodeFrom (some ⟨leadBits b more, more, lo, hi⟩) rest := by
  simp only [decodeFrom, step, begin, if_neg h, hlead, List.nil_append]

theorem decodeFrom_more (hlo : lo ≤ b) (hhi : b ≤ hi) :
    decodeFrom (some ⟨value, more + 2, lo, hi⟩) (b :: rest) =
      decodeFrom (some ⟨64 * value + b.toNat % 64, more + 1, 0x80, 0xBF⟩) rest := by
  simp [decodeFrom, step, hlo, hhi]

theorem decodeFrom_last (hlo : lo ≤ b) (hhi : b ≤ hi) :
    decodeFrom (some ⟨value, 1, lo, hi⟩) (b :: rest) =
      Char.ofNat (64 * value + b.toNat % 64) :: decodeFrom none rest := by
  simp [decodeFrom, step, hlo, hhi]

/-! ### Reading a text -/

/-- The bytes of a character are read as that character. -/
theorem decodeFrom_utf8EncodeChar (c : Char) (rest : List UInt8) :
    decodeFrom none (String.utf8EncodeChar c ++ rest) = c :: decodeFrom none rest := by
  have hvalid := c.valid
  have hc : Char.ofNat c.val.toNat = c := Char.ofNat_toNat c
  rw [UInt32.isValidChar, Nat.isValidChar] at hvalid
  rw [String.utf8EncodeChar]
  generalize c.val.toNat = v at hvalid hc ⊢
  obtain ⟨hlo₀, hhi₀, hbits₀⟩ := continues_ofNat (by omega : v % 64 < 64)
  obtain ⟨hlo₁, hhi₁, hbits₁⟩ := continues_ofNat (by omega : v / 64 % 64 < 64)
  have hbits₂ := (continues_ofNat (by omega : v / 4096 % 64 < 64)).2.2
  -- one case for each length of the encoding
  split
  · rw [List.singleton_append, decodeFrom_ascii (by omega), hc]
  split
  · obtain ⟨lo, hi, hbegin, hlead, hbits, hlo, hhi⟩ :=
      leads_two (by omega : v / 64 % 0x20 < 32) (by omega : v % 64 < 64) (by omega)
    have hvalue : 64 * (v / 64 % 0x20) + v % 64 = v := by omega
    simp only [List.cons_append, List.nil_append]
    rw [decodeFrom_begin hbegin hlead, decodeFrom_last hlo hhi, hbits, hbits₀, hvalue, hc]
  split
  · obtain ⟨lo, hi, hbegin, hlead, hbits, hlo, hhi⟩ :=
      leads_three (by omega : v / 4096 % 0x10 < 16) (by omega : v / 64 % 64 < 64) (by omega)
        (by omega)
    have hvalue : 64 * (64 * (v / 4096 % 0x10) + v / 64 % 64) + v % 64 = v := by omega
    simp only [List.cons_append, List.nil_append]
    rw [decodeFrom_begin hbegin hlead, decodeFrom_more hlo hhi, decodeFrom_last hlo₀ hhi₀, hbits,
      hbits₀, hbits₁, hvalue, hc]
  · obtain ⟨lo, hi, hbegin, hlead, hbits, hlo, hhi⟩ :=
      leads_four (by omega : v / 4096 % 64 < 64) (by omega : 16 ≤ 64 * (v / 262144 % 8) + _)
        (by omega)
    have hvalue :
        64 * (64 * (64 * (v / 262144 % 8) + v / 4096 % 64) + v / 64 % 64) + v % 64 = v := by
      omega
    simp only [List.cons_append, List.nil_append]
    rw [decodeFrom_begin hbegin hlead, decodeFrom_more hlo hhi, decodeFrom_more hlo₁ hhi₁,
      decodeFrom_last hlo₀ hhi₀, hbits, hbits₀, hbits₁, hbits₂, hvalue, hc]

theorem decodeFrom_flatMap (cs : List Char) :
    decodeFrom none (cs.flatMap String.utf8EncodeChar) = cs := by
  induction cs with
  | nil => rfl
  | cons c cs ih => rw [List.flatMap_cons, decodeFrom_utf8EncodeChar, ih]

/-- Reading undoes writing. -/
theorem decode_encode (text : String) : decode (encode text) = text := by
  rw [decode, encode, decodeFrom_flatMap, String.ofList_toList]

/-! ### Closing zero bytes -/

/-- Only the zero character has a zero byte. -/
theorem ne_zero_of_mem_utf8EncodeChar {c : Char} (hc : c ≠ '\x00')
    (hb : b ∈ String.utf8EncodeChar c) : b ≠ 0 := by
  have hpos : c.val.toNat ≠ 0 := fun h => hc (Char.ofNat_toNat c ▸ congrArg Char.ofNat h)
  have hzero {n : Nat} (hn : 0 < n) (hlt : n < 256) : UInt8.ofNat n ≠ 0 := fun h => by
    have hvalue := UInt8.toNat_ofNat_of_lt' hlt
    rw [h] at hvalue
    exact Nat.ne_of_lt hn hvalue
  rw [String.utf8EncodeChar] at hb
  generalize c.val.toNat = v at hpos hb
  split at hb
  · obtain rfl := List.mem_singleton.1 hb
    exact hzero (by omega) (by omega)
  split at hb
  · simp only [List.mem_cons, List.not_mem_nil, or_false] at hb
    obtain rfl | rfl := hb <;> exact hzero (by omega) (by omega)
  split at hb
  · simp only [List.mem_cons, List.not_mem_nil, or_false] at hb
    obtain rfl | rfl | rfl := hb <;> exact hzero (by omega) (by omega)
  · simp only [List.mem_cons, List.not_mem_nil, or_false] at hb
    obtain rfl | rfl | rfl | rfl := hb <;> exact hzero (by omega) (by omega)

/-- The bytes before the first zero byte are those of the characters before the first zero
character. -/
theorem takeWhile_flatMap (cs : List Char) :
    (cs.flatMap String.utf8EncodeChar ++ 0 :: rest).takeWhile (· != 0) =
      (cs.takeWhile (· ≠ '\x00')).flatMap String.utf8EncodeChar := by
  induction cs with
  | nil => rfl
  | cons c cs ih =>
    rw [List.flatMap_cons, List.append_assoc]
    by_cases hc : c = '\x00'
    · rw [hc]
      rfl
    · have hall : ∀ b ∈ String.utf8EncodeChar c, (b != 0) = true := fun b hb =>
        bne_iff_ne.2 (ne_zero_of_mem_utf8EncodeChar hc hb)
      have hkeep : decide (c ≠ '\x00') = true := decide_eq_true hc
      rw [List.takeWhile_append_of_pos hall, ih,
        List.takeWhile_cons_of_pos (p := fun c => decide (c ≠ '\x00')) hkeep, List.flatMap_cons]

end KernelForge.Utf8

namespace KernelForge.Device

/-- A text up to its first zero character. -/
def beforeNul (text : String) : String :=
  String.ofList (text.toList.takeWhile (· ≠ '\x00'))

/-- A text without a zero character is all of itself. -/
theorem beforeNul_eq_self {text : String} (h : '\x00' ∉ text.toList) : beforeNul text = text := by
  have hall : ∀ c ∈ text.toList, decide (c ≠ '\x00') = true := fun c hc =>
    decide_eq_true fun heq => h (heq ▸ hc)
  rw [beforeNul, List.takeWhile_eq_self_iff.2 hall, String.ofList_toList]

/-- Of a text that is written with a closing zero byte, what comes before its first zero character
is read. -/
theorem decodeTerminated_terminated (text : String) :
    Utf8.decodeTerminated (terminated text) = beforeNul text := by
  rw [Utf8.decodeTerminated, terminated, Utf8.encode, Utf8.takeWhile_flatMap, Utf8.decode,
    Utf8.decodeFrom_flatMap, beforeNul]

end KernelForge.Device
