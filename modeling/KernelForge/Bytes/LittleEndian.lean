/-!
# Little-endian bytes

Devices and buffers hold numbers as a fixed count of bytes, the least significant first. Writing
keeps the low bytes of a number, and reading undoes writing on numbers that fit.
-/

namespace KernelForge.Bytes

/-- The low `width` bytes of a number, least significant first. -/
def ofNat : Nat → Nat → List UInt8
  | 0, _ => []
  | width + 1, n => UInt8.ofNat (n % 256) :: ofNat width (n / 256)

/-- The number that bytes stand for, least significant first. -/
def toNat : List UInt8 → Nat
  | [] => 0
  | b :: rest => b.toNat + 256 * toNat rest

@[simp] theorem length_ofNat (width n : Nat) : (ofNat width n).length = width := by
  induction width generalizing n with
  | zero => rfl
  | succ width ih => simp [ofNat, ih]

/-- Reading what was written gives the number modulo what the width can hold. -/
theorem toNat_ofNat (width n : Nat) : toNat (ofNat width n) = n % Nat.pow 256 width := by
  induction width generalizing n with
  | zero => simp [ofNat, toNat, Nat.mod_one, Nat.pow]
  | succ width ih =>
    have h : (UInt8.ofNat (n % 256)).toNat = n % 256 := by
      simp
    have pow : Nat.pow 256 (width + 1) = 256 * Nat.pow 256 width := Nat.pow_succ'
    rw [ofNat, toNat, ih, h, pow, Nat.mod_mul]

/-- Writing what was read gives the bytes back. -/
theorem ofNat_toNat (bytes : List UInt8) : ofNat bytes.length (toNat bytes) = bytes := by
  induction bytes with
  | nil => rfl
  | cons b rest ih =>
    have h : b.toNat < 256 := b.toNat_lt
    have low : (b.toNat + 256 * toNat rest) % 256 = b.toNat := by omega
    have high : (b.toNat + 256 * toNat rest) / 256 = toNat rest := by omega
    simp only [List.length_cons, toNat, ofNat, low, high, ih, UInt8.ofNat_toNat]

/-- Read `count` numbers of `width` bytes each. -/
def words (width : Nat) : Nat → List UInt8 → List Nat
  | 0, _ => []
  | count + 1, bytes => toNat (bytes.take width) :: words width count (bytes.drop width)

/-- Every whole number of `width` bytes in a list of bytes; a rest that is too short is left out. -/
def allWords (width : Nat) (bytes : List UInt8) : List Nat :=
  words width (bytes.length / width) bytes

@[simp] theorem length_words (width count : Nat) (bytes : List UInt8) :
    (words width count bytes).length = count := by
  induction count generalizing bytes with
  | zero => rfl
  | succ count ih => simp [words, ih]

/-- Reading undoes writing, number by number. -/
theorem words_flatMap (width : Nat) (ns : List Nat) (rest : List UInt8) :
    words width ns.length (ns.flatMap (ofNat width) ++ rest) =
      ns.map (· % Nat.pow 256 width) := by
  induction ns with
  | nil => rfl
  | cons n ns ih =>
    have hwidth : width = (ofNat width n).length := (length_ofNat width n).symm
    rw [List.length_cons, words, List.flatMap_cons, List.append_assoc, List.map_cons,
      List.take_left' hwidth.symm, List.drop_left' hwidth.symm, ih, toNat_ofNat]

end KernelForge.Bytes
