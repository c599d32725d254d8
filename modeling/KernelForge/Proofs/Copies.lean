import Mathlib
import KernelForge.Launch.DeviceContext

/-!
# Copying arrays to devices and back

An array goes to a device as the bytes of its numbers, and whatever comes back in as many bytes is
held by the array afterwards, byte for byte (`Memory.toBytes_copyFromBytes`). A binding that passes
its check carries what the field expects: a number of the type of the field, or a positive number of
whole elements, where an element of a vector type has all its lanes (`carries_of_checkBinding`).
-/

namespace KernelForge

namespace Bytes

/-- Writing looks at the low bytes of a number only. -/
theorem ofNat_congr {width m n : Nat} (h : m % 256 ^ width = n % 256 ^ width) :
    ofNat width m = ofNat width n := by
  have hm := ofNat_toNat (ofNat width m)
  have hn := ofNat_toNat (ofNat width n)
  rw [length_ofNat, toNat_ofNat] at hm hn
  rw [← hm, ← hn]
  exact congrArg _ h

/-- Reading numbers and writing them again gives the bytes back. -/
theorem flatMap_words {width count : Nat} {bytes : List UInt8} (h : bytes.length = count * width) :
    (words width count bytes).flatMap (ofNat width) = bytes := by
  induction count generalizing bytes with
  | zero => exact (List.eq_nil_of_length_eq_zero (by rw [h, Nat.zero_mul])).symm
  | succ count ih =>
    rw [Nat.succ_mul] at h
    have htake : (bytes.take width).length = width := by
      rw [List.length_take]
      omega
    have hfirst := ofNat_toNat (bytes.take width)
    rw [htake] at hfirst
    rw [words, List.flatMap_cons, hfirst, ih (by rw [List.length_drop]; omega),
      List.take_append_drop]

end Bytes

namespace Launch

open Device

/-- A number that is read from a cell is written as the low bytes of the cell. -/
theorem Element.toBytes_ofBits (e : Element) (bits : UInt64) :
    (e.ofBits bits).toBytes = Bytes.ofNat e.width bits.toNat := by
  cases e with
  | int => exact Bytes.ofNat_congr (by simp [ofBits, Scalar.toBits, Scalar.element, width])
  | float => exact Bytes.ofNat_congr (by simp [ofBits, Scalar.toBits, Scalar.element, width])
  | long => exact Bytes.ofNat_congr (by simp [ofBits, Scalar.toBits])
  | double => rfl

namespace Memory

variable {mem mem' : Memory} {a b : SharedArray} {bytes : List UInt8}

theorem toBytes_eq (mem : Memory) (a : SharedArray) :
    mem.toBytes a = (mem.cells a).flatMap fun bits => Bytes.ofNat a.element.width bits.toNat := by
  rw [toBytes, toList, List.flatMap_map]
  simp only [Element.toBytes_ofBits]

theorem length_toBytes (mem : Memory) (a : SharedArray) :
    (mem.toBytes a).length = mem.length a * a.element.width := by
  simp [toBytes_eq, length, List.length_flatMap]

theorem cells_setCells (mem : Memory) (a b : SharedArray) (cells : List UInt64) :
    (mem.setCells a cells).cells b =
      if b.address = a.address ∧ a.address < mem.blocks.length then cells else mem.cells b := by
  rw [Memory.cells, setCells, List.getD_eq_getElem?_getD, List.getElem?_set]
  grind [Memory.cells]

/-- Copying bytes to an array changes nothing else. -/
theorem cells_copyFromBytes (h : mem.copyFromBytes a bytes = .ok mem')
    (hb : b.address ≠ a.address) : mem'.cells b = mem.cells b := by
  rw [copyFromBytes] at h
  split_ifs at h
  cases h
  rw [cells_setCells, if_neg fun hab => hb hab.1]

/-- After a copy the cells of an array hold the numbers that the bytes stand for. -/
theorem cells_of_copyFromBytes (h : mem.copyFromBytes a bytes = .ok mem') :
    mem'.cells a =
      (Bytes.words a.element.width (mem.length a) bytes).map UInt64.ofNat := by
  rw [copyFromBytes] at h
  split_ifs at h
  cases h
  rw [cells_setCells]
  split_ifs with hmem
  · rfl
  · -- An array outside memory has no cells, and there are no numbers for it.
    have hout : mem.blocks.length ≤ a.address := Nat.le_of_not_lt fun hin => hmem ⟨rfl, hin⟩
    have hcells : mem.cells a = [] := by
      rw [Memory.cells, List.getD_eq_getElem?_getD, List.getElem?_eq_none hout]
      rfl
    rw [length, hcells]
    rfl

/-- After a copy an array holds the bytes that were copied. -/
theorem toBytes_copyFromBytes (h : mem.copyFromBytes a bytes = .ok mem') :
    mem'.toBytes a = bytes := by
  have hcells := cells_of_copyFromBytes h
  have hlow (n : Nat) : Bytes.ofNat a.element.width (UInt64.ofNat n).toNat =
      Bytes.ofNat a.element.width n := by
    refine Bytes.ofNat_congr ?_
    rw [UInt64.toNat_ofNat']
    refine Nat.mod_mod_of_dvd n ?_
    cases a.element <;> decide
  rw [copyFromBytes] at h
  split_ifs at h with hlength
  rw [toBytes_eq, hcells, List.flatMap_map]
  simp only [hlow]
  exact Bytes.flatMap_words hlength

end Memory

/-! ### Bindings that fit -/

/-- The type of a field that holds a number. -/
def Element.ty : Element → Ty
  | int => .int
  | long => .long
  | float => .float
  | double => .double

/-- The size of an element in a device buffer, for the types of which there can be arrays. A vector
has the size of all its lanes. -/
def elementSize? (md : Metadata) : Ty → Option Nat
  | .int => some 4
  | .long => some 8
  | .float => some 4
  | .double => some 8
  | ty => (DeviceContext.vectorLanes? md ty).map (4 * ·)

/-- What a field gets from a binding: a number of its type, or a positive number of whole
elements. -/
def Carries (md : Metadata) (mem : Memory) (field : Variable) : Binding → Prop
  | .scalar value => field.ty = value.element.ty
  | .array a => ∃ element size count, field.ty = .array element ∧
      elementSize? md element = some size ∧ 0 < count ∧ 0 < size ∧
      (mem.toBytes a).length = count * size

namespace DeviceContext

variable {md : Metadata} {mem : Memory}

/-- An array that fits has a whole number of elements. -/
theorem arrayFits_elements {element : Ty} {a : SharedArray}
    (h : arrayFits md mem element a = true) :
    ∃ size count, elementSize? md element = some size ∧ 0 < size ∧
      (mem.toBytes a).length = count * size := by
  have hlength := Memory.length_toBytes mem a
  rw [arrayFits] at h
  cases htype : a.element with
  | int =>
    rw [htype] at h hlength
    obtain rfl := of_decide_eq_true h
    exact ⟨4, _, rfl, by decide, hlength⟩
  | long =>
    rw [htype] at h hlength
    obtain rfl := of_decide_eq_true h
    exact ⟨8, _, rfl, by decide, hlength⟩
  | double =>
    rw [htype] at h hlength
    obtain rfl := of_decide_eq_true h
    exact ⟨8, _, rfl, by decide, hlength⟩
  | float =>
    rw [htype] at h hlength
    simp only at h
    split at h
    · rename_i lanes hlanes
      obtain ⟨count, hcount⟩ := Nat.dvd_of_mod_eq_zero (of_decide_eq_true h)
      have hsize : elementSize? md element = some (4 * (lanes + 1)) := by
        cases element with
        | object cls => exact congrArg (Option.map (4 * ·)) hlanes
        | _ => cases hlanes
      refine ⟨_, count, hsize, by omega, ?_⟩
      rw [hlength, hcount, Element.width]
      ring
    · obtain rfl := of_decide_eq_true h
      exact ⟨4, _, rfl, by decide, hlength⟩

/-- A binding that passes its check carries what the field expects. -/
theorem carries_of_checkBinding {field : Variable} {binding : Binding}
    (h : checkBinding md mem field binding = .ok ()) : Carries md mem field binding := by
  rw [checkBinding] at h
  split_ifs at h with hfits hempty
  rw [Bool.not_eq_true, Bool.not_eq_false'] at hfits
  cases binding with
  | scalar value =>
    rw [Carries]
    cases value <;> exact of_decide_eq_true hfits
  | array a =>
    unfold fits at hfits
    simp only at hfits
    split at hfits
    · rename_i element hty
      obtain ⟨size, count, hsize, hpos, hlength⟩ := arrayFits_elements hfits
      refine ⟨element, size, count, hty, hsize, ?_, hpos, hlength⟩
      -- With no element at all the array would be empty.
      refine Nat.pos_of_ne_zero fun hzero => hempty ?_
      rw [hzero, Nat.zero_mul, Memory.length_toBytes] at hlength
      have hwidth : a.element.width ≠ 0 := by cases a.element <;> decide
      exact congrArg some ((Nat.mul_eq_zero.1 hlength).resolve_right hwidth)
    · cases hfits

/-- Bindings that pass their check carry what the fields expect, in order. -/
theorem carries_of_checkBindings {fields : List Variable} {bindings : List Binding}
    (h : checkBindings md mem fields bindings = .ok ()) :
    List.Forall₂ (Carries md mem) fields bindings := by
  rw [checkBindings] at h
  split_ifs at h with hlength
  rw [not_not] at hlength
  rw [List.forM_eq_forM] at h
  induction fields generalizing bindings with
  | nil =>
    rw [List.eq_nil_of_length_eq_zero hlength.symm]
    exact .nil
  | cons field rest ih =>
    cases bindings with
    | nil => cases hlength
    | cons binding bindings =>
      rw [List.zip_cons_cons, List.forM_cons] at h
      simp only at h
      cases hfirst : checkBinding md mem field binding with
      | error e =>
        rw [hfirst] at h
        cases h
      | ok _ =>
        rw [hfirst] at h
        exact .cons (carries_of_checkBinding hfirst) (ih (Nat.succ.inj hlength) h)

end DeviceContext

end Launch

end KernelForge
