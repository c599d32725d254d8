import Mathlib
import KernelForge.Proofs.FailedRuns

/-!
# Numbers, cells and bytes

A number of an array has three forms: the number itself, its cell of 64 bits, and its bytes in a
device buffer. Between them nothing is lost in either direction (`Scalar.ofBits_toBits`,
`Element.toBytes_ofBytes`), so arrays and byte strings of the right length correspond to each other
(`Memory.toList_copyFromBytes`, `Memory.numbers_toBytes`). A copy that stores one number after
another comes to the same as the copy at once (`Memory.copyEach_eq`): it stops before it has written
anything, or not at all.
-/

namespace KernelForge

namespace Bytes

theorem toNat_lt (bytes : List UInt8) : toNat bytes < 256 ^ bytes.length := by
  induction bytes with
  | nil => exact Nat.one_pos
  | cons b rest ih =>
    have hb := b.toNat_lt
    rw [toNat, List.length_cons, pow_succ]
    omega

theorem lt_of_mem_words {width count n : Nat} {bytes : List UInt8}
    (h : n ∈ words width count bytes) : n < 256 ^ width := by
  induction count generalizing bytes with
  | zero => cases h
  | succ count ih =>
    rcases List.mem_cons.1 h with rfl | h
    · exact (toNat_lt _).trans_le (Nat.pow_le_pow_right (by decide) (List.length_take_le _ _))
    · exact ih h

/-- A part of a text of parts that all have the same length. -/
theorem take_drop_flatMap {α : Type} {f : α → List UInt8} {width : Nat}
    (h : ∀ x, (f x).length = width) (xs : List α) (index : Nat) :
    ((xs.flatMap f).drop (index * width)).take width = (xs[index]?.map f).getD [] := by
  induction xs generalizing index with
  | nil => simp
  | cons x xs ih =>
    cases index with
    | zero => simp [← h x]
    | succ index =>
      rw [List.flatMap_cons, Nat.succ_mul, Nat.add_comm, ← List.drop_drop, List.drop_left' (h x),
        ih, List.getElem?_cons_succ]

end Bytes

namespace Launch

open Device

/-! ### One number -/

@[simp] theorem Element.element_ofBits (e : Element) (bits : UInt64) :
    (e.ofBits bits).element = e := by
  cases e <;> rfl

@[simp] theorem Scalar.ofBits_toBits (v : Scalar) : v.element.ofBits v.toBits = v := by
  cases v <;> simp [element, Element.ofBits, toBits]

/-- A cell with nothing above the width of its number is the cell of that number. -/
theorem Element.toBits_ofBits {e : Element} {bits : UInt64} (h : bits.toNat < 256 ^ e.width) :
    (e.ofBits bits).toBits = bits := by
  have hlow (hbits : bits.toNat < 256 ^ 4) : bits.toUInt32.toUInt64 = bits := by
    refine UInt64.toNat_inj.1 ?_
    rw [UInt32.toNat_toUInt64, UInt64.toNat_toUInt32]
    exact Nat.mod_eq_of_lt hbits
  cases e with
  | int => simpa [ofBits, Scalar.toBits] using hlow h
  | long => simp [ofBits, Scalar.toBits]
  | float => exact hlow h
  | double => rfl

theorem Scalar.toBits_lt (v : Scalar) : v.toBits.toNat < 256 ^ v.element.width := by
  cases v with
  | int value | float value => exact (UInt32.toNat_toUInt64 _).trans_lt (UInt32.toNat_lt _)
  | long value | double value => exact UInt64.toNat_lt _

/-- Numbers that are written in the bytes of an element fit into a cell. -/
theorem Element.toNat_ofNat {e : Element} {n : Nat} (h : n < 256 ^ e.width) :
    (UInt64.ofNat n).toNat = n := by
  refine UInt64.toNat_ofNat_of_lt' (h.trans_le ?_)
  cases e <;> decide

/-- The number that bytes stand for. -/
def Element.ofBytes (e : Element) (bytes : List UInt8) : Scalar :=
  e.ofBits (UInt64.ofNat (Bytes.toNat bytes))

@[simp] theorem Scalar.ofBytes_toBytes (v : Scalar) : v.element.ofBytes v.toBytes = v := by
  have hmod : Bytes.toNat v.toBytes = v.toBits.toNat :=
    (Bytes.toNat_ofNat _ _).trans (Nat.mod_eq_of_lt v.toBits_lt)
  rw [Element.ofBytes, hmod, UInt64.ofNat_toNat, ofBits_toBits]

theorem Element.toBytes_ofBytes {e : Element} {bytes : List UInt8} (h : bytes.length = e.width) :
    (e.ofBytes bytes).toBytes = bytes := by
  rw [ofBytes, toBytes_ofBits, toNat_ofNat (h ▸ Bytes.toNat_lt bytes), ← h, Bytes.ofNat_toNat]

/-! ### All numbers of an array -/

/-- The numbers that bytes stand for, one after another. -/
def Element.numbers (e : Element) (count : Nat) (bytes : List UInt8) : List Scalar :=
  (Bytes.words e.width count bytes).map fun n => e.ofBits (UInt64.ofNat n)

@[simp] theorem Element.length_numbers (e : Element) (count : Nat) (bytes : List UInt8) :
    (e.numbers count bytes).length = count := by
  simp [numbers]

/-- Reading the bytes of some numbers gives the numbers back. -/
theorem Element.numbers_flatMap {e : Element} {vs : List Scalar} (h : ∀ v ∈ vs, v.element = e) :
    e.numbers vs.length (vs.flatMap Scalar.toBytes) = vs := by
  induction vs with
  | nil => rfl
  | cons v vs ih =>
    obtain rfl := h v List.mem_cons_self
    have hrest := ih fun w hw => h w (List.mem_cons_of_mem v hw)
    have hfirst := v.ofBytes_toBytes
    have hlength : v.toBytes.length = v.element.width := Bytes.length_ofNat _ _
    rw [numbers] at hrest
    rw [ofBytes] at hfirst
    rw [List.flatMap_cons, List.length_cons, numbers, Bytes.words, List.map_cons,
      List.take_left' hlength, List.drop_left' hlength, hrest, hfirst]

/-- The cells of numbers that are read from bytes hold the words of the bytes. -/
theorem Element.map_toBits_numbers (e : Element) (count : Nat) (bytes : List UInt8) :
    (e.numbers count bytes).map Scalar.toBits =
      (Bytes.words e.width count bytes).map UInt64.ofNat := by
  rw [numbers, List.map_map]
  refine List.map_congr_left fun n hn => ?_
  have hfits := Bytes.lt_of_mem_words hn
  exact toBits_ofBits ((toNat_ofNat hfits).trans_lt hfits)

namespace Memory

variable {mem mem' : Memory} {a b : SharedArray} {bytes : List UInt8}

theorem element_of_mem_toList {v : Scalar} (h : v ∈ mem.toList a) : v.element = a.element := by
  obtain ⟨bits, -, rfl⟩ := List.mem_map.1 h
  exact Element.element_ofBits _ _

/-- A new array holds the values that it is made of. -/
theorem toList_allocate {e : Element} {values : List Scalar} (h : ∀ v ∈ values, v.element = e) :
    (mem.allocate e values).2.toList (mem.allocate e values).1 = values := by
  have hcells : (mem.allocate e values).2.cells (mem.allocate e values).1 =
      values.map Scalar.toBits := by
    simp [allocate, cells]
  rw [toList, hcells, List.map_map]
  exact (List.map_congr_left fun v hv => by
    obtain rfl := h v hv
    exact v.ofBits_toBits).trans (List.map_id values)

/-- The bytes of an array determine its numbers. -/
theorem numbers_toBytes (mem : Memory) (a : SharedArray) :
    a.element.numbers (mem.length a) (mem.toBytes a) = mem.toList a := by
  have helement : ∀ v ∈ mem.toList a, v.element = a.element := fun v => element_of_mem_toList
  have hnumbers := Element.numbers_flatMap helement
  rwa [toList, List.length_map] at hnumbers

/-- After a copy an array holds the numbers that the bytes stand for. -/
theorem toList_copyFromBytes (h : mem.copyFromBytes a bytes = .ok mem') :
    mem'.toList a = a.element.numbers (mem.length a) bytes := by
  rw [toList, cells_of_copyFromBytes h, List.map_map]
  rfl

theorem copyFromBytes_eq_ok_iff :
    (∃ mem', mem.copyFromBytes a bytes = .ok mem') ↔
      bytes.length = mem.length a * a.element.width := by
  rw [copyFromBytes]
  split_ifs with h <;> simp [h]

/-- An array takes over the numbers of another one of its type and length. -/
theorem toList_copy (helement : b.element = a.element) (hlength : mem.length b = mem.length a) :
    ∃ mem', mem.copyFromBytes b (mem.toBytes a) = .ok mem' ∧ mem'.toList b = mem'.toList a ∧
      mem'.toList a = mem.toList a := by
  have hroom : (mem.toBytes a).length = mem.length b * b.element.width := by
    rw [length_toBytes, helement, hlength]
  obtain ⟨mem', hcopy⟩ := exists_copyFromBytes hroom
  have hb : mem'.toList b = mem.toList a := by
    rw [toList_copyFromBytes hcopy, helement, hlength, numbers_toBytes]
  have ha : mem'.toList a = mem.toList a := by
    by_cases haddress : a.address = b.address
    · -- The two arrays are the same one.
      cases a
      cases b
      cases haddress
      cases helement
      exact hb
    · rw [toList, cells_copyFromBytes hcopy haddress, toList]
  exact ⟨mem', hcopy, hb.trans ha.symm, ha⟩

/-! ### Copying one number after another -/

theorem address_lt_of_cells (h : mem.cells a ≠ []) : a.address < mem.blocks.length := by
  by_contra hout
  refine h ?_
  rw [cells, List.getD_eq_getElem?_getD, List.getElem?_eq_none (Nat.le_of_not_lt hout)]
  rfl

@[simp] theorem setCells_cells (mem : Memory) (a : SharedArray) :
    mem.setCells a (mem.cells a) = mem := by
  have hblocks : mem.blocks.set a.address (mem.cells a) = mem.blocks := by
    refine List.ext_getElem List.length_set fun i hi hi' => ?_
    rw [List.getElem_set]
    split_ifs with haddress
    · subst haddress
      rw [cells, List.getD_eq_getElem?_getD, List.getElem?_eq_getElem hi', Option.getD_some]
    · rfl
  rw [setCells, hblocks]

@[simp] theorem setCells_setCells (mem : Memory) (a : SharedArray) (cells cells' : List UInt64) :
    (mem.setCells a cells).setCells a cells' = mem.setCells a cells' := by
  rw [setCells, setCells, setCells, List.set_set]

/-- Store numbers in an array, one after another from an index on. What was stored before a failure
stays. -/
def storeEach (a : SharedArray) : Nat → List Scalar → Memory → Except IndexFault Unit × Memory
  | _, [], mem => (.ok (), mem)
  | index, v :: vs, mem =>
    match mem.set a index v with
    | .error fault => (.error fault, mem)
    | .ok mem => storeEach a (index + 1) vs mem

/-- The copy of bytes to an array as a loop over its numbers. -/
def copyEach (mem : Memory) (a : SharedArray) (bytes : List UInt8) :
    Except (Error ⊕ IndexFault) Unit × Memory :=
  let length := mem.length a
  if bytes.length ≠ length * a.element.width then
    (.error (.inl (.copySize bytes.length length a.element.name)), mem)
  else
    let (result, mem) := storeEach a 0 (a.element.numbers length bytes) mem
    (result.mapError .inr, mem)

/-- Numbers for which there is room are all stored. -/
theorem storeEach_eq {vs : List Scalar} {done old : List UInt64}
    (hcells : mem.cells a = done ++ old) (hroom : old.length = vs.length) :
    storeEach a done.length vs mem = (.ok (), mem.setCells a (done ++ vs.map Scalar.toBits)) := by
  -- The cells before the index are those that are already done.
  induction vs generalizing mem done old with
  | nil =>
    obtain rfl := List.eq_nil_of_length_eq_zero hroom
    rw [List.map_nil, ← hcells, setCells_cells]
    rfl
  | cons v vs ih =>
    obtain ⟨first, rest, rfl⟩ := List.exists_cons_of_length_eq_add_one hroom
    have hindex : done.length < mem.length a := by simp [length, hcells]
    have hset : mem.set a done.length v = .ok (mem.setCells a (done ++ v.toBits :: rest)) := by
      rw [set, if_pos hindex, hcells, List.set_append_right _ _ le_rfl, Nat.sub_self,
        List.set_cons_zero]
    have hne : mem.cells a ≠ [] := by simp [hcells]
    have hnext : (mem.setCells a (done ++ v.toBits :: rest)).cells a =
        (done ++ [v.toBits]) ++ rest := by
      rw [cells_setCells, if_pos ⟨rfl, address_lt_of_cells hne⟩, List.append_assoc,
        List.singleton_append]
    have hstore := ih hnext (Nat.succ.inj hroom)
    rw [List.length_append, List.length_singleton, setCells_setCells, List.append_assoc,
      List.singleton_append] at hstore
    rw [storeEach, hset]
    exact hstore

/-- The loop does the same as the copy at once, and memory is as before if it fails. -/
theorem copyEach_eq (mem : Memory) (a : SharedArray) (bytes : List UInt8) :
    mem.copyEach a bytes =
      match mem.copyFromBytes a bytes with
      | .ok mem' => (.ok (), mem')
      | .error e => (.error (.inl e), mem) := by
  rw [copyEach, copyFromBytes]
  by_cases h : bytes.length = mem.length a * a.element.width
  · have hcells : mem.cells a = [] ++ mem.cells a := rfl
    have hroom : (mem.cells a).length = (a.element.numbers (mem.length a) bytes).length := by
      rw [Element.length_numbers, length]
    have hstore := storeEach_eq hcells hroom
    rw [List.length_nil, List.nil_append, Element.map_toBits_numbers] at hstore
    rw [if_neg (not_not.2 h), if_pos h, hstore]
    rfl
  · rw [if_pos h, if_neg h]

/-! ### Storing one number -/

/-- The bytes of the number at an index. -/
def numberBytes (mem : Memory) (a : SharedArray) (index : Nat) : List UInt8 :=
  ((mem.toBytes a).drop (index * a.element.width)).take a.element.width

theorem numberBytes_eq (mem : Memory) (a : SharedArray) (index : Nat) :
    mem.numberBytes a index =
      ((mem.cells a)[index]?.map fun bits => Bytes.ofNat a.element.width bits.toNat).getD [] := by
  rw [numberBytes, toBytes_eq]
  exact Bytes.take_drop_flatMap (fun _ => Bytes.length_ofNat _ _) _ _

theorem set_eq_ok_iff {index : Nat} {v : Scalar} :
    (∃ mem', mem.set a index v = .ok mem') ↔ index < mem.length a := by
  rw [set]
  split_ifs with h <;> simp [h]

theorem cells_of_set {index : Nat} {v : Scalar} (h : mem.set a index v = .ok mem') :
    mem'.cells a = (mem.cells a).set index v.toBits := by
  rw [set] at h
  split_ifs at h with hindex
  cases h
  have hne : mem.cells a ≠ [] := List.ne_nil_of_length_pos (Nat.zero_lt_of_lt hindex)
  rw [cells_setCells, if_pos ⟨rfl, address_lt_of_cells hne⟩]

theorem length_of_set {index : Nat} {v : Scalar} (h : mem.set a index v = .ok mem') :
    mem'.length a = mem.length a := by
  rw [length, cells_of_set h, List.length_set, length]

/-- The number that was stored is found again. -/
theorem get_of_set {index : Nat} {v : Scalar} (helement : v.element = a.element)
    (h : mem.set a index v = .ok mem') : mem'.get a index = .ok v := by
  have hindex := set_eq_ok_iff.1 ⟨mem', h⟩
  rw [get, cells_of_set h, List.getElem?_set_self hindex, ← helement]
  exact congrArg Except.ok v.ofBits_toBits

/-- At any other index nothing changes, neither the number nor its bytes. -/
theorem get_of_set_of_ne {index other : Nat} {v : Scalar} (h : mem.set a index v = .ok mem')
    (hne : other ≠ index) :
    mem'.get a other = mem.get a other ∧ mem'.numberBytes a other = mem.numberBytes a other := by
  have hcell : (mem'.cells a)[other]? = (mem.cells a)[other]? := by
    rw [cells_of_set h, List.getElem?_set_ne hne.symm]
  exact ⟨by rw [get, hcell, length_of_set h, get], by rw [numberBytes_eq, hcell, numberBytes_eq]⟩

/-- Nothing is lost between an array and its bytes. A copy succeeds exactly for as many bytes as the
array has, and then the array has these bytes; else memory stays as it is, even though the copy is a
loop. The bytes of an array make another one of its type and length equal to it. A cell gives back
the number that it was made of, and storing a number changes no other one and none of the other
bytes. -/
theorem bytes_round_trip (mem : Memory) (a : SharedArray) :
    (mem.toBytes a).length = mem.length a * a.element.width ∧
    (∀ bytes, (∃ mem', mem.copyFromBytes a bytes = .ok mem') ↔
      bytes.length = mem.length a * a.element.width) ∧
    (∀ bytes mem', mem.copyFromBytes a bytes = .ok mem' →
      mem.copyEach a bytes = (.ok (), mem') ∧ mem'.toBytes a = bytes) ∧
    (∀ bytes e, mem.copyFromBytes a bytes = .error e →
      mem.copyEach a bytes = (.error (.inl e), mem)) ∧
    (∀ b : SharedArray, b.element = a.element → mem.length b = mem.length a →
      ∃ mem', mem.copyFromBytes b (mem.toBytes a) = .ok mem' ∧
        mem'.toList b = mem'.toList a ∧ mem'.toList a = mem.toList a) ∧
    (∀ v : Scalar, v.element.ofBits v.toBits = v) ∧
    ∀ index v, v.element = a.element →
      ((∃ mem', mem.set a index v = .ok mem') ↔ index < mem.length a) ∧
      ∀ mem', mem.set a index v = .ok mem' →
        mem'.length a = mem.length a ∧ mem'.get a index = .ok v ∧
        ∀ other, other ≠ index → mem'.get a other = mem.get a other ∧
          mem'.numberBytes a other = mem.numberBytes a other := by
  refine ⟨length_toBytes mem a, fun _ => copyFromBytes_eq_ok_iff, fun bytes mem' hcopy => ?_,
    fun bytes e hcopy => ?_, fun b => toList_copy, Scalar.ofBits_toBits,
    fun index v helement => ⟨set_eq_ok_iff, fun mem' hset => ?_⟩⟩
  · rw [copyEach_eq, hcopy]
    exact ⟨rfl, toBytes_copyFromBytes hcopy⟩
  · rw [copyEach_eq, hcopy]
  · exact ⟨length_of_set hset, get_of_set helement hset, fun _ => get_of_set_of_ne hset⟩

/-- Two arrays of two numbers each. The first number is a NaN with a payload. -/
def twoFloats : Memory :=
  ⟨[[0x7FC01234, 0x3FC00000], [0, 0]]⟩

theorem bytes_round_trip_twoFloats :
    (∃ mem', twoFloats.copyFromBytes ⟨.float, 1⟩ (twoFloats.toBytes ⟨.float, 0⟩) = .ok mem' ∧
      mem'.toList ⟨.float, 1⟩ = [.float 0x7FC01234, .float 0x3FC00000]) ∧
    twoFloats.copyEach ⟨.float, 0⟩ [1, 2, 3] =
      (.error (.inl (.copySize 3 2 "float")), twoFloats) ∧
    ∃ mem', twoFloats.set ⟨.float, 0⟩ 1 (.float 7) = .ok mem' ∧
      mem'.get ⟨.float, 0⟩ 1 = .ok (.float 7) ∧
      mem'.numberBytes ⟨.float, 0⟩ 0 = [0x34, 0x12, 0xC0, 0x7F] := by
  obtain ⟨-, -, -, hfail, hcopy, -, hset⟩ := bytes_round_trip twoFloats ⟨.float, 0⟩
  obtain ⟨mem₁, hcopied, hb, ha⟩ := hcopy ⟨.float, 1⟩ rfl rfl
  obtain ⟨hroom, hstored⟩ := hset 1 (.float 7) rfl
  obtain ⟨mem₂, hset⟩ := hroom.2 (by decide)
  obtain ⟨-, hget, hothers⟩ := hstored mem₂ hset
  exact ⟨⟨mem₁, hcopied, hb.trans (ha.trans rfl)⟩, hfail [1, 2, 3] _ rfl,
    ⟨mem₂, hset, hget, (hothers 0 (by decide)).2.trans (by decide)⟩⟩

end Memory

end Launch

end KernelForge
