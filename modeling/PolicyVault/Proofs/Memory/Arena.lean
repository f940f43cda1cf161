import PolicyVault.Memory.Arena

/-!
# The bytes of an arena

A range that lies within an arena can be read and written, and writing it changes the bytes of the
range and no others. Byte `i` of an arena is `byte i`, which is 0 behind its end.

Main statements: `read_inside`, `write_inside`, `zeroRange_inside`.
-/

namespace PolicyVault.Memory

theorem size_zeros (n : Nat) : (zeros n).size = n := by
  fun_induction zeros n with
  | case1 => rfl
  | case2 n some half even ih =>
    rw [ByteArray.size_append, ih]
    omega
  | case3 n some half odd ih =>
    rw [ByteArray.size_push, ByteArray.size_append, ih]
    omega

theorem eq_zero_of_mem_zeros (n : Nat) : ∀ b ∈ (zeros n).data.toList, b = 0 := by
  fun_induction zeros n with
  | case1 => simp
  | case2 n some half even ih => simpa [half] using ih
  | case3 n some half odd ih =>
    intro b member
    simp only [ByteArray.data_push, Array.toList_push, ByteArray.toList_data_append,
      List.mem_append, List.mem_singleton, or_self] at member
    exact member.elim (ih b) id

theorem data_zeros (n : Nat) : (zeros n).data.toList = List.replicate n 0 := by
  rw [List.eq_replicate_iff]
  exact ⟨size_zeros n, eq_zero_of_mem_zeros n⟩

theorem getD_zeros (n i : Nat) : (zeros n).data.toList.getD i 0 = 0 := by
  rw [data_zeros, List.getD_eq_getElem?_getD, List.getElem?_replicate]
  split <;> rfl

theorem toList_loop (bytes : ByteArray) (i : Nat) (seen : List UInt8) :
    ByteArray.toList.loop bytes i seen = seen.reverse ++ bytes.data.toList.drop i := by
  induction i, seen using ByteArray.toList.loop.induct bytes with
  | case1 i seen inside ih =>
    have bound : i < bytes.data.toList.length := inside
    have head : bytes.get! i = bytes.data.toList[i] := getElem!_pos bytes.data i inside
    rw [ByteArray.toList.loop, if_pos inside, ih, head, List.drop_eq_getElem_cons bound]
    simp
  | case2 i seen outside =>
    have behind : bytes.data.toList.length ≤ i := Nat.le_of_not_lt outside
    rw [ByteArray.toList.loop, if_neg outside, List.drop_eq_nil_of_le behind, List.append_nil]

theorem toList_eq_data (bytes : ByteArray) : bytes.toList = bytes.data.toList := by
  rw [ByteArray.toList, toList_loop]
  rfl

namespace Arena

def byte (a : Arena) (i : Nat) : UInt8 := a.bytes.data.toList.getD i 0

theorem length_data (a : Arena) : a.bytes.data.toList.length = a.size := rfl

@[simp] theorem size_zeroed (size : UInt64) : (zeroed size).size = size.toNat :=
  size_zeros size.toNat

theorem byte_zeroed (size : UInt64) (i : Nat) : (zeroed size).byte i = 0 :=
  getD_zeros size.toNat i

@[simp] theorem size_zeroize (a : Arena) : a.zeroize.size = a.size :=
  size_zeros a.size

theorem byte_zeroize (a : Arena) (i : Nat) : a.zeroize.byte i = 0 :=
  getD_zeros a.size i

@[simp] theorem zeroize_zeroize (a : Arena) : a.zeroize.zeroize = a.zeroize :=
  congrArg (fun n => Arena.mk (zeros n) a.locked) a.size_zeroize

theorem eq_of_byte {a b : Arena} (size : a.size = b.size) (same : ∀ i, a.byte i = b.byte i)
    (locked : a.locked = b.locked) : a = b := by
  have bytes : a.bytes = b.bytes := by
    apply ByteArray.ext
    apply Array.toList_inj.mp
    apply List.ext_getElem size
    intro i _ _
    rw [List.getElem_eq_getD 0, List.getElem_eq_getD 0]
    exact same i
  obtain ⟨_, _⟩ := a
  obtain ⟨_, _⟩ := b
  exact (Arena.mk.injEq ..).mpr ⟨bytes, locked⟩

theorem checkRange_inside {a : Arena} {offset length : Nat} (small : a.size < Text.wordLimit64)
    (inside : offset + length ≤ a.size) : a.checkRange offset length = .ok () := by
  have isAddress : offset + length < Text.wordLimit64 := by omega
  simp [checkRange, rangeEnd?, isAddress, inside]

theorem read_inside {a : Arena} {offset length : Nat} (small : a.size < Text.wordLimit64)
    (inside : offset + length ≤ a.size) :
    a.read offset length = .ok ((List.range length).map fun i => a.byte (offset + i)) := by
  have size := a.length_data
  simp only [read, checkRange_inside small inside, toList_eq_data, ByteArray.data_extract]
  congr 1
  apply List.ext_getElem
  · simp only [Array.toList_extract, List.extract_eq_take_drop, List.length_take, List.length_drop,
      List.length_map, List.length_range]
    omega
  · intro i _ bound
    have bound : i < length := by simpa using bound
    have within : offset + i < a.bytes.data.toList.length := by omega
    simp only [Array.toList_extract, List.extract_eq_take_drop, List.getElem_take,
      List.getElem_drop, List.getElem_map, List.getElem_range, byte]
    exact List.getElem_eq_getD 0

/-! ## Writing -/

theorem data_patch (a : Arena) (offset : Nat) (data : ByteArray) :
    (a.patch offset data).bytes.data.toList =
      a.bytes.data.toList.take offset ++ data.data.toList ++
        a.bytes.data.toList.drop (offset + data.size) := by
  have whole : data.data.toList.take data.size = data.data.toList := List.take_length
  have count : min data.size (data.data.size - 0) = data.size := Nat.min_self data.size
  have behind := List.take_of_length_le (i := a.bytes.data.size - (offset + data.size))
    (l := a.bytes.data.toList.drop (offset + data.size)) (by simp)
  simp only [patch, ByteArray.copySlice_eq_append, ByteArray.toList_data_append,
    ByteArray.data_extract, Array.toList_extract, List.extract_eq_take_drop]
  rw [count, behind, Nat.sub_zero, Nat.sub_zero, Nat.zero_add, List.drop_zero, List.drop_zero,
    whole]

theorem size_patch {a : Arena} {offset : Nat} {data : ByteArray}
    (inside : offset + data.size ≤ a.size) : (a.patch offset data).size = a.size := by
  have size : data.data.toList.length = data.size := rfl
  rw [← length_data, data_patch]
  simp only [List.length_append, List.length_take, List.length_drop, length_data, size]
  omega

theorem byte_patch {a : Arena} {offset : Nat} {data : ByteArray}
    (inside : offset + data.size ≤ a.size) (i : Nat) :
    (a.patch offset data).byte i =
      if offset ≤ i ∧ i < offset + data.size then data.data.toList.getD (i - offset) 0
      else a.byte i := by
  have size : data.data.toList.length = data.size := rfl
  have whole := a.length_data
  have front : (a.bytes.data.toList.take offset).length = offset := by
    rw [List.length_take]
    omega
  have middle : (a.bytes.data.toList.take offset ++ data.data.toList).length =
      offset + data.size := by
    rw [List.length_append, front, size]
  unfold byte
  rw [data_patch]
  simp only [List.getD_eq_getElem?_getD]
  by_cases before : i < offset
  · rw [if_neg (by omega), List.append_assoc, List.getElem?_append_left (by omega),
      List.getElem?_take_of_lt before]
  · by_cases within : i < offset + data.size
    · rw [if_pos (by omega), List.getElem?_append_left (by omega),
        List.getElem?_append_right (by omega), front]
    · rw [if_neg (by omega), List.getElem?_append_right (by omega), middle, List.getElem?_drop,
        Nat.add_sub_cancel' (by omega)]

theorem write_inside {a : Arena} {offset : Nat} {data : List UInt8}
    (small : a.size < Text.wordLimit64) (inside : offset + data.length ≤ a.size) :
    ∃ b, a.write offset data = .ok b ∧ b.size = a.size ∧
      ∀ i, b.byte i =
        if offset ≤ i ∧ i < offset + data.length then data.getD (i - offset) 0 else a.byte i := by
  have fits : offset + data.toByteArray.size ≤ a.size := by simpa using inside
  refine ⟨a.patch offset data.toByteArray, ?_, size_patch fits, ?_⟩
  · simp [write, checkRange_inside small inside]
  · intro i
    rw [byte_patch fits]
    simp

theorem zeroRange_inside {a : Arena} {offset length : Nat} (small : a.size < Text.wordLimit64)
    (inside : offset + length ≤ a.size) :
    ∃ b, a.zeroRange offset length = .ok b ∧ b.size = a.size ∧
      ∀ i, b.byte i = if offset ≤ i ∧ i < offset + length then 0 else a.byte i := by
  have fits : offset + (zeros length).size ≤ a.size := by simpa [size_zeros] using inside
  refine ⟨a.patch offset (zeros length), ?_, size_patch fits, ?_⟩
  · simp [zeroRange, checkRange_inside small inside]
  · intro i
    rw [byte_patch fits, size_zeros, data_zeros]
    by_cases within : offset ≤ i ∧ i < offset + length
    · have bound : i - offset < length := by omega
      simp [within, bound]
    · simp [within]

/-- Zeroing bytes that are zero already changes nothing. -/
theorem zeroRange_clear {a : Arena} {offset length : Nat} (small : a.size < Text.wordLimit64)
    (inside : offset + length ≤ a.size)
    (clear : ∀ i, offset ≤ i → i < offset + length → a.byte i = 0) :
    a.zeroRange offset length = .ok a := by
  have fits : offset + (zeros length).size ≤ a.size := by simpa [size_zeros] using inside
  have kept : a.patch offset (zeros length) = a := by
    refine eq_of_byte (size_patch fits) (fun i => ?_) rfl
    rw [byte_patch fits, size_zeros, getD_zeros]
    split
    · rename_i within
      exact (clear i within.1 within.2).symm
    · rfl
  simp [zeroRange, checkRange_inside small inside, kept]

end Arena

end PolicyVault.Memory
