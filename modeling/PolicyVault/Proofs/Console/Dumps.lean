import PolicyVault.CommandLine.Values
import PolicyVault.Proofs.Text.Bytes
import PolicyVault.Proofs.Text.Numerals
import PolicyVault.Text.Fields
import PolicyVault.Wire.Wording

/-!
# Rows of bytes that are read back

Bytes are shown in rows of sixteen. Each row begins with its offset. Without the offsets and the
blanks, what is left are the digits of the bytes, as they can be given on a command line.

Main statement: `hexDump_dumps`.
-/

namespace PolicyVault.Console

open CommandLine (readHex readPair readPairs)
open Text (hexAlphabet paddedHex)
open Wire (hexRow hexDump)

variable {bytes row : List UInt8}

/-- The lines of a text without their first words and without blanks. -/
def stripped (text : List Char) : List Char :=
  (Text.cutAt '\n' text).flatMap fun line => (line.dropWhile (· != ' ')).filter (· != ' ')

/-- A line that shows the sixteen bytes from the offset `16 * k` on, or those that are left. -/
structure Row (bytes : List UInt8) (k : Nat) (line start : List Char) (pairs : List (List Char)) :
    Prop where
  line : line = start ++ ' ' :: pairs.flatMap (' ' :: ·)
  digits : ∀ word ∈ start :: pairs, ∀ c ∈ word, c ∈ hexAlphabet
  wide : 8 ≤ start.length
  offset : ∀ limit, 16 * k < limit → Text.readNumeral 16 limit start = .ok (16 * k)
  values : pairs.map (Text.readNumeral 16 256) =
    ((bytes.drop (16 * k)).take 16).map fun b => .ok b.toNat
  paired : ∀ pair ∈ pairs, pair.length = 2

/-- The text shows the bytes, sixteen on each line but the last. -/
structure Dumps (bytes : List UInt8) (text : List Char) : Prop where
  lines : ∃ lines : List (List Char), text = lines.flatMap (· ++ ['\n']) ∧
    lines.length = (bytes.length + 15) / 16 ∧
    ∀ k line, lines[k]? = some line → ∃ start pairs, Row bytes k line start pairs ∧
      (k + 1 < lines.length → pairs.length = 16)
  recovered : readHex (String.ofList (stripped text)) = .ok bytes

/-! ## Bytes in rows -/

def rows (bytes : List UInt8) : List (List UInt8) :=
  (List.range ((bytes.length + 15) / 16)).map fun k => (bytes.drop (16 * k)).take 16

theorem length_rows (bytes : List UInt8) : (rows bytes).length = (bytes.length + 15) / 16 := by
  rw [rows, List.length_map, List.length_range]

theorem row_eq {k : Nat} (found : (rows bytes)[k]? = some row) :
    row = (bytes.drop (16 * k)).take 16 := by
  obtain ⟨inside, rfl⟩ := List.getElem?_eq_some_iff.mp found
  simp [rows]

theorem rows_eq (nonempty : bytes ≠ []) :
    rows bytes = bytes.take 16 :: rows (bytes.drop 16) := by
  have positive := List.length_pos_iff.mpr nonempty
  have count : (bytes.length + 15) / 16 = ((bytes.drop 16).length + 15) / 16 + 1 := by
    rw [List.length_drop]
    omega
  have shifted : ∀ k, (bytes.drop (16 * (k + 1))).take 16 =
      ((bytes.drop 16).drop (16 * k)).take 16 := by
    intro k
    rw [List.drop_drop, Nat.mul_add, Nat.mul_one, Nat.add_comm]
  rw [rows, count, List.range_succ_eq_map, List.map_cons, List.map_map]
  exact congrArg _ (List.map_congr_left fun k _ => shifted k)

/-! ## Bytes as pairs of digits -/

def digitPair (b : UInt8) : List Char := paddedHex 2 b.toNat

def bytePair (b : UInt8) : List UInt8 := Text.bytesOfText (String.ofList (digitPair b))

theorem digitPair_eq (b : UInt8) :
    digitPair b = [Nat.digitChar (b.toNat / 16), Nat.digitChar (b.toNat % 16)] :=
  Text.paddedHex_byte b.toNat_lt

theorem bytePair_eq (b : UInt8) : bytePair b = (digitPair b).map fun c => UInt8.ofNat c.toNat := by
  have ascii : ∀ c ∈ hexAlphabet, c.toNat < 0x80 := Text.forall_hexAlphabet (by decide)
  exact Text.bytesOfText_ascii fun c member => ascii c (Text.mem_paddedHex c member)

theorem mem_bytePair {b : UInt8} : ∀ value ∈ bytePair b, value < 0x80 ∧ value ≠ 0x78 := by
  have codes : ∀ c ∈ hexAlphabet, UInt8.ofNat c.toNat < 0x80 ∧ UInt8.ofNat c.toNat ≠ 0x78 :=
    Text.forall_hexAlphabet (by decide)
  rw [bytePair_eq]
  intro value member
  obtain ⟨c, inside, rfl⟩ := List.mem_map.mp member
  exact codes c (Text.mem_paddedHex c inside)

theorem exists_bytePair (b : UInt8) : ∃ high low, bytePair b = [high, low] ∧ low ≠ 0x78 := by
  have shape := bytePair_eq b
  rw [digitPair_eq] at shape
  refine ⟨_, _, shape, (mem_bytePair (b := b) _ ?_).2⟩
  rw [shape]
  simp

theorem readPair_bytePair (b : UInt8) : readPair (bytePair b) = .ok b := by
  have clean : Text.utf8Fault? (bytePair b) = none :=
    Text.utf8FaultFrom_ascii (fun value member => (mem_bytePair value member).1) 0
  have value : Text.readNumeral 16 256 (digitPair b) = .ok b.toNat :=
    Text.readNumeral_paddedHex 2 b.toNat_lt
  have text : Text.textOfBytes? (bytePair b) = some (String.ofList (digitPair b)) :=
    Text.textOfBytes?_bytesOfText _
  simp [readPair, clean, text, value]

theorem readPairs_bytePairs (bytes : List UInt8) :
    readPairs (bytes.flatMap bytePair) = .ok bytes := by
  induction bytes with
  | nil => rfl
  | cons b bytes ih =>
    obtain ⟨high, low, shape, -⟩ := exists_bytePair b
    have read := readPair_bytePair b
    rw [shape] at read
    rw [List.flatMap_cons, shape]
    simp only [List.cons_append, List.nil_append, readPairs, read, ih]

theorem bytesOfText_digitPairs (bytes : List UInt8) :
    Text.bytesOfText (String.ofList (bytes.flatMap digitPair)) = bytes.flatMap bytePair := by
  rw [Text.bytesOfText_ofList, List.flatMap_assoc]
  congr 1
  funext b
  exact (Text.bytesOfText_ofList _).symm

theorem length_bytePairs (bytes : List UInt8) :
    (bytes.flatMap bytePair).length = 2 * bytes.length := by
  induction bytes with
  | nil => rfl
  | cons b bytes ih =>
    obtain ⟨high, low, shape, -⟩ := exists_bytePair b
    rw [List.flatMap_cons, shape, List.length_append, ih, List.length_cons]
    simp
    omega

theorem readHex_digitPairs (nonempty : bytes ≠ []) :
    readHex (String.ofList (bytes.flatMap digitPair)) = .ok bytes := by
  have length := length_bytePairs bytes
  have even : (bytes.flatMap bytePair).length % 2 = 0 := by omega
  have filled : (bytes.flatMap bytePair).isEmpty = false := by
    have positive := List.length_pos_iff.mpr nonempty
    rw [List.isEmpty_eq_false_iff, ← List.length_pos_iff]
    omega
  unfold readHex
  rw [bytesOfText_digitPairs]
  split
  · rename_i digits marked
    -- The second byte would be the mark of base sixteen, which is no digit.
    obtain ⟨b, rest, rfl⟩ := List.exists_cons_of_ne_nil nonempty
    obtain ⟨high, low, shape, unmarked⟩ := exists_bytePair b
    rw [List.flatMap_cons, shape] at marked
    obtain ⟨-, tail⟩ := List.cons.inj marked
    exact absurd (List.cons.inj tail).1 unmarked
  · simp only [filled, even, readPairs_bytePairs]
    rfl

/-! ## Lines -/

def hexLine (offset : Nat) (row : List UInt8) : List Char :=
  paddedHex 8 offset ++ ' ' :: (row.map digitPair).flatMap (' ' :: ·)

theorem hexRow_eq (offset : Nat) (row : List UInt8) :
    hexRow offset row = hexLine offset row ++ ['\n'] := by
  simp [hexRow, hexLine, digitPair, List.flatMap_map]

theorem hexRows_eq (offset : Nat) (bytes : List UInt8) :
    Wire.hexRows offset bytes =
      ((rows bytes).mapIdx fun k row => hexLine (offset + 16 * k) row).flatMap (· ++ ['\n']) := by
  induction offset, bytes using Wire.hexRows.induct with
  | case1 offset bytes empty =>
    obtain rfl := List.isEmpty_iff.mp empty
    rw [Wire.hexRows]
    rfl
  | case2 offset bytes nonempty ih =>
    have filled : bytes ≠ [] := fun empty => nonempty (List.isEmpty_iff.mpr empty)
    have shifted : ∀ k, offset + 16 * (k + 1) = offset + 16 + 16 * k := by omega
    rw [Wire.hexRows, if_neg nonempty, ih, rows_eq filled, List.mapIdx_cons, List.flatMap_cons,
      hexRow_eq]
    simp only [Wire.rowSize, shifted, Nat.mul_zero, Nat.add_zero]

theorem flatten_rows (bytes : List UInt8) : (rows bytes).flatten = bytes := by
  induction length : bytes.length using Nat.strongRecOn generalizing bytes with
  | ind n ih =>
    by_cases empty : bytes = []
    · rw [empty]
      rfl
    · have shorter : (bytes.drop 16).length < n := by
        have positive := List.length_pos_iff.mpr empty
        rw [List.length_drop]
        omega
      rw [rows_eq empty, List.flatten_cons, ih _ shorter _ rfl, List.take_append_drop]

theorem newline_not_mem_hexLine (offset : Nat) (row : List UInt8) : '\n' ∉ hexLine offset row := by
  have bare : ∀ c ∈ hexAlphabet, c ≠ '\n' := Text.forall_hexAlphabet (by decide)
  intro member
  rcases List.mem_append.mp member with start | rest
  · exact bare _ (Text.mem_paddedHex _ start) rfl
  · obtain ⟨word, inside, here⟩ := List.mem_flatMap.mp ((List.mem_cons.mp rest).resolve_left
      (by decide))
    obtain ⟨b, -, rfl⟩ := List.mem_map.mp inside
    exact bare _ (Text.mem_paddedHex _ ((List.mem_cons.mp here).resolve_left (by decide))) rfl

theorem strip_hexLine (offset : Nat) (row : List UInt8) :
    ((hexLine offset row).dropWhile (· != ' ')).filter (· != ' ') = row.flatMap digitPair := by
  have bare : ∀ c ∈ hexAlphabet, (c != ' ') = true := Text.forall_hexAlphabet (by decide)
  have kept : ∀ b, (digitPair b).filter (· != ' ') = digitPair b :=
    fun b => List.filter_eq_self.mpr fun c member => bare c (Text.mem_paddedHex c member)
  rw [hexLine, List.dropWhile_append_of_pos fun c member => bare c (Text.mem_paddedHex c member),
    List.dropWhile_cons_of_neg (by decide), List.filter_cons_of_neg (by decide)]
  simp [List.filter_flatMap, List.flatMap_map, kept]

theorem hexLine_row (k : Nat) (bytes : List UInt8) :
    Row bytes k (hexLine (16 * k) ((bytes.drop (16 * k)).take 16)) (paddedHex 8 (16 * k))
      (((bytes.drop (16 * k)).take 16).map digitPair) where
  line := rfl
  digits := by
    refine List.forall_mem_cons.mpr ⟨Text.mem_paddedHex, ?_⟩
    intro word member
    obtain ⟨b, -, rfl⟩ := List.mem_map.mp member
    exact Text.mem_paddedHex
  wide := Text.le_length_paddedHex 8 _
  offset := fun limit small => Text.readNumeral_paddedHex 8 small
  values := by
    rw [List.map_map]
    exact List.map_congr_left fun b _ => Text.readNumeral_paddedHex 2 b.toNat_lt
  paired := by
    intro pair member
    obtain ⟨b, -, rfl⟩ := List.mem_map.mp member
    rw [digitPair_eq]
    rfl

theorem stripped_hexRows (bytes : List UInt8) :
    stripped (Wire.hexRows 0 bytes) = bytes.flatMap digitPair := by
  let lines := (rows bytes).mapIdx fun k row => hexLine (0 + 16 * k) row
  have unmarked : ∀ line ∈ lines, '\n' ∉ line := by
    intro line member
    obtain ⟨k, inside, rfl⟩ := List.mem_mapIdx.mp member
    exact newline_not_mem_hexLine _ _
  have cut : Text.cutAt '\n' (lines.flatMap (· ++ ['\n']) ++ []) = lines ++ [[]] :=
    Text.cutAt_terminated unmarked List.not_mem_nil
  have words : (lines.map fun line => (line.dropWhile (· != ' ')).filter (· != ' ')) =
      (rows bytes).map (·.flatMap digitPair) := by
    apply List.ext_getElem?
    simp [lines, strip_hexLine, Function.comp_def]
  have joined : (rows bytes).flatMap (·.flatMap digitPair) = bytes.flatMap digitPair := by
    rw [← List.flatMap_assoc (f := fun row => row), List.flatMap_id', flatten_rows]
  rw [List.append_nil] at cut
  rw [stripped, hexRows_eq, cut, List.flatMap_append, List.flatMap_def, words, ← List.flatMap_def,
    joined]
  exact List.append_nil _

/-- What is printed of bytes that were read shows them, and they can be given back as it is. -/
theorem hexDump_dumps (nonempty : bytes ≠ []) : Dumps bytes (hexDump bytes).toList where
  lines := by
    rw [hexDump, String.toList_ofList, hexRows_eq]
    refine ⟨_, rfl, by rw [List.length_mapIdx, length_rows], ?_⟩
    intro k line found
    rw [List.length_mapIdx, length_rows]
    rw [List.getElem?_mapIdx] at found
    obtain ⟨row, place, rfl⟩ := Option.map_eq_some_iff.mp found
    obtain rfl := row_eq place
    rw [Nat.zero_add]
    refine ⟨_, _, hexLine_row k bytes, ?_⟩
    intro more
    rw [List.length_map, List.length_take, List.length_drop]
    omega
  recovered := by
    rw [hexDump, String.toList_ofList, stripped_hexRows]
    exact readHex_digitPairs nonempty

end PolicyVault.Console
