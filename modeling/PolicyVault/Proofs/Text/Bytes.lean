import PolicyVault.Proofs.Memory.Arena
import PolicyVault.Text.Utf8

/-!
# The bytes of a text

A text is read back from its bytes. A byte below 0x80 stands for one character wherever it occurs,
so a text that lacks the character lacks the byte.

Main statements: `textOfBytes?_bytesOfText`, `mem_bytesOfText`, `bytesOfText_latin1Text`.
-/

namespace PolicyVault.Text

theorem textOfBytes?_bytesOfText (text : String) : textOfBytes? (bytesOfText text) = some text := by
  have bytes : (bytesOfText text).toByteArray = text.toUTF8 := by
    apply ByteArray.ext
    rw [bytesOfText, List.data_toByteArray, Memory.toList_eq_data, Array.toArray_toList]
  rw [textOfBytes?, bytes]
  exact dif_pos text.isValidUTF8

theorem bytesOfText_of_textOfBytes? {bytes : List UInt8} {text : String}
    (read : textOfBytes? bytes = some text) : bytesOfText text = bytes := by
  unfold textOfBytes? String.fromUTF8? at read
  split at read
  · obtain rfl := Option.some.inj read
    show bytes.toByteArray.toList = bytes
    rw [Memory.toList_eq_data, List.data_toByteArray]
  · cases read

theorem bytesOfText_ofList (text : List Char) :
    bytesOfText (String.ofList text) = text.flatMap String.utf8EncodeChar := by
  show (text.flatMap String.utf8EncodeChar).toByteArray.toList = _
  rw [Memory.toList_eq_data, List.data_toByteArray]

theorem bytesOfText_nil : bytesOfText (String.ofList []) = [] := by
  rw [bytesOfText_ofList, List.flatMap_nil]

theorem utf8EncodeChar_ascii {c : Char} (ascii : c.toNat < 0x80) :
    String.utf8EncodeChar c = [UInt8.ofNat c.toNat] :=
  if_pos (Nat.le_of_lt_succ ascii)

theorem toNat_latin1 (b : UInt8) : (latin1 b).toNat = b.toNat := by
  have small := b.toNat_lt
  have valid : b.toNat.isValidChar := .inl (by omega)
  rw [latin1, Char.ofNat, dif_pos valid]
  rfl

theorem utf8EncodeChar_latin1 {b : UInt8} (ascii : b < 0x80) :
    String.utf8EncodeChar (latin1 b) = [b] := by
  rw [utf8EncodeChar_ascii (toNat_latin1 b ▸ ascii), toNat_latin1, UInt8.ofNat_toNat]

theorem utf8EncodeChar_beyond {c : Char} (beyond : 0x80 ≤ c.toNat) :
    ∀ b ∈ String.utf8EncodeChar c, 0x80 ≤ b := by
  have marked : ∀ n < 0x100, 0x80 ≤ n → 0x80 ≤ UInt8.ofNat n := by
    intro n bound high
    rw [UInt8.le_iff_toNat_le, UInt8.toNat_ofNat_of_lt' bound]
    exact high
  have several : ¬ c.val.toNat ≤ 0x7f := Nat.not_le.mpr beyond
  simp only [String.utf8EncodeChar, if_neg several]
  have none : ∀ b ∈ ([] : List UInt8), 0x80 ≤ b := by simp
  split
  · simp only [List.forall_mem_cons]
    exact ⟨marked _ (by omega) (by omega), marked _ (by omega) (by omega), none⟩
  split
  · simp only [List.forall_mem_cons]
    exact ⟨marked _ (by omega) (by omega), marked _ (by omega) (by omega),
      marked _ (by omega) (by omega), none⟩
  · simp only [List.forall_mem_cons]
    exact ⟨marked _ (by omega) (by omega), marked _ (by omega) (by omega),
      marked _ (by omega) (by omega), marked _ (by omega) (by omega), none⟩

theorem mem_utf8EncodeChar {c : Char} {b : UInt8} (ascii : b < 0x80)
    (member : b ∈ String.utf8EncodeChar c) : c = latin1 b := by
  have small : c.toNat < 0x80 := Nat.lt_of_not_le fun beyond =>
    absurd (utf8EncodeChar_beyond beyond b member) (UInt8.not_le.mpr ascii)
  rw [utf8EncodeChar_ascii small, List.mem_singleton] at member
  have value : (UInt8.ofNat c.toNat).toNat = c.toNat :=
    UInt8.toNat_ofNat_of_lt' (Nat.lt_trans small (by decide))
  rw [member, latin1, value, Char.ofNat_toNat]

theorem mem_bytesOfText {text : List Char} {b : UInt8} (ascii : b < 0x80)
    (member : b ∈ bytesOfText (String.ofList text)) : latin1 b ∈ text := by
  rw [bytesOfText_ofList] at member
  obtain ⟨c, inText, encoded⟩ := List.mem_flatMap.mp member
  exact mem_utf8EncodeChar ascii encoded ▸ inText

/-- A byte below 0x80 at the front is the first character. -/
theorem cons_of_bytesOfText {text : List Char} {b : UInt8} {rest : List UInt8} (ascii : b < 0x80)
    (bytes : bytesOfText (String.ofList text) = b :: rest) :
    ∃ more, text = latin1 b :: more ∧ rest = bytesOfText (String.ofList more) := by
  rw [bytesOfText_ofList] at bytes
  cases text with
  | nil => cases bytes
  | cons c more =>
    have nonempty : String.utf8EncodeChar c ≠ [] := String.utf8EncodeChar_ne_nil
    obtain ⟨first, others, encoded⟩ := List.exists_cons_of_ne_nil nonempty
    rw [List.flatMap_cons, encoded, List.cons_append] at bytes
    obtain ⟨rfl, rfl⟩ := List.cons.inj bytes
    obtain rfl := mem_utf8EncodeChar ascii (encoded ▸ List.mem_cons_self)
    obtain ⟨-, rfl⟩ := List.cons.inj (encoded.symm.trans (utf8EncodeChar_latin1 ascii))
    exact ⟨more, rfl, (bytesOfText_ofList more).symm⟩

theorem bytesOfText_ne_nil {text : List Char} (nonempty : text ≠ []) :
    bytesOfText (String.ofList text) ≠ [] := by
  obtain ⟨c, rest, rfl⟩ := List.exists_cons_of_ne_nil nonempty
  rw [bytesOfText_ofList, List.flatMap_cons]
  exact List.append_ne_nil_of_left_ne_nil String.utf8EncodeChar_ne_nil _

theorem length_le_length_flatMap {α β : Type} {f : α → List β} (nonempty : ∀ a, f a ≠ [])
    (l : List α) : l.length ≤ (l.flatMap f).length := by
  induction l with
  | nil => exact Nat.le_refl 0
  | cons a l ih =>
    have some := List.length_pos_iff.mpr (nonempty a)
    rw [List.flatMap_cons, List.length_append, List.length_cons]
    omega

theorem length_le_bytesOfText (text : List Char) :
    text.length ≤ (bytesOfText (String.ofList text)).length := by
  rw [bytesOfText_ofList]
  exact length_le_length_flatMap (fun _ => String.utf8EncodeChar_ne_nil) text

/-! ## Text of one byte a character -/

theorem bytesOfText_ascii {text : List Char} (ascii : ∀ c ∈ text, c.toNat < 0x80) :
    bytesOfText (String.ofList text) = text.map fun c => UInt8.ofNat c.toNat := by
  rw [bytesOfText_ofList]
  induction text with
  | nil => rfl
  | cons c text ih =>
    obtain ⟨first, rest⟩ := List.forall_mem_cons.mp ascii
    rw [List.flatMap_cons, ih rest, utf8EncodeChar_ascii first, List.map_cons,
      List.singleton_append]

theorem bytesOfText_cons {c : Char} (ascii : c.toNat < 0x80) (text : List Char) :
    bytesOfText (String.ofList (c :: text)) =
      UInt8.ofNat c.toNat :: bytesOfText (String.ofList text) := by
  rw [bytesOfText_ofList, bytesOfText_ofList, List.flatMap_cons, utf8EncodeChar_ascii ascii,
    List.singleton_append]

theorem utf8FaultFrom_ascii {bytes : List UInt8} (ascii : ∀ b ∈ bytes, b < 0x80) (position : Nat) :
    utf8FaultFrom position bytes = none := by
  induction bytes generalizing position with
  | nil => rfl
  | cons b bytes ih =>
    obtain ⟨first, rest⟩ := List.forall_mem_cons.mp ascii
    unfold utf8FaultFrom
    exact (if_pos first).trans (ih rest (position + 1))

theorem bytesOfText_latin1Text {bytes : List UInt8} (ascii : ∀ b ∈ bytes, b < 0x80) :
    bytesOfText (latin1Text bytes) = bytes := by
  rw [latin1Text, bytesOfText_ofList, List.flatMap_map]
  induction bytes with
  | nil => rfl
  | cons b bytes ih =>
    obtain ⟨first, rest⟩ := List.forall_mem_cons.mp ascii
    rw [List.flatMap_cons, ih rest, utf8EncodeChar_latin1 first]
    rfl

end PolicyVault.Text
