import PolicyVault.CommandLine.Values
import PolicyVault.Proofs.Text.Bytes
import PolicyVault.Proofs.Text.Numerals

/-!
# Bytes in pairs of digits

Bytes on a command line are pairs of digits of base sixteen, and each pair is read as a numeral. A
numeral may begin with a plus sign, so a pair may too: it has the value of its digit alone. Without
such signs the reader takes the pairs of digits and nothing else.

Main statement: `readHex_exact`.
-/

namespace PolicyVault.CommandLine

open Text (HexDigit bytesOfText)

/-- What may stand in the first place of a pair: a digit, or a plus sign, which counts as zero. -/
def Leading (c : Char) (value : Nat) : Prop := HexDigit c value ∨ c = '+' ∧ value = 0

/-- The text spells the bytes, a pair of characters for each. -/
inductive Spells (lead : Char → Nat → Prop) : List Char → List UInt8 → Prop
  | nil : Spells lead [] []
  | pair {c d : Char} {high low : Nat} {text : List Char} {bytes : List UInt8}
      (first : lead c high) (second : HexDigit d low) (rest : Spells lead text bytes) :
      Spells lead (c :: d :: text) (UInt8.ofNat (16 * high + low) :: bytes)

/-- The text without the mark of base sixteen, if it begins with it. -/
def withoutMark : List Char → List Char
  | '0' :: 'x' :: digits => digits
  | digits => digits

variable {lead : Char → Nat → Prop} {text digits : List Char} {bytes values : List UInt8}
  {c d : Char} {a b value : UInt8} {n : Nat}

/-! ## Digits -/

theorem forall_hexDigit {p : Char → Prop}
    (each : ∀ n < 16, p (Nat.digitChar n) ∧ p (Nat.digitChar n).toUpper) (digit : HexDigit c n) :
    p c := by
  obtain ⟨small, rfl | rfl⟩ := digit
  · exact (each n small).1
  · exact (each n small).2

theorem hexDigit_ascii (digit : HexDigit c n) : c.toNat < 0x80 :=
  forall_hexDigit (p := (·.toNat < 0x80)) (by decide) digit

theorem hexDigit_ne_mark (digit : HexDigit c n) : c ≠ 'x' ∧ c ≠ '+' :=
  forall_hexDigit (p := fun c => c ≠ 'x' ∧ c ≠ '+') (by decide) digit

theorem code_ascii (ascii : c.toNat < 0x80) : UInt8.ofNat c.toNat < 0x80 := by
  rw [UInt8.lt_iff_toNat_lt, UInt8.toNat_ofNat_of_lt' (Nat.lt_trans ascii (by decide))]
  exact ascii

theorem leading_ascii (lead : Leading c n) : c.toNat < 0x80 := by
  rcases lead with digit | ⟨rfl, -⟩
  · exact hexDigit_ascii digit
  · decide

/-! ## Pairs -/

theorem readDigits_cons {limit value : Nat} :
    Text.readDigits 16 limit value (c :: text) = .ok n ↔ ∃ digit, HexDigit c digit ∧
      value * 16 + digit < limit ∧ Text.readDigits 16 limit (value * 16 + digit) text = .ok n := by
  simp only [← Text.digitValue?_sixteen]
  rw [Text.readDigits]
  cases Text.digitValue? 16 c with
  | none => simp
  | some digit => by_cases small : value * 16 + digit < limit <;> simp [small]

theorem readDigits_nil {limit value : Nat} :
    Text.readDigits 16 limit value [] = .ok n ↔ value = n := by
  rw [Text.readDigits, Except.ok.injEq]

theorem readDigits_ascii {limit value : Nat}
    (read : Text.readDigits 16 limit value text = .ok n) : ∀ c ∈ text, c.toNat < 0x80 := by
  induction text generalizing value with
  | nil => exact List.forall_mem_nil _
  | cons c text ih =>
    obtain ⟨digit, first, -, rest⟩ := readDigits_cons.mp read
    exact List.forall_mem_cons.mpr ⟨hexDigit_ascii first, ih rest⟩

theorem readNumeral_ascii {limit : Nat} (read : Text.readNumeral 16 limit text = .ok n) :
    ∀ c ∈ text, c.toNat < 0x80 := by
  unfold Text.readNumeral at read
  split at read
  · cases read
  · cases read
  · exact List.forall_mem_cons.mpr ⟨by decide, readDigits_ascii read⟩
  · exact readDigits_ascii read

theorem readNumeral_pair : Text.readNumeral 16 256 [c, d] = .ok n ↔
    ∃ high low, Leading c high ∧ HexDigit d low ∧ n = 16 * high + low := by
  by_cases sign : c = '+'
  · subst sign
    have unsigned : Text.readNumeral 16 256 ['+', d] = Text.readDigits 16 256 0 [d] := rfl
    have plus : ∀ high, Leading '+' high ↔ high = 0 := by
      intro high
      refine ⟨fun lead => ?_, fun zero => .inr ⟨rfl, zero⟩⟩
      exact lead.elim (fun digit => absurd rfl (hexDigit_ne_mark digit).2) And.right
    simp only [unsigned, readDigits_cons, readDigits_nil, plus]
    constructor
    · rintro ⟨low, digit, -, rfl⟩
      exact ⟨0, low, rfl, digit, by omega⟩
    · rintro ⟨high, low, rfl, digit, rfl⟩
      have small := digit.1
      exact ⟨low, digit, by omega, by omega⟩
  · have unsigned : Text.readNumeral 16 256 [c, d] = Text.readDigits 16 256 0 [c, d] := by
      unfold Text.readNumeral
      split <;> simp_all
    have plain : ∀ high, Leading c high ↔ HexDigit c high := fun high =>
      or_iff_left fun plus => sign plus.1
    simp only [unsigned, readDigits_cons, readDigits_nil, plain]
    constructor
    · rintro ⟨high, first, -, low, second, -, rfl⟩
      exact ⟨high, low, first, second, by omega⟩
    · rintro ⟨high, low, first, second, rfl⟩
      have small := first.1
      have bound := second.1
      exact ⟨high, first, by omega, low, second, by omega, by omega⟩

theorem readPair_ok : readPair [a, b] = .ok value ↔ ∃ c d high low, Leading c high ∧
    HexDigit d low ∧ a = UInt8.ofNat c.toNat ∧ b = UInt8.ofNat d.toNat ∧
      value = UInt8.ofNat (16 * high + low) := by
  constructor
  · intro read
    unfold readPair at read
    split at read
    · cases read
    · dsimp only at read
      split at read
      · rename_i n numeral
        obtain rfl := Except.ok.inj read
        cases decoded : Text.textOfBytes? [a, b] with
        | none =>
          rw [decoded] at numeral
          cases numeral
        | some text =>
          rw [decoded, Option.getD_some] at numeral
          have codes := Text.bytesOfText_ascii (readNumeral_ascii numeral)
          rw [String.ofList_toList, Text.bytesOfText_of_textOfBytes? decoded] at codes
          match shape : text.toList, congrArg List.length codes with
          | [c, d], _ =>
            rw [shape] at codes numeral
            obtain ⟨rfl, tail⟩ := List.cons.inj codes
            obtain ⟨rfl, -⟩ := List.cons.inj tail
            obtain ⟨high, low, lead, digit, rfl⟩ := readNumeral_pair.mp numeral
            exact ⟨c, d, high, low, lead, digit, rfl, rfl, rfl⟩
      · cases read
  · rintro ⟨c, d, high, low, lead, digit, rfl, rfl, rfl⟩
    have first := leading_ascii lead
    have second := hexDigit_ascii digit
    have clean : Text.utf8Fault? [UInt8.ofNat c.toNat, UInt8.ofNat d.toNat] = none :=
      Text.utf8FaultFrom_ascii (by simp [code_ascii first, code_ascii second]) 0
    have bytes : bytesOfText (String.ofList [c, d]) =
        [UInt8.ofNat c.toNat, UInt8.ofNat d.toNat] := by
      rw [Text.bytesOfText_cons first, Text.bytesOfText_cons second, Text.bytesOfText_nil]
    have decoded := bytes ▸ Text.textOfBytes?_bytesOfText (String.ofList [c, d])
    have numeral := readNumeral_pair.mpr ⟨high, low, lead, digit, rfl⟩
    simp only [readPair, clean, decoded, Option.getD_some, String.toList_ofList, numeral]

/-! ## Texts -/

theorem readPairs_spells (spells : Spells Leading text bytes) :
    readPairs (bytesOfText (String.ofList text)) = .ok bytes := by
  induction spells with
  | nil =>
    rw [Text.bytesOfText_nil]
    rfl
  | @pair c d high low text bytes lead digit rest ih =>
    have read := readPair_ok.mpr ⟨c, d, high, low, lead, digit, rfl, rfl, rfl⟩
    rw [Text.bytesOfText_cons (leading_ascii lead), Text.bytesOfText_cons (hexDigit_ascii digit)]
    simp only [readPairs, read, ih]

theorem exists_spells (even : bytes.length % 2 = 0) (read : readPairs bytes = .ok values) :
    ∃ text, bytesOfText (String.ofList text) = bytes ∧ Spells Leading text values := by
  fun_induction readPairs bytes generalizing values with
  | case1 => cases read
  | case2 => cases read
  | case3 a b rest value pair others deeper ih =>
    obtain rfl := Except.ok.inj read
    obtain ⟨c, d, high, low, lead, digit, rfl, rfl, rfl⟩ := readPair_ok.mp pair
    have shorter : rest.length % 2 = 0 := (Nat.add_mod_right rest.length 2).symm.trans even
    obtain ⟨text, rfl, spells⟩ := ih shorter deeper
    refine ⟨c :: d :: text, ?_, .pair lead digit spells⟩
    rw [Text.bytesOfText_cons (leading_ascii lead), Text.bytesOfText_cons (hexDigit_ascii digit)]
  | case4 bytes short =>
    obtain rfl := Except.ok.inj read
    match bytes with
    | [] => exact ⟨[], Text.bytesOfText_nil, .nil⟩
    | [_] => cases even
    | a :: b :: rest => exact absurd rfl (short a b rest)

/-- Bytes without those of the mark of base sixteen, if they begin with them. -/
def bytesWithoutMark : List UInt8 → List UInt8
  | 0x30 :: 0x78 :: digits => digits
  | digits => digits

theorem readHex_eq (text : String) : readHex text =
    if (bytesWithoutMark (bytesOfText text)).isEmpty ||
        (bytesWithoutMark (bytesOfText text)).length % 2 != 0 then .error (.unevenDigits text)
    else readPairs (bytesWithoutMark (bytesOfText text)) :=
  rfl

theorem bytesOfText_withoutMark (text : List Char) :
    bytesWithoutMark (bytesOfText (String.ofList text)) =
      bytesOfText (String.ofList (withoutMark text)) := by
  unfold bytesWithoutMark
  split
  · rename_i digits marked
    obtain ⟨more, rfl, rest⟩ := Text.cons_of_bytesOfText (by decide) marked
    obtain ⟨more, rfl, rfl⟩ := Text.cons_of_bytesOfText (by decide) rest.symm
    rfl
  · rename_i unmarked
    unfold withoutMark
    split
    · rename_i digits
      refine absurd ?_ (unmarked (bytesOfText (String.ofList digits)))
      rw [Text.bytesOfText_cons (by decide), Text.bytesOfText_cons (by decide)]
      rfl
    · rfl

theorem mem_of_mem_withoutMark (member : c ∈ withoutMark text) : c ∈ text := by
  unfold withoutMark at member
  split at member
  · exact List.mem_cons_of_mem _ (List.mem_cons_of_mem _ member)
  · exact member

theorem Spells.all_digits (spells : Spells HexDigit text bytes) : ∀ c ∈ text, ∃ n, HexDigit c n := by
  induction spells with
  | nil => exact List.forall_mem_nil _
  | pair first second _ ih =>
    exact List.forall_mem_cons.mpr ⟨⟨_, first⟩, List.forall_mem_cons.mpr ⟨⟨_, second⟩, ih⟩⟩

theorem withoutMark_digits (spells : Spells HexDigit digits bytes) :
    withoutMark digits = digits := by
  unfold withoutMark
  split
  · rename_i rest
    obtain ⟨n, digit⟩ := spells.all_digits 'x' (List.mem_cons_of_mem _ List.mem_cons_self)
    exact absurd rfl (hexDigit_ne_mark digit).1
  · rfl

theorem Spells.leading (spells : Spells HexDigit text bytes) : Spells Leading text bytes := by
  induction spells with
  | nil => exact .nil
  | pair first second _ ih => exact .pair (.inl first) second ih

theorem Spells.unsigned (spells : Spells Leading text bytes) (unsigned : '+' ∉ text) :
    Spells HexDigit text bytes := by
  induction spells with
  | nil => exact .nil
  | @pair c d _ _ _ _ first second _ ih =>
    rw [List.mem_cons, List.mem_cons, not_or, not_or] at unsigned
    refine .pair (first.resolve_right fun plus => ?_) second (ih unsigned.2.2)
    exact unsigned.1 plus.1.symm

theorem Spells.length (spells : Spells lead text bytes) : text.length = 2 * bytes.length := by
  induction spells with
  | nil => rfl
  | pair _ _ _ ih => simp [ih, Nat.mul_succ]

theorem bytesOfText_injective {front back : List Char}
    (same : bytesOfText (String.ofList front) = bytesOfText (String.ofList back)) :
    front = back := by
  have texts := congrArg Text.textOfBytes? same
  rw [Text.textOfBytes?_bytesOfText, Text.textOfBytes?_bytesOfText] at texts
  exact String.ofList_injective (Option.some.inj texts)

theorem Spells.ascii (spells : Spells Leading text bytes) : ∀ c ∈ text, c.toNat < 0x80 := by
  induction spells with
  | nil => exact List.forall_mem_nil _
  | pair first second _ ih =>
    exact List.forall_mem_cons.mpr
      ⟨leading_ascii first, List.forall_mem_cons.mpr ⟨hexDigit_ascii second, ih⟩⟩

theorem readHex_ok {text : String} : readHex text = .ok values ↔
    values ≠ [] ∧ Spells Leading (withoutMark text.toList) values := by
  have unmarked := bytesOfText_withoutMark text.toList
  rw [String.ofList_toList] at unmarked
  rw [readHex_eq, unmarked]
  constructor
  · intro read
    split at read
    · cases read
    · rename_i solid
      rw [Bool.or_eq_true, not_or, List.isEmpty_iff, bne_iff_ne, Classical.not_not] at solid
      obtain ⟨spelled, bytes, spells⟩ := exists_spells solid.2 read
      obtain rfl := bytesOfText_injective bytes
      refine ⟨?_, spells⟩
      rintro rfl
      have empty := List.eq_nil_of_length_eq_zero spells.length
      exact solid.1 (empty ▸ Text.bytesOfText_nil)
  · rintro ⟨nonempty, spells⟩
    have length : (bytesOfText (String.ofList (withoutMark text.toList))).length =
        2 * values.length := by
      rw [Text.bytesOfText_ascii spells.ascii, List.length_map, spells.length]
    rw [if_neg, readPairs_spells spells]
    have positive := List.length_pos_iff.mpr nonempty
    rw [Bool.or_eq_true, not_or, List.isEmpty_iff, bne_iff_ne, Classical.not_not,
      ← List.length_eq_zero_iff]
    omega

/-- Bytes are read from a text exactly if, without its mark, the text spells them in pairs and there
is at least one. The first character of a pair is a digit or a plus sign, so a text without plus
signs is read exactly if it consists of pairs of digits, and all such texts are read, in either case
and with or without the mark. -/
theorem readHex_exact (text : String) (bytes : List UInt8) :
    (readHex text = .ok bytes ↔ bytes ≠ [] ∧ Spells Leading (withoutMark text.toList) bytes) ∧
      ('+' ∉ text.toList → (readHex text = .ok bytes ↔
        bytes ≠ [] ∧ Spells HexDigit (withoutMark text.toList) bytes)) ∧
      ∀ digits, bytes ≠ [] → Spells HexDigit digits bytes →
        readHex (String.ofList digits) = .ok bytes ∧
        readHex (String.ofList ('0' :: 'x' :: digits)) = .ok bytes := by
  refine ⟨readHex_ok, fun unsigned => ?_, fun digits nonempty spells => ⟨?_, ?_⟩⟩
  · rw [readHex_ok]
    refine and_congr_right fun _ => ⟨fun spells => ?_, Spells.leading⟩
    exact spells.unsigned fun sign => unsigned (mem_of_mem_withoutMark sign)
  · rw [readHex_ok, String.toList_ofList, withoutMark_digits spells]
    exact ⟨nonempty, spells.leading⟩
  · rw [readHex_ok, String.toList_ofList]
    exact ⟨nonempty, spells.leading⟩

/-- The bytes 10 and 255, in two cases and behind the mark. -/
theorem readHex_exact_two_cases : readHex "0x0aFf" = .ok [0x0a, 0xff] := by
  have zero : HexDigit '0' 0 := by decide
  have ten : HexDigit 'a' 10 := by decide
  have upper : HexDigit 'F' 15 := by decide
  have lower : HexDigit 'f' 15 := by decide
  have spells : Spells HexDigit ['0', 'a', 'F', 'f'] [0x0a, 0xff] :=
    .pair zero ten (.pair upper lower .nil)
  exact ((readHex_exact "0x0aFf" [0x0a, 0xff]).2.2 _ (by decide) spells).2

/-- A plus sign and a digit are read as a byte, though they are no pair of digits. -/
theorem readHex_signed_pair :
    readHex "+f" = .ok [0x0f] ∧ ¬ Spells HexDigit (withoutMark "+f".toList) [0x0f] := by
  have sign : Leading '+' 0 := .inr ⟨rfl, rfl⟩
  have digit : HexDigit 'f' 15 := by decide
  refine ⟨readHex_ok.mpr ⟨by decide, .pair sign digit .nil⟩, fun spells => ?_⟩
  obtain ⟨n, plus⟩ := spells.all_digits '+' List.mem_cons_self
  exact (hexDigit_ne_mark plus).2 rfl

end PolicyVault.CommandLine
