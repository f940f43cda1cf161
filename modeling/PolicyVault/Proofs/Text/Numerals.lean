import PolicyVault.Text.Numeral

/-!
# Numerals that are read back

A number that is written in base ten or in base sixteen is read back if it is below the limit.

Main statements: `decimal?_toString`, `readNumeral_paddedHex`.
-/

namespace PolicyVault.Text

theorem digitValue?_digitChar : ∀ base ≤ 16, ∀ d < base,
    digitValue? base (Nat.digitChar d) = some d := by
  decide

theorem readDigits_append (base limit value : Nat) (front back : List Char) :
    readDigits base limit value (front ++ back) =
      (readDigits base limit value front).bind (readDigits base limit · back) := by
  induction front generalizing value with
  | nil => rfl
  | cons c front ih =>
    simp only [List.cons_append, readDigits]
    cases digitValue? base c with
    | none => rfl
    | some digit =>
      simp only
      split
      · exact ih _
      · rfl

theorem readDigits_digit {base limit d : Nat} (written : base ≤ 16) (value : Nat) (digit : d < base)
    (small : value * base + d < limit) :
    readDigits base limit value [Nat.digitChar d] = .ok (value * base + d) := by
  simp [readDigits, digitValue?_digitChar base written d digit, small]

theorem readDigits_toDigits {base limit : Nat} (several : 2 ≤ base) (written : base ≤ 16) (n : Nat)
    (small : n < limit) : readDigits base limit 0 (Nat.toDigits base n) = .ok n := by
  induction n using Nat.strongRecOn with
  | ind n ih =>
    by_cases single : n < base
    · rw [Nat.toDigits_of_lt_base single, readDigits_digit written 0 single (by omega)]
      simp
    · have below : n / base < n := Nat.div_lt_self (by omega) several
      have front := ih (n / base) below (by omega)
      have whole : n / base * base + n % base = n := Nat.div_add_mod' n base
      have last := readDigits_digit written (n / base) (Nat.mod_lt n (by omega)) (whole ▸ small)
      rw [Nat.toDigits_of_base_le several (by omega), readDigits_append, front]
      exact last.trans (congrArg Except.ok whole)

theorem mem_toDigits {base n : Nat} (several : 2 ≤ base) {c : Char}
    (member : c ∈ Nat.toDigits base n) : ∃ d < base, c = Nat.digitChar d := by
  induction n using Nat.strongRecOn with
  | ind n ih =>
    by_cases single : n < base
    · rw [Nat.toDigits_of_lt_base single] at member
      exact ⟨n, single, List.mem_singleton.mp member⟩
    · rw [Nat.toDigits_of_base_le several (by omega)] at member
      rcases List.mem_append.mp member with front | last
      · exact ih (n / base) (Nat.div_lt_self (by omega) several) front
      · exact ⟨n % base, Nat.mod_lt n (by omega), List.mem_singleton.mp last⟩

theorem isDigit_toString (n : Nat) : ∀ c ∈ (toString n).toList, c.isDigit = true := by
  intro c member
  exact Nat.isDigit_of_mem_toDigits (by decide) (by decide) (Nat.toList_repr ▸ member)

theorem toString_ne_nil (n : Nat) : (toString n).toList ≠ [] :=
  Nat.toList_repr ▸ Nat.toDigits_ne_nil

theorem readNumeral_digits {base limit : Nat} {digits : List Char} (nonempty : digits ≠ [])
    (unsigned : '+' ∉ digits) :
    readNumeral base limit digits = readDigits base limit 0 digits := by
  unfold readNumeral
  split
  · exact absurd rfl nonempty
  · exact absurd List.mem_cons_self unsigned
  · exact absurd List.mem_cons_self unsigned
  · rfl

theorem decimal?_toString {limit n : Nat} (small : n < limit) :
    decimal? limit (toString n).toList = some n := by
  have read : readDigits 10 limit 0 (toString n).toList = .ok n :=
    Nat.toList_repr ▸ readDigits_toDigits (by decide) (by decide) n small
  have unsigned : '+' ∉ (toString n).toList :=
    fun sign => absurd (isDigit_toString n '+' sign) (by decide)
  rw [decimal?, readNumeral_digits (toString_ne_nil n) unsigned, read]
  rfl

/-! ## Base sixteen -/

/-- The digits of base sixteen, as they are written. -/
def hexAlphabet : List Char := (List.range 16).map Nat.digitChar

/-- The character is a digit of base sixteen, in either case, and has this value. -/
def HexDigit (c : Char) (value : Nat) : Prop :=
  value < 16 ∧ (c = Nat.digitChar value ∨ c = (Nat.digitChar value).toUpper)

instance (c : Char) (value : Nat) : Decidable (HexDigit c value) :=
  inferInstanceAs (Decidable (_ ∧ _))

theorem digitValue?_sixteen {c : Char} {value : Nat} :
    digitValue? 16 c = some value ↔ HexDigit c value := by
  have read : ∀ code < 128, ∀ value ∈ digitValue? 16 (Char.ofNat code),
      HexDigit (Char.ofNat code) value := by decide
  have written : ∀ value < 16, digitValue? 16 (Nat.digitChar value) = some value ∧
      digitValue? 16 (Nat.digitChar value).toUpper = some value := by decide
  constructor
  · intro digit
    have small : c.toNat < 128 := by
      refine Nat.lt_of_not_le fun large => ?_
      have above : ∀ d : Char, d.toNat < 128 → ¬ c ≤ d := fun d bound below =>
        Nat.not_le.mpr bound (Nat.le_trans large below)
      simp [digitValue?, above '9' (by decide), above 'z' (by decide), above 'Z' (by decide)]
        at digit
    have here := read c.toNat small value
    rw [Char.ofNat_toNat] at here
    exact here digit
  · rintro ⟨small, rfl | rfl⟩
    · exact (written value small).1
    · exact (written value small).2

theorem forall_hexAlphabet {p : Char → Prop} (each : ∀ d < 16, p (Nat.digitChar d)) :
    ∀ c ∈ hexAlphabet, p c := by
  intro c member
  obtain ⟨d, small, rfl⟩ := List.mem_map.mp member
  exact each d (List.mem_range.mp small)

theorem mem_paddedHex {width n : Nat} : ∀ c ∈ paddedHex width n, c ∈ hexAlphabet := by
  intro c member
  rcases List.mem_append.mp member with padding | digit
  · obtain ⟨-, rfl⟩ := List.mem_replicate.mp padding
    exact List.mem_cons_self
  · obtain ⟨d, small, rfl⟩ := mem_toDigits (by decide) digit
    exact List.mem_map_of_mem (List.mem_range.mpr small)

theorem readDigits_zeros {limit : Nat} (positive : 0 < limit) (count : Nat) :
    readDigits 16 limit 0 (List.replicate count '0') = .ok 0 := by
  induction count with
  | zero => rfl
  | succ count ih =>
    have zero : 0 < 16 := by decide
    have first := readDigits_digit (by decide) 0 zero positive
    have shape : List.replicate (count + 1) '0' = [Nat.digitChar 0] ++ List.replicate count '0' :=
      rfl
    rw [shape, readDigits_append, first]
    exact ih

theorem readNumeral_paddedHex {limit n : Nat} (width : Nat) (small : n < limit) :
    readNumeral 16 limit (paddedHex width n) = .ok n := by
  have nonempty : paddedHex width n ≠ [] :=
    List.append_ne_nil_of_right_ne_nil _ Nat.toDigits_ne_nil
  have unsigned : '+' ∉ paddedHex width n :=
    fun sign => absurd (mem_paddedHex '+' sign) (by decide)
  rw [readNumeral_digits nonempty unsigned, paddedHex, readDigits_append,
    readDigits_zeros (Nat.zero_lt_of_lt small)]
  exact readDigits_toDigits (by decide) (by decide) n small

theorem le_length_paddedHex (width n : Nat) : width ≤ (paddedHex width n).length := by
  rw [paddedHex, List.length_append, List.length_replicate]
  omega

theorem paddedHex_byte {n : Nat} (small : n < 256) :
    paddedHex 2 n = [Nat.digitChar (n / 16), Nat.digitChar (n % 16)] := by
  by_cases single : n < 16
  · rw [paddedHex, hexDigits, Nat.toDigits_of_lt_base single, Nat.div_eq_of_lt single,
      Nat.mod_eq_of_lt single]
    rfl
  · have high : n / 16 < 16 := by omega
    rw [paddedHex, hexDigits, Nat.toDigits_of_base_le (by decide) (by omega),
      Nat.toDigits_of_lt_base high]
    rfl

end PolicyVault.Text
