import PolicyVault.Proofs.Text.Bytes
import PolicyVault.Wire.PolicyItem

/-!
# Packed policies

A payload is unpacked into given policies exactly if it is these policies one behind the other, and
it is packed unless it is too large.
-/

namespace PolicyVault.Wire.PolicyItem

variable {p : PolicyItem} {items : List PolicyItem} {rest payload : List UInt8}

/-- The length of the expression is a word. -/
def Fits (p : PolicyItem) : Prop := p.expression.length < Text.wordLimit32

theorem item?_bytes (fits : p.Fits) (rest : List UInt8) :
    item? (p.bytes ++ rest) = some (p, rest) := by
  have length : p.expression.length.toUInt32.toNat = p.expression.length :=
    UInt32.toNat_ofNat_of_lt' fits
  simp only [item?, bytes, List.append_assoc, word?_wordBytes, length, bind, Option.bind_some,
    List.take_left, List.drop_left, if_true]

theorem eq_of_item? {bytes : List UInt8} (read : item? bytes = some (p, rest)) :
    bytes = p.bytes ++ rest ∧ p.Fits := by
  simp only [item?, bind, Option.bind_eq_some_iff, Option.ite_none_right_eq_some,
    Option.some.injEq, Prod.mk.injEq] at read
  obtain ⟨⟨count, a⟩, first, ⟨length, b⟩, second, whole, rfl, rfl⟩ := read
  dsimp only at second whole
  constructor
  · rw [eq_append_of_word? first, eq_append_of_word? second]
    simp [PolicyItem.bytes, whole]
  · have bound := length.toNat_lt
    rw [← whole] at bound
    exact bound

theorem unpackFrom_ok {total declared missing index : Nat} :
    unpackFrom total declared missing index rest = .ok items ↔
      items.length = missing ∧ rest = items.flatMap bytes ∧ ∀ p ∈ items, p.Fits := by
  induction missing generalizing index rest items with
  | zero =>
    cases rest with
    | nil => cases items <;> simp [unpackFrom]
    | cons b rest => cases items <;> simp [unpackFrom]
  | succ missing ih =>
    constructor
    · intro unpacked
      rw [unpackFrom] at unpacked
      split at unpacked
      · cases unpacked
      · split at unpacked
        · cases unpacked
        · rename_i p rest found
          obtain ⟨rfl, fits⟩ := eq_of_item? found
          split at unpacked
          · cases unpacked
          · rename_i others deeper
            obtain rfl := Except.ok.inj unpacked
            obtain ⟨length, rfl, all⟩ := ih.mp deeper
            exact ⟨congrArg (· + 1) length, rfl, List.forall_mem_cons.mpr ⟨fits, all⟩⟩
    · rintro ⟨length, rfl, all⟩
      cases items with
      | nil => cases length
      | cons p items =>
        obtain ⟨fits, others⟩ := List.forall_mem_cons.mp all
        have deeper : unpackFrom total declared missing (index + 1) (items.flatMap bytes) =
            .ok items := ih.mpr ⟨Nat.succ.inj length, rfl, others⟩
        have more : (p.bytes ++ items.flatMap bytes).isEmpty = false := rfl
        rw [List.flatMap_cons, unpackFrom, more, item?_bytes fits]
        simp only [Bool.false_eq_true, if_false, deeper]

theorem unpack_ok {count : Nat} : unpack payload count = .ok items ↔
    items.length = count ∧ payload = items.flatMap bytes ∧ ∀ p ∈ items, p.Fits :=
  unpackFrom_ok

/-! ## Sizes -/

theorem length_bytes (p : PolicyItem) : p.bytes.length = p.encodedSize := by
  simp only [bytes, encodedSize, headSize, List.length_append, length_wordBytes]

theorem length_flatMap_bytes (items : List PolicyItem) :
    (items.flatMap bytes).length = (items.map encodedSize).foldr (· + ·) 0 := by
  induction items with
  | nil => rfl
  | cons p items ih =>
    rw [List.flatMap_cons, List.length_append, length_bytes, ih]
    rfl

theorem length_le_flatMap (items : List PolicyItem) :
    items.length ≤ (items.flatMap bytes).length :=
  Text.length_le_length_flatMap (fun _ => List.cons_ne_nil _ _) items

theorem fits_of_flatMap (small : (items.flatMap bytes).length < Text.wordLimit32) :
    ∀ p ∈ items, p.Fits := by
  intro p member
  have part : p.bytes.length ≤ (items.flatMap bytes).length := by
    obtain ⟨front, back, rfl⟩ := List.append_of_mem member
    simp only [List.flatMap_append, List.flatMap_cons, List.length_append]
    omega
  rw [length_bytes, encodedSize, headSize] at part
  unfold Fits
  omega

theorem pack_ok : pack items = .ok payload ↔
    payload = items.flatMap bytes ∧ payload.length ≤ maxPayload := by
  simp only [pack, ← length_flatMap_bytes]
  split
  · rename_i large
    simp only [reduceCtorEq, false_iff]
    rintro ⟨rfl, small⟩
    omega
  · rename_i small
    rw [Except.ok.injEq]
    constructor
    · rintro rfl
      exact ⟨rfl, Nat.not_lt.mp small⟩
    · rintro ⟨rfl, -⟩
      rfl

end PolicyVault.Wire.PolicyItem
