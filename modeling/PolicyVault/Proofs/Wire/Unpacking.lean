import PolicyVault.Proofs.Wire.Packing

/-!
# Unpacking a payload

A payload and a count determine which items are walked off the front of the payload, one after
another, until there are enough of them or no further item is whole. What unpacking answers depends
on two things only: whether enough items were found, and whether they fill the payload.

Main statement: `PolicyItem.unpack_exact`.
-/

namespace PolicyVault.Wire.PolicyItem

variable {p : PolicyItem} {items others : List PolicyItem} {payload rest left : List UInt8}
  {count missing : Nat}

/-- Items that are walked off the front of a payload, and the rest. They are at most `count`, and if
they are fewer then the rest does not begin with a whole item. -/
structure Walk (payload : List UInt8) (count : Nat) (items : List PolicyItem)
    (rest : List UInt8) : Prop where
  front : payload = items.flatMap bytes ++ rest
  fits : ∀ p ∈ items, p.Fits
  within : items.length ≤ count
  stopped : items.length = count ∨
    ∀ (p : PolicyItem) (tail : List UInt8), p.Fits → rest ≠ p.bytes ++ tail

/-! ## One item -/

theorem item?_eq_none : item? rest = none ↔
    ∀ (p : PolicyItem) (tail : List UInt8), p.Fits → rest ≠ p.bytes ++ tail := by
  constructor
  · rintro none p tail fits rfl
    rw [item?_bytes fits] at none
    cases none
  · intro stuck
    cases read : item? rest with
    | none => rfl
    | some found =>
      obtain ⟨p, tail⟩ := found
      obtain ⟨whole, fits⟩ := eq_of_item? read
      exact absurd whole (stuck _ _ fits)

theorem Walk.nil_iff : Walk payload count [] rest ↔
    payload = rest ∧ (count = 0 ∨ item? payload = none) := by
  rw [item?_eq_none]
  constructor
  · rintro ⟨front, -, -, stopped⟩
    obtain rfl : payload = rest := front
    exact ⟨rfl, stopped.imp_left Eq.symm⟩
  · rintro ⟨rfl, stopped⟩
    exact ⟨rfl, List.forall_mem_nil _, Nat.zero_le _, stopped.imp_left Eq.symm⟩

theorem Walk.cons_iff : Walk payload count (p :: items) rest ↔
    ∃ missing tail, count = missing + 1 ∧ item? payload = some (p, tail) ∧
      Walk tail missing items rest := by
  constructor
  · rintro ⟨rfl, fits, within, stopped⟩
    obtain ⟨first, others⟩ := List.forall_mem_cons.mp fits
    obtain ⟨missing, rfl⟩ := Nat.exists_eq_add_of_le' (Nat.zero_lt_of_lt within)
    refine ⟨missing, items.flatMap bytes ++ rest, rfl, ?_, rfl, others, ?_, ?_⟩
    · rw [List.flatMap_cons, List.append_assoc, item?_bytes first]
    · exact Nat.le_of_succ_le_succ within
    · exact stopped.imp_left Nat.succ.inj
  · rintro ⟨missing, tail, rfl, read, rfl, fits, within, stopped⟩
    obtain ⟨rfl, first⟩ := eq_of_item? read
    refine ⟨?_, List.forall_mem_cons.mpr ⟨first, fits⟩, Nat.succ_le_succ within, ?_⟩
    · rw [List.flatMap_cons, List.append_assoc]
    · exact stopped.imp_left (congrArg (· + 1))

/-! ## The walk -/

theorem exists_walk (payload : List UInt8) (count : Nat) :
    ∃ items rest, Walk payload count items rest := by
  induction count generalizing payload with
  | zero => exact ⟨[], payload, Walk.nil_iff.mpr ⟨rfl, .inl rfl⟩⟩
  | succ missing ih =>
    cases read : item? payload with
    | none => exact ⟨[], payload, Walk.nil_iff.mpr ⟨rfl, .inr read⟩⟩
    | some found =>
      obtain ⟨p, tail⟩ := found
      obtain ⟨items, rest, walk⟩ := ih tail
      exact ⟨p :: items, rest, Walk.cons_iff.mpr ⟨missing, tail, rfl, read, walk⟩⟩

theorem Walk.unique (walk : Walk payload count items rest)
    (other : Walk payload count others left) : others = items ∧ left = rest := by
  induction items generalizing payload count others with
  | nil =>
    obtain ⟨rfl, stopped⟩ := nil_iff.mp walk
    cases others with
    | nil => exact ⟨rfl, (nil_iff.mp other).1.symm⟩
    | cons q others =>
      obtain ⟨missing, tail, rfl, read, -⟩ := cons_iff.mp other
      simp [read] at stopped
  | cons p items ih =>
    obtain ⟨missing, tail, rfl, read, walk⟩ := cons_iff.mp walk
    cases others with
    | nil =>
      obtain ⟨-, stopped⟩ := nil_iff.mp other
      simp [read] at stopped
    | cons q others =>
      obtain ⟨_, _, count, again, other⟩ := cons_iff.mp other
      obtain rfl := Nat.succ.inj count
      obtain ⟨rfl, rfl⟩ := Prod.mk.inj (Option.some.inj (read.symm.trans again))
      obtain ⟨rfl, rfl⟩ := ih walk other
      exact ⟨rfl, rfl⟩

/-- Every item takes its head at least. -/
theorem Walk.length_le (walk : Walk payload count items rest) :
    items.length ≤ payload.length / headSize := by
  have heads : ∀ l : List PolicyItem, l.length * headSize ≤ (l.flatMap bytes).length := by
    intro l
    induction l with
    | nil => exact Nat.zero_le _
    | cons p l ih =>
      rw [List.flatMap_cons, List.length_append, length_bytes, encodedSize, List.length_cons,
        Nat.succ_mul]
      omega
  rw [walk.front, List.length_append, Nat.le_div_iff_mul_le (by decide)]
  exact Nat.le_add_right_of_le (heads items)

/-! ## The loop -/

/-- What a loop answers that has walked these items off its payload, `index` items behind the front
of the whole payload. -/
def outcome (total declared missing index : Nat) (items : List PolicyItem) (rest : List UInt8) :
    Except Error (List PolicyItem) :=
  if items.length = missing then
    if rest = [] then .ok items else .error (.lengthMismatch (total - rest.length) total)
  else if rest = [] then .error (.policyCountMismatch declared (index + items.length))
  else .error (.policyTruncated (index + items.length))

theorem outcome_cons (total declared missing index : Nat) (p : PolicyItem)
    (items : List PolicyItem) (rest : List UInt8) :
    outcome total declared (missing + 1) index (p :: items) rest =
      (outcome total declared missing (index + 1) items rest).map (p :: ·) := by
  have shifted : index + 1 + items.length = index + (items.length + 1) := by omega
  simp only [outcome, List.length_cons, Nat.add_right_cancel_iff, shifted]
  split <;> split <;> rfl

/-- Unpacking, together with the number of turns of its loop. -/
def unpackCounting (total declared : Nat) : (missing index : Nat) → (rest : List UInt8) →
    Except Error (List PolicyItem) × Nat
  | 0, _, rest =>
    (if rest.isEmpty then .ok [] else .error (.lengthMismatch (total - rest.length) total), 0)
  | missing + 1, index, rest =>
    if rest.isEmpty then (.error (.policyCountMismatch declared index), 1)
    else
      match item? rest with
      | none => (.error (.policyTruncated index), 1)
      | some (item, rest) =>
        let (answer, turns) := unpackCounting total declared missing (index + 1) rest
        (answer.map (item :: ·), turns + 1)

theorem unpackCounting_fst (total declared missing index : Nat) (rest : List UInt8) :
    (unpackCounting total declared missing index rest).1 =
      unpackFrom total declared missing index rest := by
  induction missing generalizing index rest with
  | zero => rfl
  | succ missing ih =>
    rw [unpackCounting, unpackFrom]
    split
    · rfl
    · cases read : item? rest with
      | none => rfl
      | some found =>
        obtain ⟨item, tail⟩ := found
        simp only [← ih]
        rcases unpackCounting total declared missing (index + 1) tail with ⟨e | items, turns⟩ <;> rfl

theorem unpackCounting_walk (walk : Walk payload missing items rest) (total declared index : Nat) :
    unpackCounting total declared missing index payload =
      (outcome total declared missing index items rest, min missing (items.length + 1)) := by
  induction items generalizing payload missing index with
  | nil =>
    obtain ⟨rfl, stopped⟩ := Walk.nil_iff.mp walk
    cases missing with
    | zero => cases payload <;> simp [unpackCounting, outcome]
    | succ missing =>
      have none : item? payload = none := stopped.resolve_left (Nat.succ_ne_zero missing)
      cases payload <;> simp [unpackCounting, outcome, none]
  | cons p items ih =>
    obtain ⟨missing, tail, rfl, read, walk⟩ := Walk.cons_iff.mp walk
    have some : payload.isEmpty = false := by
      obtain ⟨rfl, -⟩ := eq_of_item? read
      rfl
    rw [unpackCounting, some, outcome_cons, List.length_cons, Nat.succ_min_succ]
    simp only [Bool.false_eq_true, if_false, read, ih walk]

theorem unpack_walk (walk : Walk payload count items rest) : unpack payload count =
    if items.length = count then
      if rest = [] then .ok items
      else .error (.lengthMismatch (items.flatMap bytes).length payload.length)
    else if rest = [] then .error (.policyCountMismatch count items.length)
    else .error (.policyTruncated items.length) := by
  have consumed : payload.length - rest.length = (items.flatMap bytes).length := by
    rw [walk.front, List.length_append, Nat.add_sub_cancel]
  rw [unpack, ← unpackCounting_fst, unpackCounting_walk walk, outcome, consumed, Nat.zero_add]

theorem unpack_pack (small : (items.map encodedSize).foldr (· + ·) 0 ≤ maxPayload) :
    unpack payload items.length = .ok items ↔ pack items = .ok payload := by
  rw [unpack_ok, pack_ok]
  constructor
  · rintro ⟨-, rfl, -⟩
    exact ⟨rfl, by rwa [length_flatMap_bytes]⟩
  · rintro ⟨rfl, limit⟩
    exact ⟨rfl, rfl, fits_of_flatMap (Nat.lt_of_le_of_lt limit (by decide))⟩

/-- A payload and a count determine the items that are walked off the payload. Unpacking gives these
items if they are as many as they should be and fill the payload. Else it tells how long they are if
they are enough, how many they are if they fill the payload, and which one is cut if neither holds.
The loop turns at most once more than the payload has room for heads. So a payload is unpacked into
items exactly if it is these items one behind the other. -/
theorem unpack_exact (payload : List UInt8) (count : Nat) :
    (∃ items rest, (∀ others left, Walk payload count others left ↔ others = items ∧ left = rest) ∧
      (unpack payload count =
        if items.length = count then
          if rest = [] then .ok items
          else .error (.lengthMismatch (items.flatMap bytes).length payload.length)
        else if rest = [] then .error (.policyCountMismatch count items.length)
        else .error (.policyTruncated items.length)) ∧
      let counted := unpackCounting payload.length count count 0 payload
      counted.1 = unpack payload count ∧ counted.2 = min count (items.length + 1) ∧
        counted.2 ≤ payload.length / headSize + 1) ∧
    ∀ items, (unpack payload items.length = .ok items ↔
        payload = items.flatMap bytes ∧ ∀ p ∈ items, p.Fits) ∧
      ((items.map encodedSize).foldr (· + ·) 0 ≤ maxPayload →
        (unpack payload items.length = .ok items ↔ pack items = .ok payload)) := by
  constructor
  · obtain ⟨items, rest, walk⟩ := exists_walk payload count
    refine ⟨items, rest, fun others left => ⟨walk.unique, ?_⟩, unpack_walk walk, ?_⟩
    · rintro ⟨rfl, rfl⟩
      exact walk
    · have turns := congrArg Prod.snd (unpackCounting_walk walk payload.length count 0)
      have room := Nat.succ_le_succ walk.length_le
      refine ⟨unpackCounting_fst .., turns, ?_⟩
      rw [turns]
      exact Nat.le_trans (Nat.min_le_right ..) room
  · intro items
    refine ⟨?_, unpack_pack⟩
    rw [unpack_ok]
    exact and_iff_right rfl

/-- The item `RW` and an item without expression, and three bytes of a third head. -/
theorem unpack_exact_cut_head :
    let items : List PolicyItem := [⟨2, [0x52, 0x57]⟩, ⟨0, []⟩]
    let payload := items.flatMap bytes ++ [1, 0, 0]
    unpack payload 3 = .error (.policyTruncated 2) ∧
      unpack payload 2 = .error (.lengthMismatch 18 21) ∧
      unpack (items.flatMap bytes) 3 = .error (.policyCountMismatch 3 2) ∧
      unpack (items.flatMap bytes) 2 = .ok items := by
  intro items payload
  have fits : ∀ p ∈ items, p.Fits := by simp [items, Fits, Text.wordLimit32]
  have answer : ∀ count rest, 2 ≤ count → (2 = count ∨ item? rest = none) →
      unpack (items.flatMap bytes ++ rest) count =
        if 2 = count then
          if rest = [] then .ok items
          else .error (.lengthMismatch 18 (18 + rest.length))
        else if rest = [] then .error (.policyCountMismatch count 2)
        else .error (.policyTruncated 2) := by
    intro count rest enough stopped
    obtain ⟨found, left, walks, equal, -⟩ := (unpack_exact (items.flatMap bytes ++ rest) count).1
    obtain ⟨rfl, rfl⟩ := (walks items rest).mp
      ⟨rfl, fits, enough, stopped.imp_right item?_eq_none.mp⟩
    rw [equal, List.length_append]
    rfl
  refine ⟨?_, ?_, ?_, ?_⟩
  · exact answer 3 [1, 0, 0] (by decide) (.inr rfl)
  · exact answer 2 [1, 0, 0] (by decide) (.inl rfl)
  · exact answer 3 [] (by decide) (.inr rfl)
  · exact answer 2 [] (by decide) (.inl rfl)

end PolicyVault.Wire.PolicyItem
