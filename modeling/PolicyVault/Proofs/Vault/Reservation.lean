import Mathlib.Data.Nat.Digits.Defs
import PolicyVault.Proofs.Vault.Snapshots

/-!
# Memory reserved for announced policies

Memory is reserved for as many policies as the text announces, before any of them is read. The
number is bounded by the largest word only, so a few bytes announce policies that no memory can
hold. A snapshot that is read holds all the policies that its text announces.

Main statement: `reservation_exact`.
-/

namespace PolicyVault.Snapshot

variable {v : Snapshot} {bytes : List UInt8} {header : Header} {fields : List (List Char)}
  {records : List (List (List Char))} {count : Nat}

/-- What is known of a text when memory is reserved: its header, the fields behind it in the same
record, and the records that follow. -/
def announced? (bytes : List UInt8) :
    Option (Header × List (List Char) × List (List (List Char))) := do
  let (head, records) ← records? bytes
  let (header, fields) ← header? head
  return (header, fields, records)

/-- As many fields as the policies and the first segment take. -/
def Header.fieldsNeeded (header : Header) : Nat := 2 * header.policyCount + 6

theorem decode_eq (bytes : List UInt8) : decode bytes =
    match announced? bytes with
    | none => .error .malformed
    | some (header, fields, records) =>
      if maxReservation < header.policyCount * entrySize then .error .capacityOverflow
      else (body? header fields records).elim (.error .malformed) .ok := by
  unfold decode announced?
  cases records? bytes with
  | none => rfl
  | some framed =>
    obtain ⟨head, records⟩ := framed
    cases headed : header? head with
    | none => simp [headed]
    | some parts =>
      obtain ⟨header, fields⟩ := parts
      simp only [headed, Option.bind_eq_bind, Option.bind_some, Option.pure_def]
      split
      · rfl
      · cases body? header fields records <;> rfl

theorem length_of_policies? {rest : List (List Char)} {policies : List PolicyEntry}
    (read : policies? count fields = some (policies, rest)) :
    fields.length = 2 * count + rest.length := by
  fun_induction policies? count fields generalizing policies with
  | case1 fields =>
    obtain ⟨-, rfl⟩ := Prod.mk.inj (Option.some.inj read)
    omega
  | case2 count text bindings fields ih =>
    obtain ⟨_, -, read⟩ := Option.bind_eq_some_iff.mp read
    obtain ⟨⟨others, left⟩, tail, read⟩ := Option.bind_eq_some_iff.mp read
    obtain ⟨-, rfl⟩ := Prod.mk.inj (Option.some.inj read)
    have shorter := ih tail
    simp only [List.length_cons]
    omega
  | case3 => cases read

theorem length_of_segment? {s : SegmentEntry} (read : segment? fields = some s) :
    fields.length = 6 := by
  unfold segment? at read
  split at read
  · rfl
  · cases read

theorem length_of_body? (read : body? header fields records = some v) :
    v.policies.length = header.policyCount ∧ fields.length = header.fieldsNeeded := by
  obtain ⟨⟨policies, rest⟩, inFields, read⟩ := Option.bind_eq_some_iff.mp read
  obtain ⟨first, here, read⟩ := Option.bind_eq_some_iff.mp read
  obtain ⟨segments, later, read⟩ := Option.bind_eq_some_iff.mp read
  obtain rfl := Option.some.inj read
  refine ⟨(mem_of_policies? inFields).1, ?_⟩
  rw [length_of_policies? inFields, length_of_segment? here, Header.fieldsNeeded]

/-! ## Policies that are announced only -/

/-- The shortest form that announces this many policies, and holds none. -/
def bare (count : Nat) : List UInt8 :=
  Text.bytesOfText (String.ofList
    (terminated (List.replicate 4 (digits 0)) ++ digits count)) ++ [0x1e, 0x1e]

theorem unmarked_zeros (count : Nat) : ∀ part ∈ List.replicate count (digits 0), Unmarked part := by
  intro part member
  rw [List.eq_of_mem_replicate member]
  exact unmarked_digits 0

theorem announced?_bare (small : count < Text.wordLimit64) :
    announced? (bare count) = some (⟨0, 0, 0, false, count⟩, [], []) := by
  have row := Text.cutAt_unmarked (recordMark_not_mem (unmarked_zeros 4) (unmarked_digits count))
  have fields := cutAt_fields (unmarked_zeros 4) (unmarked_digits count)
  have number : Text.decimal? Text.wordLimit64 (digits count) = some count :=
    Text.decimal?_toString small
  have header : header? (List.replicate 4 (digits 0) ++ [digits count]) =
      some (⟨0, 0, 0, false, count⟩, []) := by
    have word32 : word32? (digits 0) = some 0 := word32?_digits 0
    have word64 : word64? (digits 0) = some 0 := word64?_digits 0
    simp only [List.replicate, List.cons_append, List.nil_append, header?, word32, word64, number,
      Option.bind_eq_bind, Option.bind_some]
    rfl
  rw [announced?, bare, records?_marked row, fields]
  simp only [Option.bind_eq_bind, Option.bind_some, header, List.map_nil, Option.pure_def]

theorem ascii_of_isDigit {c : Char} (digit : c.isDigit = true) : c.toNat < 0x80 := by
  simp only [Char.isDigit, ge_iff_le, Bool.and_eq_true, decide_eq_true_eq] at digit
  exact Nat.lt_of_le_of_lt digit.2 (by decide)

theorem length_bare_le (small : count < Text.wordLimit64) : (bare count).length ≤ 30 := by
  have zeros : terminated (List.replicate 4 (digits 0)) =
      ['0', fieldMark, '0', fieldMark, '0', fieldMark, '0', fieldMark] := rfl
  have ascii : ∀ c ∈ terminated (List.replicate 4 (digits 0)) ++ digits count,
      c.toNat < 0x80 := by
    rw [zeros]
    refine List.forall_mem_append.mpr ⟨by simp [fieldMark], fun c member => ?_⟩
    exact ascii_of_isDigit (Text.isDigit_toString count c member)
  have number : (digits count).length ≤ 20 :=
    Nat.repr_length count 20 (by decide) (Nat.lt_trans small (by decide))
  rw [bare, Text.bytesOfText_ascii ascii, zeros]
  simp only [List.length_append, List.length_map, List.length_cons, List.length_nil]
  omega

/-- Memory for the announced policies cannot be reserved exactly if there are too many of them. If
it can, nothing is read unless all of them are there. But no announced number is too large for the
text: every word can be announced by thirty bytes that hold no policy at all. -/
theorem reservation_exact (bytes : List UInt8) :
    (announced? bytes = none → decode bytes = .error .malformed) ∧
      (∀ header fields records, announced? bytes = some (header, fields, records) →
        (decode bytes = .error .capacityOverflow ↔
          maxReservation < header.policyCount * entrySize) ∧
        (header.policyCount * entrySize ≤ maxReservation → fields.length ≠ header.fieldsNeeded →
          decode bytes = .error .malformed) ∧
        ∀ v, decode bytes = .ok v →
          v.policies.length = header.policyCount ∧ fields.length = header.fieldsNeeded) ∧
      ∀ count < Text.wordLimit64, (bare count).length ≤ 30 ∧
        announced? (bare count) = some (⟨0, 0, 0, false, count⟩, [], []) := by
  have decoded := decode_eq bytes
  refine ⟨fun silent => ?_, fun header fields records told => ?_,
    fun count small => ⟨length_bare_le small, announced?_bare small⟩⟩
  · rw [decoded, silent]
  · simp only [told] at decoded
    by_cases large : maxReservation < header.policyCount * entrySize
    · rw [if_pos large] at decoded
      refine ⟨iff_of_true decoded large, fun small => absurd large (Nat.not_lt.mpr small), ?_⟩
      intro v read
      exact absurd (decoded.symm.trans read) (by simp)
    · rw [if_neg large] at decoded
      cases body : body? header fields records with
      | none =>
        rw [body, Option.elim_none] at decoded
        simp [decoded, large]
      | some v =>
        rw [body, Option.elim_some] at decoded
        obtain ⟨policies, needed⟩ := length_of_body? body
        simp [decoded, large, policies, needed]

/-- Memory is reserved for one policy, which is not there. -/
theorem reservation_exact_missing : announced? (bare 1) = some (⟨0, 0, 0, false, 1⟩, [], []) ∧
    decode (bare 1) = .error .malformed := by
  obtain ⟨-, told, announced⟩ := reservation_exact (bare 1)
  have single := (announced 1 (by decide)).2
  exact ⟨single, (told _ _ _ single).2.1 (by decide) (by decide)⟩

/-- Thirty bytes announce more policies than memory can be reserved for. -/
theorem capacityOverflow_bare : (bare 18446744073709551615).length ≤ 30 ∧
    decode (bare 18446744073709551615) = .error .capacityOverflow := by
  have small : 18446744073709551615 < Text.wordLimit64 := by decide
  refine ⟨length_bare_le small, ?_⟩
  rw [decode_eq, announced?_bare small]
  exact if_pos (by decide)

end PolicyVault.Snapshot
