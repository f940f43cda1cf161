import PolicyVault.Proofs.Policy.Parsing

/-!
# Offending bytes

A reader that has not stopped can still be brought to an end: an operand where one is due, and
then a closing bracket for each open group. Where it stops, no byte behind can help. So a refused
source is blamed on its first byte that no accepted expression has there, and on its end if there
is no such byte.

Main statement: `parse_error_exact`.
-/

namespace PolicyVault.Policy

/-- Some accepted expression begins so. -/
def Extensible (s : List UInt8) : Prop :=
  ∃ t e, Expr.parse (s ++ t) = .ok e

/-- The byte at the position is the first one that no accepted expression has there. -/
structure Offends (s : List UInt8) (position : Nat) : Prop where
  inside : position < s.length
  before : Extensible (s.take position)
  behind : ¬ Extensible (s.take (position + 1))

namespace Reader

variable {r after : Reader} {s u : List UInt8} {b : UInt8} {position : Nat} {e : Error}

/-! ## Where a reader stops -/

/-- The causes for which a byte is refused. -/
inductive Blames (b : UInt8) (position : Nat) : Error → Prop
  | unexpected (expected : Expectation) :
      Blames b position (.unexpectedByte (Text.latin1 b) position expected)
  | trailing : Blames b position (.trailingInput position)

theorem operand_error (refused : r.operand b position = .error e) : Blames b position e := by
  unfold operand at refused
  split at refused
  · cases refused
  · split at refused
    · cases refused
    · obtain rfl := Except.error.inj refused
      exact .unexpected .operand

theorem stuck_blames (r : Reader) (b : UInt8) (position : Nat) :
    Blames b position (r.stuck b position) := by
  unfold stuck
  cases r.outer with
  | nil => exact .trailing
  | cons => exact .unexpected .closing

theorem step_error (refused : r.step b position = .error e) : Blames b position e := by
  obtain ⟨g, outer, place⟩ := r
  cases place with
  | due => exact operand_error refused
  | read last bare =>
    simp only [step] at refused
    split at refused
    · cases bare with
      | true => cases refused
      | false =>
        obtain rfl := Except.error.inj refused
        exact stuck_blames ..
    · split at refused
      · cases bare with
        | true => cases refused
        | false =>
          obtain rfl := Except.error.inj refused
          exact stuck_blames ..
      · split at refused
        · cases refused
        · split at refused
          · cases outer with
            | cons => cases refused
            | nil =>
              obtain rfl := Except.error.inj refused
              exact stuck_blames ..
          · exact operand_error refused

theorem finish_error (refused : r.finish = .error e) : ∃ expected, e = .unexpectedEnd expected := by
  unfold finish at refused
  split at refused
  · exact ⟨_, (Except.error.inj refused).symm⟩
  · exact ⟨_, (Except.error.inj refused).symm⟩
  · cases refused

/-- A run that fails stops at some byte, after all bytes in front of it were taken. -/
theorem run_error (failed : r.run position s = .error e) :
    ∃ u b v after, s = u ++ b :: v ∧ r.run position u = .ok after ∧
      after.step b (position + u.length) = .error e := by
  induction s generalizing r position with
  | nil => cases failed
  | cons c s ih =>
    unfold run at failed
    split at failed
    · rename_i refused
      obtain rfl := Except.error.inj failed
      exact ⟨[], c, s, r, rfl, rfl, refused⟩
    · rename_i next taken
      obtain ⟨u, b, v, after, rfl, first, refused⟩ := ih failed
      refine ⟨c :: u, b, v, after, rfl, ?_, ?_⟩
      · rw [run, taken]
        exact first
      · rw [List.length_cons, Nat.add_comm u.length, ← Nat.add_assoc]
        exact refused

theorem run_refused (first : r.run position u = .ok after)
    (refused : after.step b (position + u.length) = .error e) (t : List UInt8) :
    r.run position (u ++ b :: t) = .error e := by
  rw [run_append first, run, refused]

/-! ## Bringing a reader to an end -/

/-- Behind an operand, one closing bracket for each open group is enough. -/
theorem exists_closing (g : Group) (outer : List Group) (last : Expr) (bare : Bool)
    (position : Nat) : ∃ t after whole,
      Reader.run ⟨g, outer, .read last bare⟩ position t = .ok after ∧ after.finish = .ok whole := by
  induction outer generalizing g last bare position with
  | nil => exact ⟨[], _, _, rfl, rfl⟩
  | cons around outer ih =>
    obtain ⟨t, after, whole, taken, finished⟩ := ih around (g.close last) true (position + 1)
    have closing : Reader.step ⟨g, around :: outer, .read last bare⟩ 0x29 position =
        .ok ⟨around, outer, .read (g.close last) true⟩ := rfl
    refine ⟨0x29 :: t, after, whole, ?_, finished⟩
    rw [run, closing]
    exact taken

theorem exists_ending (r : Reader) (position : Nat) :
    ∃ t after whole, r.run position t = .ok after ∧ after.finish = .ok whole := by
  obtain ⟨g, outer, place⟩ := r
  cases place with
  | read last bare => exact exists_closing g outer last bare position
  | due =>
    obtain ⟨t, after, whole, taken, finished⟩ :=
      exists_closing g outer (.symbol 0x52) true (position + 1)
    have operand : Reader.step ⟨g, outer, .due⟩ 0x52 position =
        .ok ⟨g, outer, .read (.symbol 0x52) true⟩ := rfl
    refine ⟨0x52 :: t, after, whole, ?_, finished⟩
    rw [run, operand]
    exact taken

end Reader

/-! ## Sources that can be extended -/

variable {s u : List UInt8} {b : UInt8}

theorem extensible_of_run {r : Reader} (taken : Reader.start.run 0 s = .ok r) : Extensible s := by
  obtain ⟨t, after, whole, rest, finished⟩ := r.exists_ending (0 + s.length)
  refine ⟨t, whole, parse_iff_run.mpr ⟨after, ?_, finished⟩⟩
  rw [Reader.run_append taken]
  exact rest

theorem not_extensible_of_refused {r : Reader} {e : Error} (first : Reader.start.run 0 u = .ok r)
    (refused : r.step b u.length = .error e) : ¬ Extensible (u ++ [b]) := by
  rintro ⟨t, whole, parsed⟩
  obtain ⟨after, taken, -⟩ := parse_iff_run.mp parsed
  rw [← Nat.zero_add u.length] at refused
  rw [List.append_assoc, List.singleton_append, Reader.run_refused first refused] at taken
  cases taken

/-- A refused source is empty, or the reader stops at one of its bytes, or it ends too early. -/
theorem parse_error_cases {e : Error} (refused : Expr.parse s = .error e) :
    (s = [] ∧ e = .empty) ∨
      (∃ u b v r, s = u ++ b :: v ∧ Reader.start.run 0 u = .ok r ∧
        r.step b u.length = .error e) ∨
      ∃ r expected, Reader.start.run 0 s = .ok r ∧ e = .unexpectedEnd expected := by
  unfold Expr.parse at refused
  split at refused
  · rename_i empty
    exact .inl ⟨by simpa using empty, (Except.error.inj refused).symm⟩
  · split at refused
    · rename_i cause failed
      obtain rfl := Except.error.inj refused
      obtain ⟨u, b, v, r, whole, first, stopped⟩ := Reader.run_error failed
      rw [Nat.zero_add] at stopped
      exact .inr (.inl ⟨u, b, v, r, whole, first, stopped⟩)
    · rename_i r taken
      obtain ⟨expected, same⟩ := Reader.finish_error refused
      exact .inr (.inr ⟨r, expected, taken, same⟩)

/-- A source that is not empty is refused at its first byte that no accepted expression has there,
which is the byte that is shown, or at its end if it can be extended. A full stop is shown only if
it stands in the source. -/
theorem parse_error_exact {s : List UInt8} {cause : Error} (nonempty : s ≠ [])
    (refused : Expr.parse s = .error cause) :
    match cause with
    | .unexpectedByte found position _ =>
      Offends s position ∧ s[position]?.map Text.latin1 = some found
    | .trailingInput position => Offends s position
    | .unexpectedEnd _ => Extensible s
    | _ => False := by
  rcases parse_error_cases refused with
    ⟨empty, -⟩ | ⟨u, b, v, r, rfl, first, stopped⟩ | ⟨r, expected, taken, rfl⟩
  · exact absurd empty nonempty
  · have offends : Offends (u ++ b :: v) u.length := by
      refine ⟨by simp, ?_, ?_⟩
      · rw [List.take_left]
        exact extensible_of_run first
      · rw [List.take_length_add_append]
        exact not_extensible_of_refused first stopped
    cases Reader.step_error stopped with
    | unexpected expected => exact ⟨offends, by simp⟩
    | trailing => exact offends
  · exact extensible_of_run taken

/-- The source is `R(W*.)`. What stands in front of the full stop can be extended. -/
theorem parse_error_exact_full_stop :
    let source : List UInt8 := [0x52, 0x28, 0x57, 0x2a, 0x2e, 0x29]
    source ≠ [] ∧ Expr.parse source = .error (.unexpectedByte (Text.latin1 0x2e) 4 .operand) ∧
      Extensible [0x52, 0x28, 0x57, 0x2a] ∧ ¬ Extensible [0x52, 0x28, 0x57, 0x2a, 0x2e] := by
  intro source
  have nonempty : source ≠ [] := by decide
  have refused : Expr.parse source =
      .error (.unexpectedByte (Text.latin1 0x2e) 4 .operand) := rfl
  obtain ⟨offends, -⟩ := parse_error_exact nonempty refused
  exact ⟨nonempty, refused, offends.before, offends.behind⟩

end PolicyVault.Policy
