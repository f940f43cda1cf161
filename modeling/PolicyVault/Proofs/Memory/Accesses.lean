import PolicyVault.Proofs.Memory.Arena

/-!
# The last writer

An arena is a row of bytes that keeps what was stored last. A call that names a range is carried
out exactly if the range ends within the arena, where the end is the sum itself and not its
remainder modulo the address space. A call that is refused changes nothing.

Main statement: `Arena.accesses_exact`.
-/

namespace PolicyVault.Memory.Arena

variable {a : Arena} {offset length i : Nat}

/-! ## Calls and their history -/

inductive Call
  | write (offset : Nat) (data : List UInt8)
  | zeroRange (offset length : Nat)
  | zeroize
  | read (offset length : Nat)
  deriving DecidableEq, Repr

/-- The offset and length of the range that a call names. -/
def Call.range? : Call → Option (Nat × Nat)
  | .write offset data => some (offset, data.length)
  | .zeroRange offset length | .read offset length => some (offset, length)
  | .zeroize => none

/-- What a call stores as byte `i`, if it covers it. -/
def Call.stores? (i : Nat) : Call → Option UInt8
  | .write offset data => if offset ≤ i then data[i - offset]? else none
  | .zeroRange offset length => if offset ≤ i ∧ i < offset + length then some 0 else none
  | .zeroize => some 0
  | .read .. => none

/-- The answer to a change, and the arena after it. -/
def outcome (a : Arena) : Except Error Arena → Except Error (List UInt8) × Arena
  | .ok b => (.ok [], b)
  | .error e => (.error e, a)

/-- The answer to a call, which holds the bytes that are read, and the arena after it. -/
def perform (a : Arena) : Call → Except Error (List UInt8) × Arena
  | .write offset data => a.outcome (a.write offset data)
  | .zeroRange offset length => a.outcome (a.zeroRange offset length)
  | .zeroize => (.ok [], a.zeroize)
  | .read offset length => (a.read offset length, a)

/-- A call and its answer. -/
structure Event where
  call : Call
  answer : Except Error (List UInt8)

/-- Makes calls one after another. -/
def run (a : Arena) : List Call → List Event × Arena
  | [] => ([], a)
  | c :: rest =>
    let (answer, next) := a.perform c
    let (events, last) := next.run rest
    (⟨c, answer⟩ :: events, last)

/-- What the event stores as byte `i`, if it succeeds and covers it. -/
def Event.stored? (i : Nat) (e : Event) : Option UInt8 :=
  match e.answer with
  | .ok _ => e.call.stores? i
  | .error _ => none

/-- The byte stored last, 0 if there is none. -/
def lastStored (i : Nat) (events : List Event) : UInt8 :=
  (events.filterMap (·.stored? i)).getLast?.getD 0

/-! ## One call -/

theorem checkRange_outside (outside : a.size < offset + length) :
    a.checkRange offset length = .error (.outOfBounds offset length a.size) := by
  unfold checkRange rangeEnd?
  by_cases isAddress : offset + length < Text.wordLimit64
  · simp [isAddress, Nat.not_le.mpr outside]
  · simp [isAddress]

theorem perform_refused {c : Call} (names : c.range? = some (offset, length))
    (outside : a.size < offset + length) :
    a.perform c = (.error (.outOfBounds offset length a.size), a) := by
  cases c with
  | write start data =>
    cases names
    simp [perform, write, checkRange_outside outside, outcome]
  | zeroRange start count =>
    cases names
    simp [perform, zeroRange, checkRange_outside outside, outcome]
  | zeroize => cases names
  | read start count =>
    cases names
    simp [perform, read, checkRange_outside outside]

theorem perform_accepted {c : Call} (small : a.size < Text.wordLimit64)
    (names : c.range? = some (offset, length)) (inside : offset + length ≤ a.size) :
    ∃ bytes, (a.perform c).1 = .ok bytes := by
  cases c with
  | write start data =>
    cases names
    obtain ⟨b, written, -⟩ := write_inside small inside
    exact ⟨[], by rw [perform, written, outcome]⟩
  | zeroRange start count =>
    cases names
    obtain ⟨b, cleared, -⟩ := zeroRange_inside small inside
    exact ⟨[], by rw [perform, cleared, outcome]⟩
  | zeroize => cases names
  | read start count =>
    cases names
    exact ⟨_, read_inside small inside⟩

/-- A call keeps the size of an arena, and each byte that it does not store. -/
theorem perform_bytes (small : a.size < Text.wordLimit64) (c : Call) :
    (a.perform c).2.size = a.size ∧
      ∀ i, (a.perform c).2.byte i =
        ((⟨c, (a.perform c).1⟩ : Event).stored? i).getD (a.byte i) := by
  cases c with
  | write offset data =>
    rcases Nat.lt_or_ge a.size (offset + data.length) with outside | inside
    · rw [perform_refused rfl outside]
      exact ⟨rfl, fun _ => rfl⟩
    · obtain ⟨b, written, size, bytes⟩ := write_inside small inside
      rw [perform, written, outcome]
      refine ⟨size, fun i => ?_⟩
      simp only [bytes, Event.stored?, Call.stores?]
      grind
  | zeroRange offset length =>
    rcases Nat.lt_or_ge a.size (offset + length) with outside | inside
    · rw [perform_refused rfl outside]
      exact ⟨rfl, fun _ => rfl⟩
    · obtain ⟨b, cleared, size, bytes⟩ := zeroRange_inside small inside
      rw [perform, cleared, outcome]
      refine ⟨size, fun i => ?_⟩
      simp only [bytes, Event.stored?, Call.stores?]
      split <;> rfl
  | zeroize => exact ⟨size_zeroize a, byte_zeroize a⟩
  | read offset length =>
    refine ⟨rfl, fun i => ?_⟩
    simp only [perform, Event.stored?]
    cases a.read offset length <;> rfl

/-! ## Many calls -/

theorem run_bytes (small : a.size < Text.wordLimit64) (calls : List Call) :
    (a.run calls).2.size = a.size ∧
      ∀ i, (a.run calls).2.byte i =
        ((a.run calls).1.filterMap (·.stored? i)).getLast?.getD (a.byte i) := by
  induction calls generalizing a with
  | nil => exact ⟨rfl, fun _ => rfl⟩
  | cons c rest ih =>
    obtain ⟨size, bytes⟩ := perform_bytes small c
    obtain ⟨sizeRest, bytesRest⟩ := ih (size ▸ small)
    refine ⟨sizeRest.trans size, fun i => (bytesRest i).trans ?_⟩
    rw [bytes i, run, List.filterMap_cons]
    cases stored : (⟨c, (a.perform c).1⟩ : Event).stored? i with
    | none => rfl
    | some b => simp [List.getLast?_cons]

/-- After any calls on a new arena, each byte is the one stored last by a call that succeeded, and
0 if there is none. Whatever range a further call names, it succeeds exactly if offset and length
add up to no more than the size of the arena; otherwise the range is out of bounds and the arena
stays as it is. Reading hands out the bytes of the range in their order. -/
theorem accesses_exact (size : UInt64) (calls : List Call) :
    let a := ((zeroed size).run calls).2
    let events := ((zeroed size).run calls).1
    a.size = size.toNat ∧
      (∀ i, a.byte i = lastStored i events) ∧
      (∀ c offset length, c.range? = some (offset, length) →
        ((∃ bytes, (a.perform c).1 = .ok bytes) ↔ offset + length ≤ size.toNat) ∧
          (size.toNat < offset + length →
            a.perform c = (.error (.outOfBounds offset length size.toNat), a))) ∧
      ∀ offset length, offset + length ≤ size.toNat →
        a.perform (.read offset length) =
          (.ok ((List.range length).map fun i => lastStored (offset + i) events), a) := by
  intro a events
  have smallZeroed : (zeroed size).size < Text.wordLimit64 := by
    rw [size_zeroed]
    exact size.toNat_lt
  obtain ⟨kept, bytes⟩ := run_bytes smallZeroed calls
  have whole : a.size = size.toNat := kept.trans (size_zeroed size)
  have small : a.size < Text.wordLimit64 := kept ▸ smallZeroed
  have stored : ∀ i, a.byte i = lastStored i events := by
    intro i
    rw [lastStored, ← byte_zeroed size i]
    exact bytes i
  refine ⟨whole, stored, ?_, ?_⟩
  · intro c offset length names
    rw [← whole]
    refine ⟨⟨?_, perform_accepted small names⟩, perform_refused names⟩
    rintro ⟨bytes, answer⟩
    refine Nat.le_of_not_lt fun outside => ?_
    rw [perform_refused names outside] at answer
    cases answer
  · intro offset length inside
    rw [perform, read_inside small (whole ▸ inside)]
    simp only [stored]

def lastAddress : Nat := Text.wordLimit64 - 1

/-- Overlapping changes, one of them zeroing, and one whose end is no 64-bit address. -/
def overlapping : List Call :=
  [.write 1 [1, 2, 3, 4], .zeroRange 2 1, .write 4 [5, 6], .write lastAddress [7, 8],
    .write 8 [], .read 3 2]

theorem accesses_exact_overlapping :
    let a := ((zeroed 8).run overlapping).2
    (Call.read 1 5).range? = some (1, 5) ∧ 1 + 5 ≤ (8 : UInt64).toNat ∧
      (8 : UInt64).toNat < lastAddress + 2 ∧
      a.perform (.read 1 5) = (.ok [1, 0, 3, 5, 6], a) ∧
      a.perform (.zeroRange lastAddress 2) = (.error (.outOfBounds lastAddress 2 8), a) := by
  obtain ⟨-, -, ranged, reads⟩ := accesses_exact 8 overlapping
  have stored : (List.range 5).map (fun i => lastStored (1 + i) ((zeroed 8).run overlapping).1) =
      [1, 0, 3, 5, 6] := by decide +kernel
  have outside : (8 : UInt64).toNat < lastAddress + 2 := by decide
  refine ⟨rfl, by decide, outside, ?_, (ranged _ _ _ rfl).2 outside⟩
  rw [← stored]
  exact reads 1 5 (by decide)

end PolicyVault.Memory.Arena
