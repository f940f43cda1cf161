import PolicyVault.Wire.Frame

/-!
# Frames in bytes

The bytes that are read as a frame, for requests to read (`decode_reading_iff`) and for all other
frames (`decode_carrying_iff`). Only a frame that is written as one of these is read back, and what
is not written in a frame is lost.

Main statement: `encoding_exact`.
-/

namespace PolicyVault.Wire.Frame

variable {f g : Frame} {bytes body : List UInt8}

/-! ## Headers -/

@[simp] theorem length_header (f : Frame) (length : UInt32) :
    (f.header length).length = headerSize := rfl

theorem header?_header (f : Frame) (length : UInt32) (body : List UInt8) :
    header? (f.header length ++ body) =
      some (.bare f.tag f.pid f.field2 f.field3, length.toNat, body) := by
  simp [header, header?, word?_wordBytes]

theorem eq_of_header? {n : Nat} (read : header? bytes = some (f, n, body)) :
    ∃ length : UInt32, length.toNat = n ∧ bytes = f.header length ++ body ∧
      f = .bare f.tag f.pid f.field2 f.field3 := by
  simp only [header?, bind, Option.bind_eq_some_iff, pure, Option.some.injEq, Prod.mk.injEq]
    at read
  obtain ⟨⟨tag, a⟩, first, ⟨pid, b⟩, second, ⟨field2, c⟩, third, ⟨field3, d⟩, fourth,
    ⟨length, rest⟩, fifth, rfl, rfl, rfl⟩ := read
  refine ⟨length, rfl, ?_, rfl⟩
  dsimp only at second third fourth fifth ⊢
  rw [eq_append_of_word? first, eq_append_of_word? second, eq_append_of_word? third,
    eq_append_of_word? fourth, eq_append_of_word? fifth]
  simp [header, bare]

theorem word?_drop_header (f : Frame) (length : UInt32) (body : List UInt8) :
    word? ((f.header length ++ body).drop 16) = some (length, body) :=
  word?_wordBytes length body

theorem toNat_length (small : body.length ≤ maxPayload) :
    body.length.toUInt32.toNat = body.length :=
  UInt32.toNat_ofNat_of_lt' (Nat.lt_of_le_of_lt small (by decide))

/-! ## Reading -/

theorem decodeRead_ok {n : Nat} :
    f.decodeRead n body = .ok g ↔
      (body = [] ∨ body.length = n) ∧ g = { f with requested := n.toUInt32 } := by
  unfold decodeRead
  split
  · rename_i misfit
    simp only [Bool.and_eq_true, Bool.not_eq_true', List.isEmpty_eq_false_iff, bne_iff_ne] at misfit
    simp [misfit.1, misfit.2]
  · rename_i fits
    have filler : body = [] ∨ body.length = n := by
      simpa [Classical.or_iff_not_imp_left] using fits
    simp only [filler, true_and, Except.ok.injEq]
    exact eq_comm

theorem decodeBody_ok {n : Nat} :
    f.decodeBody n body = .ok g ↔
      body.length = n ∧ n ≤ maxPayload ∧ g = { f with payload := body } := by
  unfold decodeBody
  split
  · rename_i large
    simp [Nat.not_le.mpr large]
  · rename_i small
    split
    · rename_i short
      simp [Nat.ne_of_lt short]
    · rename_i long
      split
      · rename_i surplus
        simp [Nat.ne_of_gt surplus]
      · rename_i equal
        have whole : body.length = n := by omega
        simp only [whole, Nat.not_lt.mp small, true_and, Except.ok.injEq]
        exact eq_comm

theorem decode_header (f : Frame) (length : UInt32) (body : List UInt8) :
    decode (f.header length ++ body) =
      if f.tag = Operation.read.code then
        decodeRead (.bare f.tag f.pid f.field2 f.field3) length.toNat body
      else decodeBody (.bare f.tag f.pid f.field2 f.field3) length.toNat body := by
  simp only [decode, header?_header, asksToRead, bare, beq_iff_eq]

theorem exists_header (read : decode bytes = .ok f) :
    ∃ length body, bytes = f.header length ++ body := by
  unfold decode at read
  split at read
  · cases read
  · rename_i h n body found
    obtain ⟨length, -, rfl, -⟩ := eq_of_header? found
    split at read
    · obtain ⟨-, rfl⟩ := decodeRead_ok.mp read
      exact ⟨length, body, rfl⟩
    · obtain ⟨-, -, rfl⟩ := decodeBody_ok.mp read
      exact ⟨length, body, rfl⟩

/-- A request to read is its header, or its header and as much filler as it asks for. -/
theorem decode_reading_iff (reading : f.tag = Operation.read.code) :
    decode bytes = .ok f ↔ f.payload = [] ∧ ∃ body, bytes = f.header f.requested ++ body ∧
      (body = [] ∨ body.length = f.requested.toNat) := by
  constructor
  · intro read
    obtain ⟨length, body, rfl⟩ := exists_header read
    rw [decode_header, if_pos reading, decodeRead_ok] at read
    obtain ⟨filler, same⟩ := read
    have requested : f.requested = length := by
      rw [same]
      exact UInt32.ofNat_toNat
    refine ⟨by rw [same]; rfl, body, by rw [requested], ?_⟩
    rwa [requested]
  · rintro ⟨bare, body, rfl, filler⟩
    rw [decode_header, if_pos reading, decodeRead_ok]
    refine ⟨filler, ?_⟩
    obtain ⟨tag, pid, field2, field3, requested, payload⟩ := f
    obtain rfl : payload = [] := bare
    simp [Frame.bare]

/-- Any other frame is its header and its payload, and asks for nothing. -/
theorem decode_carrying_iff (carrying : f.tag ≠ Operation.read.code) :
    decode bytes = .ok f ↔ f.requested = 0 ∧ f.payload.length ≤ maxPayload ∧
      bytes = f.header f.payload.length.toUInt32 ++ f.payload := by
  constructor
  · intro read
    obtain ⟨length, body, rfl⟩ := exists_header read
    rw [decode_header, if_neg carrying, decodeBody_ok] at read
    obtain ⟨whole, small, same⟩ := read
    have payload : f.payload = body := by rw [same]
    refine ⟨by rw [same]; rfl, by rw [payload, whole]; exact small, ?_⟩
    rw [payload, whole]
    simp
  · rintro ⟨silent, small, rfl⟩
    rw [decode_header, if_neg carrying, decodeBody_ok, toNat_length small]
    refine ⟨rfl, small, ?_⟩
    obtain ⟨tag, pid, field2, field3, requested, payload⟩ := f
    obtain rfl : requested = 0 := silent
    rfl

/-! ## Writing -/

theorem encode_ok : f.encode = .ok bytes ↔
    f.payload.length ≤ maxPayload ∧ bytes = f.header f.dataLength.toUInt32 ++ f.payload := by
  unfold encode
  split
  · rename_i large
    simp [Nat.not_le.mpr large]
  · rename_i small
    simp [Nat.not_lt.mp small, eq_comm]

theorem length_of_encode (written : f.encode = .ok bytes) : bytes.length ≤ maxMessage := by
  obtain ⟨small, rfl⟩ := encode_ok.mp written
  rw [List.length_append, length_header]
  exact Nat.add_le_add_left small headerSize

theorem encode_error : (∃ e, f.encode = .error e) ↔ maxPayload < f.payload.length := by
  unfold encode
  split <;> simp [*]

theorem dataLength_nil (empty : f.payload = []) : f.dataLength = f.requested.toNat := by
  simp [dataLength, empty]

theorem dataLength_silent (silent : f.requested = 0) : f.dataLength = f.payload.length := by
  cases empty : f.payload <;> simp [dataLength, empty, silent]

theorem dataLength_nonempty (filled : f.payload ≠ []) : f.dataLength = f.payload.length := by
  simp [dataLength, filled]

theorem toNat_dataLength (small : f.payload.length ≤ maxPayload) :
    f.dataLength.toUInt32.toNat = f.dataLength := by
  by_cases empty : f.payload = []
  · rw [dataLength_nil empty]
    exact congrArg UInt32.toNat UInt32.ofNat_toNat
  · rw [dataLength_nonempty empty]
    exact toNat_length small

/-! ## Both ways -/

theorem decode_encode_reading (written : f.encode = .ok bytes)
    (reading : f.tag = Operation.read.code) :
    decode bytes = .ok { f with requested := f.dataLength.toUInt32, payload := [] } := by
  obtain ⟨small, rfl⟩ := encode_ok.mp written
  refine (decode_reading_iff ?_).mpr ⟨rfl, f.payload, rfl, ?_⟩
  · exact reading
  · by_cases empty : f.payload = []
    · exact .inl empty
    · rw [toNat_dataLength small, dataLength_nonempty empty]
      exact .inr rfl

theorem decode_encode_carrying (written : f.encode = .ok bytes)
    (carrying : f.tag ≠ Operation.read.code) (length : f.dataLength = f.payload.length) :
    decode bytes = .ok { f with requested := 0 } := by
  obtain ⟨small, rfl⟩ := encode_ok.mp written
  refine (decode_carrying_iff ?_).mpr ⟨rfl, small, ?_⟩
  · exact carrying
  · rw [length]
    rfl

/-- Only a request to read can ask for bytes. -/
theorem decode_encode_asking (written : f.encode = .ok bytes)
    (carrying : f.tag ≠ Operation.read.code) (empty : f.payload = []) (asks : f.requested ≠ 0) :
    ∃ e, decode bytes = .error e := by
  obtain ⟨small, rfl⟩ := encode_ok.mp written
  cases result : decode (f.header f.dataLength.toUInt32 ++ f.payload) with
  | error e => exact ⟨e, rfl⟩
  | ok g =>
    rw [decode_header, if_neg carrying, decodeBody_ok, toNat_dataLength small,
      dataLength_nil empty, empty] at result
    exact absurd (UInt32.toNat_inj.mp result.1.symm) asks

theorem encode_decode_reading (read : decode bytes = .ok f)
    (reading : f.tag = Operation.read.code) : f.encode = .ok (bytes.take headerSize) := by
  obtain ⟨empty, body, rfl, -⟩ := (decode_reading_iff reading).mp read
  rw [encode_ok, dataLength_nil empty, empty, List.append_nil,
    List.take_left' (length_header f f.requested)]
  exact ⟨Nat.zero_le _, by simp⟩

theorem encode_decode_carrying (read : decode bytes = .ok f)
    (carrying : f.tag ≠ Operation.read.code) : f.encode = .ok bytes := by
  obtain ⟨silent, small, same⟩ := (decode_carrying_iff carrying).mp read
  rw [encode_ok, dataLength_silent silent]
  exact ⟨small, same⟩

/-- A frame that says nothing that its written form cannot. -/
structure Canonical (f : Frame) : Prop where
  small : f.payload.length ≤ maxPayload
  reading : f.tag = Operation.read.code → f.payload = []
  carrying : f.tag ≠ Operation.read.code → f.requested = 0

theorem canonical_of_decode (read : decode bytes = .ok f) : f.Canonical := by
  by_cases tag : f.tag = Operation.read.code
  · obtain ⟨empty, -⟩ := (decode_reading_iff tag).mp read
    exact ⟨by simp [empty], fun _ => empty, fun carrying => absurd tag carrying⟩
  · obtain ⟨silent, small, -⟩ := (decode_carrying_iff tag).mp read
    exact ⟨small, fun reading => absurd reading tag, fun _ => silent⟩

theorem Canonical.decode_encode (canonical : f.Canonical) :
    ∃ bytes, f.encode = .ok bytes ∧ bytes.length ≤ maxMessage ∧ decode bytes = .ok f := by
  have written := encode_ok.mpr ⟨canonical.small, rfl⟩
  refine ⟨_, written, length_of_encode written, ?_⟩
  obtain ⟨tag, pid, field2, field3, requested, payload⟩ := f
  by_cases reading : tag = Operation.read.code
  · obtain rfl : payload = [] := canonical.reading reading
    rw [decode_encode_reading written reading, dataLength_nil rfl]
    simp
  · obtain rfl : requested = 0 := canonical.carrying reading
    exact decode_encode_carrying written reading (dataLength_silent rfl)

/-- A frame is written unless its payload is too large. Read back, a request to read has lost its
payload and asks for what the last word of the header said; any other frame has lost the length it
asked for, and cannot be read if it was to ask for bytes without having any. What is read is written
as it was, up to the filler of a request to read, and but for such requests it is a header with
exactly as many bytes behind it as its last word says. -/
theorem encoding_exact :
    (∀ f : Frame, (∃ e, f.encode = .error e) ↔ maxPayload < f.payload.length) ∧
      (∀ (f : Frame) bytes, f.encode = .ok bytes →
        (f.tag = Operation.read.code →
          decode bytes = .ok { f with requested := f.dataLength.toUInt32, payload := [] }) ∧
        (f.tag ≠ Operation.read.code →
          (f.payload ≠ [] ∨ f.requested = 0 → decode bytes = .ok { f with requested := 0 }) ∧
          (f.payload = [] → f.requested ≠ 0 → ∃ e, decode bytes = .error e))) ∧
      ∀ bytes f, decode bytes = .ok f →
        (f.tag = Operation.read.code → f.encode = .ok (bytes.take headerSize)) ∧
        (f.tag ≠ Operation.read.code → f.encode = .ok bytes ∧
          ∃ length, word? (bytes.drop 16) = some (length, f.payload) ∧
            bytes.length = headerSize + length.toNat ∧ length.toNat ≤ maxPayload) := by
  refine ⟨fun f => encode_error, ?_, ?_⟩
  · intro f bytes written
    refine ⟨decode_encode_reading written, fun carrying => ⟨?_, ?_⟩⟩
    · intro fits
      apply decode_encode_carrying written carrying
      exact fits.elim dataLength_nonempty dataLength_silent
    · exact decode_encode_asking written carrying
  · intro bytes f read
    refine ⟨encode_decode_reading read, fun carrying => ⟨encode_decode_carrying read carrying, ?_⟩⟩
    obtain ⟨-, small, rfl⟩ := (decode_carrying_iff carrying).mp read
    refine ⟨_, word?_drop_header f _ _, ?_, ?_⟩
    · rw [List.length_append, length_header, toNat_length small]
    · rw [toNat_length small]
      exact small

/-- A request to read with a payload of two bytes, and a request to write that asks for two bytes
without having any. -/
theorem encoding_exact_two_bytes :
    let reading : Frame := ⟨Operation.read.code, 7, 16, 0, 9, [1, 2]⟩
    let asking : Frame := ⟨Operation.write.code, 7, 16, 0, 2, []⟩
    reading.encode = .ok (reading.header 2 ++ [1, 2]) ∧
      decode (reading.header 2 ++ [1, 2]) = .ok ⟨Operation.read.code, 7, 16, 0, 2, []⟩ ∧
      Frame.encode ⟨Operation.read.code, 7, 16, 0, 2, []⟩ = .ok (reading.header 2) ∧
      asking.encode = .ok (asking.header 2) ∧ ∃ e, decode (asking.header 2) = .error e := by
  intro reading asking
  obtain ⟨-, back, again⟩ := encoding_exact
  have written : reading.encode = .ok (reading.header 2 ++ [1, 2]) := rfl
  have asked : asking.encode = .ok (asking.header 2) := rfl
  have read := (back reading _ written).1 rfl
  refine ⟨written, read, (again _ _ read).1 rfl, asked, ?_⟩
  exact ((back asking _ asked).2 (by decide)).2 rfl (by decide)

end PolicyVault.Wire.Frame
