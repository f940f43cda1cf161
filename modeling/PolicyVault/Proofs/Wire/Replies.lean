import PolicyVault.Proofs.Wire.Requests
import PolicyVault.Wire.Client

/-!
# Replies on the wire

The bits of a tag, the words of a message, and replies that come out of their bytes as they went in.

Main statement: `Reply.Proper.readReply`.
-/

namespace PolicyVault.Wire

/-! ## Tags -/

theorem operationBits_or_replyBits (raw : UInt32) : operationBits raw ||| replyBits raw = raw := by
  apply UInt32.eq_of_toBitVec_eq
  ext i bound
  simp only [operationBits, replyBits, UInt32.toBitVec_or, UInt32.toBitVec_and,
    UInt32.toBitVec_not, BitVec.getElem_or, BitVec.getElem_and, BitVec.getElem_not]
  grind

theorem operationBits_refusing (raw : UInt32) :
    operationBits (operationBits raw ||| nakBit) = operationBits raw := by
  apply UInt32.eq_of_toBitVec_eq
  ext i bound
  simp only [operationBits, UInt32.toBitVec_or, UInt32.toBitVec_and, UInt32.toBitVec_not,
    BitVec.getElem_or, BitVec.getElem_and, BitVec.getElem_not]
  grind

theorem replyBits_refusing (raw : UInt32) : replyBits (operationBits raw ||| nakBit) = nakBit := by
  apply UInt32.eq_of_toBitVec_eq
  ext i bound
  simp only [operationBits, replyBits, UInt32.toBitVec_or, UInt32.toBitVec_and,
    UInt32.toBitVec_not, BitVec.getElem_or, BitVec.getElem_and, BitVec.getElem_not]
  grind

theorem Operation.code_of_ofCode {raw : UInt32} {operation : Operation}
    (known : Operation.ofCode raw = .ok operation) : operation.code = raw := by
  unfold Operation.ofCode at known
  split at known
  · rename_i found
    obtain rfl := Except.ok.inj known
    simpa using List.find?_some found
  · cases known

namespace Tag

theorem operationBits_toWord (t : Tag) : operationBits t.toWord = t.operation.code := by
  obtain ⟨operation, status⟩ := t
  cases operation <;> cases status <;> rfl

theorem replyBits_toWord (t : Tag) : replyBits t.toWord = statusBits t.status := by
  obtain ⟨operation, status⟩ := t
  cases operation <;> cases status <;> rfl

theorem replyBits_of_statusOf {raw : UInt32} {status : Status}
    (known : statusOf raw = .ok status) : replyBits raw = statusBits status := by
  unfold statusOf at known
  split at known
  · rename_i bits
    obtain rfl := Except.ok.inj known
    exact bits
  · split at known
    · rename_i bits
      obtain rfl := Except.ok.inj known
      exact bits
    · split at known
      · rename_i bits
        obtain rfl := Except.ok.inj known
        exact bits
      · cases known

theorem toWord_of_ofWord {raw : UInt32} {t : Tag} (known : ofWord raw = .ok t) :
    t.toWord = raw := by
  unfold ofWord at known
  split at known
  · cases known
  · rename_i status answers
    split at known
    · cases known
    · rename_i operation names
      obtain rfl := Except.ok.inj known
      rw [toWord, Operation.code_of_ofCode names, ← replyBits_of_statusOf answers,
        operationBits_or_replyBits]

theorem toWord_ne_read {t : Tag} (isReply : t.isReply = true) :
    t.toWord ≠ Operation.read.code := by
  obtain ⟨operation, status⟩ := t
  cases status with
  | request => cases isReply
  | ack | nak => cases operation <;> decide

end Tag

theorem Request.tag_of_ofFrame {f : Frame} {q : Request} (read : Request.ofFrame f = .ok q) :
    f.tag = (Tag.mk q.operation .request).toWord := by
  unfold ofFrame at read
  split at read
  · cases read
  · rename_i tag known
    split at read
    · cases read
    · rename_i silent
      have word : tag.toWord = f.tag := Tag.toWord_of_ofWord known
      obtain ⟨operation, status⟩ := tag
      cases status with
      | ack | nak => simp [Tag.isReply] at silent
      | request =>
        rw [← word]
        dsimp only at read
        cases operation with
        | load =>
          simp only [ofOperation] at read
          split at read
          · cases read
          · obtain rfl := Except.ok.inj read
            rfl
        | write =>
          obtain rfl := Except.ok.inj read
          rfl
        | read =>
          simp only [ofOperation] at read
          split at read
          · cases read
          · obtain rfl := Except.ok.inj read
            rfl
        | nil | unload | alloc | dealloc | view | terminate =>
          obtain ⟨-, rfl⟩ := Request.withoutPayload_ok.mp read
          rfl

/-! ## The words of a message -/

theorem exists_word {bytes : List UInt8} (long : 4 ≤ bytes.length) :
    ∃ w rest, bytes = wordBytes w ++ rest := by
  match bytes with
  | a :: b :: c :: d :: rest => exact ⟨_, rest, eq_append_of_word? rfl⟩
  | [] | [_] | [_, _] | [_, _, _] => simp at long

theorem exists_header_of_length {m : Message} (long : headerSize ≤ m.length) :
    ∃ (f : Frame) (length : UInt32) (body : List UInt8), m = f.header length ++ body := by
  have enough : 20 ≤ m.length := long
  obtain ⟨tag, a, rfl⟩ := exists_word (show 4 ≤ m.length by omega)
  simp only [List.length_append, length_wordBytes] at enough
  obtain ⟨pid, b, rfl⟩ := exists_word (show 4 ≤ a.length by omega)
  simp only [List.length_append, length_wordBytes] at enough
  obtain ⟨field2, c, rfl⟩ := exists_word (show 4 ≤ b.length by omega)
  simp only [List.length_append, length_wordBytes] at enough
  obtain ⟨field3, d, rfl⟩ := exists_word (show 4 ≤ c.length by omega)
  simp only [List.length_append, length_wordBytes] at enough
  obtain ⟨length, body, rfl⟩ := exists_word (show 4 ≤ d.length by omega)
  refine ⟨.bare tag pid field2 field3, length, body, ?_⟩
  simp only [Frame.header, Frame.bare, List.append_assoc]

/-- The word of a message at a place, counted in words. -/
def wordAt (m : Message) (i : Nat) : Option UInt32 := (word? (m.drop (4 * i))).map (·.1)

theorem wordAt_of_drop {m : Message} {i : Nat} {w : UInt32} {rest : List UInt8}
    (here : m.drop (4 * i) = wordBytes w ++ rest) : wordAt m i = some w := by
  rw [wordAt, here, word?_wordBytes]
  rfl

theorem wordAt_header (f : Frame) (length : UInt32) (body : List UInt8) :
    wordAt (f.header length ++ body) 0 = some f.tag ∧
      wordAt (f.header length ++ body) 1 = some f.pid ∧
      wordAt (f.header length ++ body) 2 = some f.field2 ∧
      wordAt (f.header length ++ body) 3 = some f.field3 ∧
      wordAt (f.header length ++ body) 4 = some length := by
  refine ⟨?_, ?_, ?_, ?_, ?_⟩
  all_goals
    apply wordAt_of_drop
    rfl

/-! ## Replies in bytes -/

namespace Reply

variable {r : Reply}

/-- The reply grants or refuses, its payload fits into a message, and a refusal has none. -/
structure Proper (r : Reply) : Prop where
  isReply : r.tag.isReply = true
  small : r.payload.length ≤ maxPayload
  refusing : r.tag.status = .nak → r.payload = []

theorem Proper.canonical (proper : r.Proper) : r.toFrame.Canonical where
  small := proper.small
  reading := fun reading => absurd reading (Tag.toWord_ne_read proper.isReply)
  carrying := fun _ => rfl

theorem Proper.ofFrame (proper : r.Proper) : ofFrame r.toFrame = .ok r := by
  have tag : r.toFrame.decodedTag = .ok r.tag := Tag.ofWord_toWord r.tag
  have length : r.toFrame.dataLength = r.payload.length := Frame.dataLength_silent rfl
  have bare : ¬ (r.tag.status = .nak ∧ 0 < r.payload.length) := by
    rintro ⟨refuses, filled⟩
    rw [proper.refusing refuses] at filled
    cases filled
  simp only [Reply.ofFrame, tag, proper.isReply, length, if_neg bare]
  rfl

theorem Proper.bits (proper : r.Proper) :
    replyBits r.toFrame.tag = ackBit ∨ replyBits r.toFrame.tag = nakBit := by
  have bits : replyBits r.toFrame.tag = Tag.statusBits r.tag.status := Tag.replyBits_toWord r.tag
  have isReply := proper.isReply
  rw [bits]
  cases answers : r.tag.status with
  | ack => exact .inl rfl
  | nak => exact .inr rfl
  | request => simp [Tag.isReply, answers] at isReply

theorem Proper.bare (proper : r.Proper) (refuses : replyBits r.toFrame.tag = nakBit) :
    r.payload = [] := by
  have bits : replyBits r.toFrame.tag = Tag.statusBits r.tag.status := Tag.replyBits_toWord r.tag
  apply proper.refusing
  cases answers : r.tag.status with
  | nak => rfl
  | ack | request =>
    rw [bits, answers] at refuses
    exact absurd refuses (by decide)

theorem Proper.readReply (proper : r.Proper) : ∃ bytes, r.toFrame.encode = .ok bytes ∧
    bytes.length ≤ maxMessage ∧ Client.readReply bytes = .ok r := by
  obtain ⟨bytes, written, short, back⟩ := proper.canonical.decode_encode
  refine ⟨bytes, written, short, ?_⟩
  simp only [Client.readReply, back, proper.ofFrame]

end Reply

end PolicyVault.Wire
