import PolicyVault.Proofs.Wire.Frames
import PolicyVault.Proofs.Wire.Packing
import PolicyVault.Wire.Request

/-!
# Requests on the wire

A request is put into a frame unless its payload is too large, and comes out of the frame, and out
of the bytes of the frame, as it went in. What comes out of any bytes can be sent on.

Main statement: `Request.delivery_exact`.
-/

namespace PolicyVault.Wire

theorem Tag.ofWord_toWord (t : Tag) : Tag.ofWord t.toWord = .ok t := by
  obtain ⟨operation, status⟩ := t
  cases operation <;> cases status <;> rfl

theorem Tag.toWord_request_eq_read {operation : Operation} :
    (Tag.mk operation .request).toWord = Operation.read.code ↔ operation = .read := by
  cases operation <;> decide

theorem fit_ok {field : Field} {n : Nat} (small : n < Text.wordLimit32) :
    fit field n = .ok n.toUInt32 := if_pos small

namespace Request

variable {q : Request} {f : Frame}

/-- A request whose payload no message can hold. -/
def Oversized : Request → Prop
  | .load _ _ policies => maxPayload < (policies.flatMap PolicyItem.bytes).length
  | .write _ _ data => maxPayload < data.length
  | _ => False

/-- The request arrives as it was sent. -/
def Delivered (q : Request) : Prop :=
  ∃ f bytes, q.toFrame = .ok f ∧ f.encode = .ok bytes ∧ bytes.length ≤ maxMessage ∧
    Frame.decode bytes = .ok f ∧ ofFrame f = .ok q

theorem word_of_small {n : Nat} (small : n ≤ maxPayload) : n < Text.wordLimit32 :=
  Nat.lt_of_le_of_lt small (by decide)

/-! ## Out of frames -/

theorem ofFrame_request {operation : Operation}
    (tag : f.tag = (Tag.mk operation .request).toWord) : ofFrame f = ofOperation f operation := by
  simp only [ofFrame, Frame.decodedTag, tag, Tag.ofWord_toWord]
  rfl

theorem eq_ofOperation (read : ofFrame f = .ok q) :
    ∃ operation, ofOperation f operation = .ok q := by
  unfold ofFrame at read
  split at read
  · cases read
  · rename_i tag _
    split at read
    · cases read
    · exact ⟨tag.operation, read⟩

theorem withoutPayload_ok {p : Request} :
    withoutPayload f p = .ok q ↔ f.payload = [] ∧ p = q := by
  unfold withoutPayload
  split <;> simp_all

/-- The payload of a request that comes out of a frame is that of the frame. -/
theorem fits_of_ofFrame (small : f.payload.length ≤ maxPayload) (read : ofFrame f = .ok q) :
    ¬ q.Oversized := by
  obtain ⟨operation, read⟩ := eq_ofOperation read
  cases operation with
  | load =>
    simp only [ofOperation] at read
    split at read
    · cases read
    · rename_i policies unpacked
      obtain rfl := Except.ok.inj read
      obtain ⟨-, packed, -⟩ := PolicyItem.unpack_ok.mp unpacked
      rw [packed] at small
      exact Nat.not_lt.mpr small
  | write =>
    obtain rfl := Except.ok.inj read
    exact Nat.not_lt.mpr small
  | read =>
    simp only [ofOperation] at read
    split at read
    · cases read
    · obtain rfl := Except.ok.inj read
      exact id
  | nil | unload | alloc | dealloc | view | terminate =>
    obtain ⟨-, rfl⟩ := withoutPayload_ok.mp read
    exact id

/-! ## Into frames -/

theorem toFrame_inversion (made : q.toFrame = .ok f) : ∃ pid field2 field3 payload,
    q.headerFields = .ok (pid, field2, field3) ∧ q.payload = .ok payload ∧
      f = ⟨(Tag.mk q.operation .request).toWord, pid, field2, field3, q.requested, payload⟩ := by
  unfold toFrame at made
  split at made
  · cases made
  · rename_i pid field2 field3 header
    split at made
    · cases made
    · rename_i payload body
      exact ⟨pid, field2, field3, payload, header, body, (Except.ok.inj made).symm⟩

theorem payload_write {pid address : UInt32} {data bytes : List UInt8} :
    payload (.write pid address data) = .ok bytes ↔ bytes = data ∧ data.length ≤ maxPayload := by
  simp only [payload]
  split
  · rename_i large
    simp [Nat.not_le.mpr large]
  · rename_i small
    simp [Nat.not_lt.mp small, eq_comm]

theorem payload_ok {bytes : List UInt8} (body : q.payload = .ok bytes) :
    bytes.length ≤ maxPayload ∧ (q.operation = .read → bytes = []) := by
  cases q with
  | load pid arenaSize policies => exact ⟨(PolicyItem.pack_ok.mp body).2, nofun⟩
  | write pid address data =>
    obtain ⟨rfl, small⟩ := payload_write.mp body
    exact ⟨small, nofun⟩
  | _ =>
    obtain rfl := Except.ok.inj body
    exact ⟨Nat.zero_le _, fun _ => rfl⟩

theorem requested_eq_zero (other : q.operation ≠ .read) : q.requested = 0 := by
  cases q with
  | read => exact absurd rfl other
  | _ => rfl

theorem canonical_of_toFrame (made : q.toFrame = .ok f) : f.Canonical := by
  obtain ⟨pid, field2, field3, payload, -, body, rfl⟩ := toFrame_inversion made
  obtain ⟨small, empty⟩ := payload_ok body
  refine ⟨small, fun reading => empty (Tag.toWord_request_eq_read.mp reading), fun carrying => ?_⟩
  exact requested_eq_zero fun reading => carrying (Tag.toWord_request_eq_read.mpr reading)

theorem ofFrame_toFrame (made : q.toFrame = .ok f) : ofFrame f = .ok q := by
  obtain ⟨pid, field2, field3, payload, header, body, rfl⟩ := toFrame_inversion made
  rw [ofFrame_request rfl]
  cases q with
  | load p arenaSize policies =>
    obtain ⟨rfl, small⟩ := PolicyItem.pack_ok.mp body
    have count := word_of_small (Nat.le_trans (PolicyItem.length_le_flatMap policies) small)
    simp only [headerFields, fit_ok count] at header
    cases header
    have unpacked : PolicyItem.unpack (policies.flatMap PolicyItem.bytes)
        policies.length.toUInt32.toNat = .ok policies :=
      PolicyItem.unpack_ok.mpr ⟨(UInt32.toNat_ofNat_of_lt' count).symm, rfl,
        PolicyItem.fits_of_flatMap (word_of_small small)⟩
    simp only [operation, ofOperation, unpacked]
  | write p address data =>
    cases header
    obtain ⟨rfl, -⟩ := payload_write.mp body
    rfl
  | read p address length =>
    cases header
    cases body
    simp only [operation, ofOperation, Frame.dataLength_nil, requested, fit_ok length.toNat_lt]
    simp
  | nil | unload | alloc | dealloc | view | terminate =>
    cases header
    cases body
    rfl

theorem exists_frame (fits : ¬ q.Oversized) : ∃ f, q.toFrame = .ok f := by
  unfold toFrame
  cases q with
  | load pid arenaSize policies =>
    have small : (policies.flatMap PolicyItem.bytes).length ≤ maxPayload := Nat.not_lt.mp fits
    have count := word_of_small (Nat.le_trans (PolicyItem.length_le_flatMap policies) small)
    simp only [headerFields, fit_ok count, payload, PolicyItem.pack_ok.mpr ⟨rfl, small⟩]
    exact ⟨_, rfl⟩
  | write pid address data =>
    simp only [headerFields, payload_write.mpr ⟨rfl, Nat.not_lt.mp fits⟩]
    exact ⟨_, rfl⟩
  | _ => exact ⟨_, rfl⟩

theorem toFrame_error : (∃ e, q.toFrame = .error e) ↔ q.Oversized := by
  constructor
  · rintro ⟨e, failed⟩
    refine Classical.byContradiction fun fits => ?_
    obtain ⟨f, made⟩ := exists_frame fits
    rw [made] at failed
    cases failed
  · intro oversized
    cases made : q.toFrame with
    | error e => exact ⟨e, rfl⟩
    | ok f =>
      have fits := fits_of_ofFrame (canonical_of_toFrame made).small (ofFrame_toFrame made)
      exact absurd oversized fits

/-! ## Through the wire -/

theorem delivered_of_fits (fits : ¬ q.Oversized) : q.Delivered := by
  obtain ⟨f, made⟩ := exists_frame fits
  obtain ⟨bytes, written, short, back⟩ := (canonical_of_toFrame made).decode_encode
  exact ⟨f, bytes, made, written, short, back, ofFrame_toFrame made⟩

/-- Making a frame of a request fails just if the payload is too large, and any other request is
delivered. So is every request that comes out of any bytes. -/
theorem delivery_exact (q : Request) :
    ((∃ e, q.toFrame = .error e) ↔ q.Oversized) ∧ (¬ q.Oversized → q.Delivered) ∧
      ∀ bytes f, Frame.decode bytes = .ok f → ofFrame f = .ok q → q.Delivered := by
  refine ⟨toFrame_error, delivered_of_fits, ?_⟩
  intro bytes f decoded read
  exact delivered_of_fits (fits_of_ofFrame (Frame.canonical_of_decode decoded).small read)

/-- A request to read two bytes with its filler, a request to load no policies, and a request to
write one byte too many. -/
theorem delivery_exact_limits :
    let m := (Frame.bare 5 7 16 3).header 2 ++ [9, 9]
    Frame.decode m = .ok ⟨5, 7, 16, 3, 2, []⟩ ∧
      ofFrame ⟨5, 7, 16, 3, 2, []⟩ = .ok (.read 7 16 2) ∧ Delivered (.read 7 16 2) ∧
      Delivered (.load 7 64 []) ∧ ∃ e, toFrame (.write 7 0 (List.replicate 4097 1)) = .error e := by
  intro m
  have decoded : Frame.decode m = .ok ⟨5, 7, 16, 3, 2, []⟩ := rfl
  have read : ofFrame ⟨5, 7, 16, 3, 2, []⟩ = .ok (.read 7 16 2) := rfl
  refine ⟨decoded, read, (delivery_exact _).2.2 _ _ decoded read, ?_, ?_⟩
  · exact (delivery_exact _).2.1 (Nat.not_lt.mpr (Nat.zero_le _))
  · apply (delivery_exact _).1.mpr
    rw [Oversized, List.length_replicate]
    decide

end Request

end PolicyVault.Wire
