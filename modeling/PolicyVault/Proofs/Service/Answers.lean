import PolicyVault.Proofs.Service.Views
import PolicyVault.Proofs.Wire.Replies

/-!
# Answers

A request that is read is answered by a reply that repeats its header, and any other message by a
refusal that repeats what it has of one. Every answer can be written, and read back if it names an
operation.

Main statement: `Service.Dispatcher.answers_exact`.
-/

namespace PolicyVault.Service.Dispatcher

open Wire (Request Reply Frame Message Tag Operation)

variable {d : Dispatcher} {q : Request} {r : Reply} {m : Message} {f : Frame}

/-! ## Requests that are read -/

theorem holds_iff : Holds m q ↔ request? m = some q := by
  unfold request?
  constructor
  · rintro ⟨f, decoded, valid⟩
    simp only [decoded, valid]
  · intro holds
    split at holds
    · cases holds
    · rename_i f decoded
      split at holds
      · cases holds
      · rename_i p valid
        obtain rfl := Option.some.inj holds
        exact ⟨f, decoded, valid⟩

theorem Holds.headerFields (holds : Holds m q) :
    ∃ pid field2 field3, q.headerFields = .ok (pid, field2, field3) := by
  obtain ⟨f, decoded, valid⟩ := holds
  have fits := Request.fits_of_ofFrame (Frame.canonical_of_decode decoded).small valid
  obtain ⟨g, made⟩ := Request.exists_frame fits
  obtain ⟨pid, field2, field3, -, header, -⟩ := Request.toFrame_inversion made
  exact ⟨pid, field2, field3, header⟩

theorem echo_of_headerFields {pid field2 field3 : UInt32} (status : Wire.Status)
    (header : q.headerFields = .ok (pid, field2, field3)) :
    Reply.echo q status = ⟨⟨q.operation, status⟩, pid, field2, field3, []⟩ := by
  simp only [Reply.echo, header]
  rfl

/-- A request to terminate is a header without payload. -/
theorem holds_terminate : Holds m .terminate ↔
    m.length = Wire.headerSize ∧ Wire.wordAt m 0 = some 8 ∧ Wire.wordAt m 4 = some 0 := by
  constructor
  · rintro ⟨f, decoded, valid⟩
    have tag : f.tag = 8 := Request.tag_of_ofFrame valid
    have carrying : f.tag ≠ Operation.read.code := by
      rw [tag]
      decide
    have bare : f.payload = [] := by
      have opened : Request.ofFrame f = Request.ofOperation f .terminate :=
        Request.ofFrame_request tag
      rw [opened] at valid
      exact (Request.withoutPayload_ok.mp valid).1
    obtain ⟨-, -, rfl⟩ := (Frame.decode_carrying_iff carrying).mp decoded
    obtain ⟨first, -, -, -, last⟩ := Wire.wordAt_header f f.payload.length.toUInt32 f.payload
    rw [first, last, tag, bare]
    exact ⟨rfl, rfl, rfl⟩
  · rintro ⟨length, first, last⟩
    obtain ⟨f, n, body, rfl⟩ := Wire.exists_header_of_length (Nat.le_of_eq length.symm)
    obtain ⟨word, -, -, -, size⟩ := Wire.wordAt_header f n body
    obtain rfl := Option.some.inj (size.symm.trans last)
    have tag : f.tag = 8 := Option.some.inj (word.symm.trans first)
    obtain rfl : body = [] := by
      rw [List.length_append, Frame.length_header] at length
      exact List.eq_nil_of_length_eq_zero (Nat.add_eq_left.mp length)
    let g := Frame.bare f.tag f.pid f.field2 f.field3
    have carrying : g.tag ≠ Operation.read.code := by
      show f.tag ≠ Operation.read.code
      rw [tag]
      decide
    have valid : Request.ofFrame g = Request.ofOperation g .terminate :=
      Request.ofFrame_request tag
    exact ⟨g, (Frame.decode_carrying_iff carrying).mpr ⟨rfl, Nat.zero_le _, rfl⟩, valid⟩

/-! ## Replies to requests -/

/-- What a granting reply can be. -/
inductive Granted (d : Dispatcher) : Request → Reply → Prop
  | plain {q : Request} (other : q.operation ≠ .alloc) : Granted d q (Reply.ack q)
  | carrying {q : Request} {payload : List UInt8} (other : q.operation ≠ .alloc)
      (small : payload.length ≤ Wire.maxPayload) :
      Granted d q { Reply.ack q with payload := payload }
  | allocated {pid size policy offset : UInt32}
      (made : (d.registry.alloc pid size.toNat policy.toNat).1 = .ok offset.toNat) :
      Granted d (.alloc pid size policy) ((Reply.ack (.alloc pid size policy)).withField2 offset)

theorem withPayload_small {before : Reply} {payload : List UInt8}
    (made : before.withPayload payload = .ok r) : payload.length ≤ Wire.maxPayload := by
  unfold Reply.withPayload at made
  split at made
  · cases made
  · rename_i small
    exact Nat.not_lt.mp small

theorem toNat_of_fit {field : Wire.Field} {value : Nat} {w : UInt32}
    (fits : Wire.fit field value = .ok w) : w.toNat = value := by
  unfold Wire.fit at fits
  split at fits
  · rename_i small
    obtain rfl := Except.ok.inj fits
    exact UInt32.toNat_ofNat_of_lt' small
  · cases fits

theorem dispatch_granted (granted : (d.dispatch q).1 = .ok r) : Granted d q r := by
  unfold dispatch at granted
  cases q with
  | nil | terminate =>
    obtain rfl := Except.ok.inj granted
    exact .plain nofun
  | load | unload | dealloc | write =>
    obtain ⟨_, -, made⟩ := serve_ok granted
    obtain rfl := Except.ok.inj made
    exact .plain nofun
  | alloc pid size policy =>
    obtain ⟨offset, allocated, made⟩ := serve_ok granted
    split at made
    · cases made
    · rename_i word fits
      obtain rfl := Except.ok.inj made
      apply Granted.allocated
      rw [toNat_of_fit fits]
      exact allocated
  | read | view =>
    obtain ⟨_, -, made⟩ := serve_ok granted
    rw [withPayload_inversion made]
    exact .carrying nofun (withPayload_small made)

theorem Granted.proper (granted : Granted d q r) : r.Proper := by
  cases granted with
  | plain | allocated => exact ⟨rfl, Nat.zero_le _, nofun⟩
  | carrying _ small => exact ⟨rfl, small, nofun⟩

theorem Granted.tag (granted : Granted d q r) : r.tag = ⟨q.operation, .ack⟩ := by
  cases granted <;> rfl

theorem nakBit_ne_ackBit : Wire.nakBit ≠ Wire.ackBit := by decide

theorem nak_proper (q : Request) : (Reply.nak q).Proper := ⟨rfl, Nat.zero_le _, fun _ => rfl⟩

/-- The reply to a request that is no request to terminate. -/
def answer (d : Dispatcher) (q : Request) : Reply :=
  match (d.dispatch q).1 with
  | .ok r => r
  | .error _ => .nak q

theorem answer_granted (granted : (d.dispatch q).1 = .ok r) : d.answer q = r := by
  simp only [answer, granted]

theorem answer_refused {e : Error} (refused : (d.dispatch q).1 = .error e) :
    d.answer q = .nak q := by
  simp only [answer, refused]

theorem answer_proper (d : Dispatcher) (q : Request) : (d.answer q).Proper := by
  cases result : (d.dispatch q).1 with
  | ok r =>
    rw [answer_granted result]
    exact (dispatch_granted result).proper
  | error e =>
    rw [answer_refused result]
    exact nak_proper q

theorem answer_operation (d : Dispatcher) (q : Request) :
    (d.answer q).tag.operation = q.operation := by
  cases result : (d.dispatch q).1 with
  | ok r => rw [answer_granted result, (dispatch_granted result).tag]
  | error e =>
    rw [answer_refused result]
    rfl

theorem echo_pid (q : Request) (status : Wire.Status) : (Reply.echo q status).pid = q.pid := by
  cases header : q.headerFields with
  | error e => simp only [Reply.echo, header, Except.toOption, Option.getD_none]
  | ok fields =>
    simp only [Reply.echo, header, Except.toOption, Option.getD_some]
    cases q with
    | load pid arenaSize policies =>
      rw [Request.headerFields] at header
      split at header
      · cases header
      · cases header
        rfl
    | _ =>
      cases header
      rfl

theorem answer_pid (d : Dispatcher) (q : Request) : (d.answer q).pid = q.pid := by
  cases result : (d.dispatch q).1 with
  | ok r =>
    rw [answer_granted result]
    cases dispatch_granted result with
    | plain | carrying => exact echo_pid q .ack
    | allocated => rfl
  | error e =>
    rw [answer_refused result]
    exact echo_pid q .nak

theorem respond_continues (continues : q.operation ≠ .terminate) :
    d.respond q = (.reply (d.answer q).toFrame, (d.dispatch q).2) := by
  rw [respond, if_neg continues, answer]
  rcases d.dispatch q with ⟨result, next⟩
  cases result <;> rfl

theorem eq_terminate_of_operation (ends : q.operation = .terminate) : q = .terminate := by
  cases q with
  | terminate => rfl
  | _ => cases ends

theorem handle_terminates (holds : Holds m .terminate) : d.handle m = (.terminate, d) := by
  rw [handle_some d (holds_iff.mp holds)]
  rfl

theorem handle_answers (holds : Holds m q) (continues : q ≠ .terminate) :
    d.handle m = (.reply (d.answer q).toFrame, (d.dispatch q).2) := by
  rw [handle_some d (holds_iff.mp holds)]
  exact respond_continues fun ends => continues (eq_terminate_of_operation ends)

/-! ## Messages that hold no request -/

theorem headerOrNil_short (short : m.length < Wire.headerSize) :
    headerOrNil m = .bare Operation.nil.code 0 0 0 := by
  cases read : Frame.header? m with
  | none => simp only [headerOrNil, Frame.decodeHeader, read, Except.toOption, Option.getD_none]
  | some found =>
    obtain ⟨f, n, body⟩ := found
    obtain ⟨length, -, rfl, -⟩ := Frame.eq_of_header? read
    rw [List.length_append, Frame.length_header] at short
    omega

theorem headerOrNil_header (f : Frame) (length : UInt32) (body : List UInt8) :
    headerOrNil (f.header length ++ body) = .bare f.tag f.pid f.field2 f.field3 := by
  simp only [headerOrNil, Frame.decodeHeader, Frame.header?_header, Except.toOption,
    Option.getD_some]

/-- A message that holds no request is refused with what its header says. -/
theorem handle_unreadable (none : request? m = none) :
    d.handle m = (.reply (headerOrNil m).refusal, d) := by
  unfold request? at none
  unfold handle
  cases decoded : Frame.decode m with
  | error e => rfl
  | ok f =>
    cases valid : Request.ofFrame f with
    | ok q => simp [decoded, valid] at none
    | error e =>
      obtain ⟨length, body, rfl⟩ := Frame.exists_header decoded
      simp only [valid, headerOrNil_header]
      rfl

theorem refusal_canonical (f : Frame) : f.refusal.Canonical :=
  ⟨Nat.zero_le _, fun _ => rfl, fun _ => rfl⟩

/-- A refusal of a known operation is a reply. -/
theorem exists_reply_of_refusal {operation : Operation}
    (known : Wire.operationBits f.refusal.tag = operation.code) :
    ∃ r : Reply, r.Proper ∧ r.toFrame = f.refusal := by
  refine ⟨⟨⟨operation, .nak⟩, f.pid, f.field2, f.field3, []⟩,
    ⟨rfl, Nat.zero_le _, fun _ => rfl⟩, ?_⟩
  have tag : operation.code ||| Wire.nakBit = f.refusal.tag := by
    rw [← known]
    exact congrArg (· ||| Wire.nakBit) (Wire.operationBits_refusing f.tag)
  simp only [Reply.toFrame, Tag.toWord, Tag.statusBits, tag]
  rfl

/-! ## The shape of an answer -/

/-- What is said of the frame that answers a message. -/
structure Answered (d : Dispatcher) (m : Message) (f : Frame) : Prop where
  bits : Wire.replyBits f.tag = Wire.ackBit ∨ Wire.replyBits f.tag = Wire.nakBit
  written : ∃ bytes, f.encode = .ok bytes ∧ bytes.length ≤ Wire.maxMessage
  refusing : Wire.replyBits f.tag = Wire.nakBit → f.payload = []
  short : m.length < Wire.headerSize → f = .bare Wire.nakBit 0 0 0
  granted : ∀ q, Holds m q →
    (Wire.replyBits f.tag = Wire.ackBit ↔ ∃ r, (d.dispatch q).1 = .ok r)
  operation : ∀ q, Holds m q → Wire.operationBits f.tag = q.operation.code
  header : ∀ q, Holds m q →
    if q.operation = .alloc ∧ Wire.replyBits f.tag = Wire.ackBit then
      ∃ size, q.headerFields = .ok (f.pid, size, f.field3) ∧
        (d.registry.alloc f.pid size.toNat f.field3.toNat).1 = .ok f.field2.toNat
    else q.headerFields = .ok (f.pid, f.field2, f.field3)
  unreadable : Wire.headerSize ≤ m.length → (∀ q, ¬ Holds m q) →
    Wire.replyBits f.tag = Wire.nakBit ∧
      (Wire.wordAt m 0).map Wire.operationBits = some (Wire.operationBits f.tag) ∧
      Wire.wordAt m 1 = some f.pid ∧ Wire.wordAt m 2 = some f.field2 ∧
      Wire.wordAt m 3 = some f.field3
  readable : ∀ operation : Operation, Wire.operationBits f.tag = operation.code →
    ∃ bytes r, f.encode = .ok bytes ∧ Frame.decode bytes = .ok f ∧ Reply.ofFrame f = .ok r ∧
      r.toFrame = f

theorem readable_of_proper (proper : r.Proper) : ∃ bytes s, r.toFrame.encode = .ok bytes ∧
    Frame.decode bytes = .ok r.toFrame ∧ Reply.ofFrame r.toFrame = .ok s ∧
      s.toFrame = r.toFrame := by
  obtain ⟨bytes, written, -, back⟩ := proper.canonical.decode_encode
  exact ⟨bytes, r, written, back, proper.ofFrame, rfl⟩

theorem refusal_answered (unheld : ∀ q, ¬ Holds m q) : d.Answered m (headerOrNil m).refusal where
  bits := .inr (Wire.replyBits_refusing (headerOrNil m).tag)
  written := by
    obtain ⟨bytes, written, small, -⟩ := (refusal_canonical (headerOrNil m)).decode_encode
    exact ⟨bytes, written, small⟩
  refusing := fun _ => rfl
  short := by
    intro short
    rw [headerOrNil_short short]
    rfl
  granted := fun q holds => absurd holds (unheld q)
  operation := fun q holds => absurd holds (unheld q)
  header := fun q holds => absurd holds (unheld q)
  unreadable := by
    intro long _
    obtain ⟨f, length, body, rfl⟩ := Wire.exists_header_of_length long
    obtain ⟨tag, pid, field2, field3, -⟩ := Wire.wordAt_header f length body
    rw [headerOrNil_header, tag, pid, field2, field3]
    refine ⟨Wire.replyBits_refusing f.tag, ?_, rfl, rfl, rfl⟩
    exact congrArg some (Wire.operationBits_refusing f.tag).symm
  readable := by
    intro operation known
    obtain ⟨r, proper, same⟩ := exists_reply_of_refusal known
    rw [← same]
    exact readable_of_proper proper

theorem header_of_granted (granted : Granted d q r) {pid field2 field3 : UInt32}
    (header : q.headerFields = .ok (pid, field2, field3)) :
    if q.operation = .alloc then
      ∃ size, q.headerFields = .ok (r.pid, size, r.field3) ∧
        (d.registry.alloc r.pid size.toNat r.field3.toNat).1 = .ok r.field2.toNat
    else q.headerFields = .ok (r.pid, r.field2, r.field3) := by
  cases granted with
  | plain other =>
    rw [if_neg other, Reply.ack, echo_of_headerFields .ack header]
    exact header
  | carrying other =>
    rw [if_neg other, Reply.ack, echo_of_headerFields .ack header]
    exact header
  | allocated made => exact ⟨_, rfl, made⟩

theorem ackBit_iff_granted (d : Dispatcher) (q : Request) :
    Wire.replyBits (d.answer q).toFrame.tag = Wire.ackBit ↔ ∃ r, (d.dispatch q).1 = .ok r := by
  have bits : Wire.replyBits (d.answer q).toFrame.tag =
      Tag.statusBits (d.answer q).tag.status := Tag.replyBits_toWord _
  rw [bits]
  cases result : (d.dispatch q).1 with
  | ok r =>
    rw [answer_granted result, (dispatch_granted result).tag]
    exact ⟨fun _ => ⟨r, rfl⟩, fun _ => rfl⟩
  | error e =>
    rw [answer_refused result]
    exact ⟨fun ack => absurd ack nakBit_ne_ackBit, nofun⟩

theorem header_of_answer {pid field2 field3 : UInt32}
    (header : q.headerFields = .ok (pid, field2, field3)) :
    if q.operation = .alloc ∧ Wire.replyBits (d.answer q).toFrame.tag = Wire.ackBit then
      ∃ size, q.headerFields = .ok ((d.answer q).pid, size, (d.answer q).field3) ∧
        (d.registry.alloc (d.answer q).pid size.toNat (d.answer q).field3.toNat).1 =
          .ok (d.answer q).field2.toNat
    else q.headerFields = .ok ((d.answer q).pid, (d.answer q).field2, (d.answer q).field3) := by
  cases result : (d.dispatch q).1 with
  | ok r =>
    have ack : Wire.replyBits (d.answer q).toFrame.tag = Wire.ackBit :=
      (d.ackBit_iff_granted q).mpr ⟨r, result⟩
    rw [answer_granted result] at ack ⊢
    simp only [ack, and_true]
    exact header_of_granted (dispatch_granted result) header
  | error e =>
    have nak : ¬ Wire.replyBits (d.answer q).toFrame.tag = Wire.ackBit := by
      rw [ackBit_iff_granted, result]
      nofun
    rw [if_neg fun both => nak both.2, answer_refused result, Reply.nak,
      echo_of_headerFields .nak header]
    exact header

theorem Holds.long (holds : Holds m q) : Wire.headerSize ≤ m.length := by
  obtain ⟨f, decoded, -⟩ := holds
  obtain ⟨length, body, rfl⟩ := Frame.exists_header decoded
  rw [List.length_append, Frame.length_header]
  exact Nat.le_add_right ..

theorem reply_answered (holds : Holds m q) : d.Answered m (d.answer q).toFrame := by
  have proper := d.answer_proper q
  obtain ⟨pid, field2, field3, header⟩ := holds.headerFields
  obtain ⟨bytes, written, small, -⟩ := proper.readReply
  refine ⟨proper.bits, ⟨bytes, written, small⟩, proper.bare, ?_, ?_, ?_, ?_, ?_, ?_⟩
  · exact fun short => absurd holds.long (Nat.not_le.mpr short)
  · intro p held
    obtain rfl := held.unique holds
    exact d.ackBit_iff_granted p
  · intro p held
    obtain rfl := held.unique holds
    rw [← d.answer_operation p]
    exact Tag.operationBits_toWord _
  · intro p held
    obtain rfl := held.unique holds
    exact header_of_answer header
  · exact fun _ unheld => absurd holds (unheld q)
  · exact fun _ _ => readable_of_proper proper

theorem exists_answer (continues : ¬ Holds m .terminate) :
    ∃ f, (d.handle m).1 = .reply f ∧ d.Answered m f := by
  cases found : request? m with
  | none =>
    have unheld : ∀ q, ¬ Holds m q := by
      intro q holds
      rw [holds_iff, found] at holds
      cases holds
    exact ⟨_, by rw [handle_unreadable found], refusal_answered unheld⟩
  | some q =>
    have holds := holds_iff.mpr found
    have other : q ≠ .terminate := by
      rintro rfl
      exact continues holds
    exact ⟨_, by rw [handle_answers holds other], reply_answered holds⟩

theorem terminate_iff : (d.handle m).1 = .terminate ↔ Holds m .terminate := by
  constructor
  · intro ends
    by_contra continues
    obtain ⟨f, reply, -⟩ := exists_answer (d := d) continues
    rw [reply] at ends
    cases ends
  · intro holds
    rw [handle_terminates holds]

/-- A message ends the service just if it is a header of twenty bytes whose first word is 8 and
whose last word is 0. Every other message is answered, and in the right shape. -/
theorem answers_exact (d : Dispatcher) (m : Message) :
    ((d.handle m).1 = .terminate ↔
      m.length = Wire.headerSize ∧ Wire.wordAt m 0 = some 8 ∧ Wire.wordAt m 4 = some 0) ∧
      ((d.handle m).1 ≠ .terminate → ∃ f, (d.handle m).1 = .reply f ∧ d.Answered m f) := by
  rw [← holds_terminate]
  refine ⟨terminate_iff, fun continues => exists_answer fun ends => ?_⟩
  exact continues (terminate_iff.mpr ends)

/-- After an allocation of four bytes, the next one is granted at offset 4. -/
theorem answers_exact_second_alloc :
    let d := (fresh .standard).after readOnce
    let m := (Frame.bare 3 1 4 0).header 0
    (d.handle m).1 = .reply (.bare 0x13 1 4 0) ∧ d.Answered m (.bare 0x13 1 4 0) ∧
      (d.handle ((Frame.bare 8 9 9 9).header 0)).1 = .terminate := by
  intro d m
  have reply : (d.handle m).1 = .reply (.bare 0x13 1 4 0) := by decide +kernel
  have continues : (d.handle m).1 ≠ .terminate := by
    rw [reply]
    nofun
  obtain ⟨f, same, shape⟩ := (answers_exact d m).2 continues
  obtain rfl := Outcome.reply.inj (reply.symm.trans same)
  exact ⟨reply, shape, (answers_exact d _).1.mpr ⟨rfl, rfl, rfl⟩⟩

end PolicyVault.Service.Dispatcher
