import PolicyVault.Console.Session
import PolicyVault.Proofs.Console.Dumps
import PolicyVault.Proofs.Service.Agreement
import PolicyVault.Proofs.Service.Calls

/-!
# Reports

A command prints one line for the reply, and below it the bytes of a granted read or the table of a
granted view.

Main statement: `reports_exact`.
-/

namespace PolicyVault

/-! ## One line for each frame -/

namespace Wire.Frame

/-- The text has no line break. -/
def Unbroken (text : String) : Prop := '\n' ∉ text.toList

instance (text : String) : Decidable (Unbroken text) := inferInstanceAs (Decidable (¬ _ ∈ _))

@[simp]
theorem unbroken_append {front back : String} :
    Unbroken (front ++ back) ↔ Unbroken front ∧ Unbroken back := by
  simp [Unbroken]

@[simp]
theorem unbroken_hex (n : Nat) : Unbroken (Text.hex n) := by
  have bare : '\n' ∉ Text.hexDigits n := by
    intro member
    obtain ⟨d, small, same⟩ := Text.mem_toDigits (by decide) member
    have other : ∀ d < 16, '\n' ≠ Nat.digitChar d := by decide
    exact other d small same
  rw [Text.hex, unbroken_append]
  simp [Unbroken, bare]

@[simp]
theorem unbroken_repr (n : Nat) : Unbroken n.repr := by
  intro broken
  have digit := Text.isDigit_toString n '\n' broken
  exact absurd digit (by decide)

@[simp]
theorem unbroken_word (w : UInt32) : Unbroken (toString w) := unbroken_repr w.toNat

variable (f : Frame)

theorem requestText_unbroken (operation : Operation) : Unbroken (f.requestText operation) := by
  unfold requestText
  cases operation <;> simp <;> decide

theorem replyText_unbroken (granted : Bool) (operation : Operation) :
    Unbroken (f.replyText granted operation) := by
  unfold replyText
  cases operation <;> cases granted <;> simp <;> decide

theorem text_unbroken : Unbroken f.text := by
  unfold text
  split
  · simp
    decide
  · rename_i tag known
    have tagged : Unbroken (f.taggedText tag) := by
      unfold taggedText
      cases tag.status with
      | request => exact f.requestText_unbroken tag.operation
      | ack => exact unbroken_append.mpr ⟨f.replyText_unbroken true tag.operation, by decide⟩
      | nak => exact unbroken_append.mpr ⟨f.replyText_unbroken false tag.operation, by decide⟩
    refine unbroken_append.mpr ⟨tagged, ?_⟩
    split
    · decide
    · simp
      decide

end Wire.Frame

namespace Console

open Wire (Request Reply Frame Message Transport)
open Service (Dispatcher Session Caller)
open Service.Dispatcher (Evolved Filled Outcome)

variable {d : Dispatcher} {q : Request} {r : Reply} {command : Command}

/-! ## What is printed below the line -/

/-- What is printed below the line of the reply: the bytes of a granted read, the table of a granted
view or that it is too long, and nothing else. -/
inductive Details (d : Dispatcher) : Request → String → Prop
  | refused {q : Request} {e : Service.Error} (refused : (d.dispatch q).1 = .error e) :
      Details d q ""
  | read {pid address length : UInt32} {r : Reply} {rest : String}
      (granted : (d.dispatch (.read pid address length)).1 = .ok r)
      (bytes : (d.registry.read pid address.toNat length.toNat).1 = .ok r.payload)
      (dumps : Dumps r.payload rest.toList) : Details d (.read pid address length) rest
  | view {pid : UInt32} {r : Reply} {v : Snapshot}
      (granted : (d.dispatch (.view pid)).1 = .ok r) (seen : d.registry.snapshot pid = .ok v) :
      Details d (.view pid)
        (if v.encode.length ≤ Wire.maxPayload then v.table else "view truncated (4096 bytes)\n")
  | plain {q : Request} {r : Reply} (granted : (d.dispatch q).1 = .ok r)
      (reads : q.operation ≠ .read) (views : q.operation ≠ .view) : Details d q ""

theorem data_ne_nil {r s : Registry} (sound : r.Sound) {pid : UInt32} {address length : Nat}
    {bytes : List UInt8}
    (step : Registry.Transition r ⟨.read pid address length, .ok (.data bytes)⟩ s) :
    bytes ≠ [] := by
  cases step with
  | read found live fits =>
    have stored := ((sound.vault found).1.inside live).2.2
    rw [← List.length_pos_iff, List.length_take, stored]
    exact lt_min fits.1 (Nat.lt_of_lt_of_le fits.1 fits.2)

theorem read_ne_nil {r : Registry} (sound : r.Sound) {pid : UInt32} {address length : Nat}
    {bytes : List UInt8} (read : (r.read pid address length).1 = .ok bytes) : bytes ≠ [] := by
  have step := Registry.perform_transition sound (.read pid address length)
  rw [Registry.perform] at step
  rcases result : r.read pid address length with ⟨outcome, s⟩
  rw [result] at read step
  obtain rfl : outcome = .ok bytes := read
  exact data_ne_nil sound step

theorem viewText_take {v : Snapshot} (portable : v.Portable) :
    viewText (v.encode.take Wire.maxPayload) =
      if v.encode.length ≤ Wire.maxPayload then v.table else "view truncated (4096 bytes)\n" := by
  rw [viewText, Snapshot.decode_take portable (by decide)]
  by_cases whole : v.encode.length ≤ Wire.maxPayload
  · rw [if_pos whole, if_pos whole]
  · have length : (v.encode.take Wire.maxPayload).length = 4096 :=
      List.length_take_of_le (Nat.le_of_not_le whole)
    rw [if_neg whole, if_neg whole]
    simp only [length]
    rfl

theorem answer_details (filled : d.Filled) (q : Request) :
    Details d q (if (d.answer q).isAck then payloadText (d.answer q) else "") := by
  cases result : (d.dispatch q).1 with
  | error e =>
    rw [Dispatcher.answer_refused result]
    exact .refused result
  | ok r =>
    have tag : r.tag = ⟨q.operation, .ack⟩ := Dispatcher.dispatch_tag result
    have ack : r.isAck = true := by
      rw [Reply.isAck, tag]
      rfl
    rw [Dispatcher.answer_granted result, ack, if_pos rfl, payloadText, tag]
    cases q with
    | read pid address length =>
      obtain ⟨bytes, read, made⟩ := Dispatcher.serve_ok result
      have payload : r.payload = bytes := by rw [Dispatcher.withPayload_inversion made]
      refine .read result (payload ▸ read) (hexDump_dumps ?_)
      exact payload ▸ read_ne_nil filled.registry read
    | view pid =>
      obtain ⟨v, seen, made⟩ := Dispatcher.serve_ok result
      have payload : r.payload = v.encode.take Wire.maxPayload := by
        rw [Dispatcher.withPayload_inversion made]
      show Details d (.view pid) (viewText r.payload)
      obtain ⟨w, found, rfl⟩ := Dispatcher.exists_of_snapshot seen
      rw [payload, viewText_take (filled.portable found)]
      exact .view result seen
    | _ => exact .plain result nofun nofun

/-- What a command prints of a request: whether it is granted, the reply in one line, and what comes
with it. -/
structure Reported (d : Dispatcher) (q : Request) (p : Printed) : Prop where
  granted : p.granted = true ↔ ∃ r, (d.dispatch q).1 = .ok r
  output : ∃ (f : Frame) (rest : String), (d.respond q).1 = .reply f ∧ '\n' ∉ f.text.toList ∧
    p.output = f.text ++ "\n" ++ rest ∧ Details d q rest

theorem isAck_answer (d : Dispatcher) (q : Request) :
    (d.answer q).isAck = true ↔ ∃ r, (d.dispatch q).1 = .ok r := by
  cases result : (d.dispatch q).1 with
  | error e =>
    rw [Dispatcher.answer_refused result]
    exact ⟨nofun, nofun⟩
  | ok r =>
    rw [Dispatcher.answer_granted result, Reply.isAck, Dispatcher.dispatch_tag result]
    exact ⟨fun _ => ⟨r, rfl⟩, fun _ => rfl⟩

theorem printed_reported (filled : d.Filled) (goes : q ≠ .terminate) :
    Reported d q (printed (some (d.answer q))) where
  granted := isAck_answer d q
  output := by
    have continues : q.operation ≠ .terminate :=
      fun ends => goes (Dispatcher.eq_terminate_of_operation ends)
    refine ⟨(d.answer q).toFrame, _, ?_, Frame.text_unbroken _, rfl, answer_details filled q⟩
    rw [Dispatcher.respond_continues continues]

/-! ## Transports -/

theorem run_answered {σ : Type} {t : Transport σ} {before between after : σ}
    (sends : command.request? = some q) (goes : q ≠ .terminate)
    (submits : Wire.Client.submit t before q = (.ok (), between))
    (receives : Wire.Client.receive t between = (.ok r, after)) :
    run t before command = (.ok (printed (some r)), after) := by
  have continues : q.operation ≠ .terminate :=
    fun ends => goes (Dispatcher.eq_terminate_of_operation ends)
  have call : Wire.Client.call t before q = (.ok (some r), after) := by
    simp only [Wire.Client.call, submits, if_neg continues, receives]
  simp only [run, sends, call]

variable {m : Message}

theorem run_local (sends : command.request? = some q) (goes : q ≠ .terminate)
    (made : Caller.message? q = some m) :
    run Local.transport ⟨d, [], true⟩ command =
      (.ok (printed (some (d.answer q))), ⟨(d.dispatch q).2, [], true⟩) := by
  obtain ⟨f, frame, written⟩ := Caller.message?_eq_some.mp made
  obtain ⟨bytes, reply, -, read⟩ := (d.answer_proper q).readReply
  have handled := Dispatcher.handle_answers (d := d) (Caller.holds_of_message? made) goes
  let replied : Local := ⟨(d.dispatch q).2, [bytes], true⟩
  have sent : Local.transport.send ⟨d, [], true⟩ m = (.ok (), replied) := by
    simp [Local.transport, Local.send, handled, reply, replied]
  have submits : Wire.Client.submit Local.transport ⟨d, [], true⟩ q = (.ok (), replied) := by
    simp only [Wire.Client.submit, frame, Wire.Client.submitFrame, written, sent]
  have receives : Wire.Client.receive Local.transport replied =
      (.ok (d.answer q), ⟨(d.dispatch q).2, [], true⟩) := by
    simp only [Wire.Client.receive, Local.transport, Local.receive, replied, read]
  exact run_answered sends goes submits receives

/-- No message is on its way, and the server waits for the next one. -/
structure Idle (d : Dispatcher) (s : Session) : Prop where
  dispatcher : s.dispatcher = d
  phase : s.phase = .ready
  link : s.link = .fresh

theorem serve_exchange {f : Frame} {next : Dispatcher} {bytes : Message}
    (answers : d.handle m = (.reply f, next)) (written : f.encode = .ok bytes)
    (sent handled received : List Message) :
    Session.serve^[3] ⟨d, .ready, Wire.Link.fresh.push .client m, sent, handled, received⟩ =
      ⟨next, .ready, Wire.Link.fresh.push .server bytes, sent, handled ++ [m], received⟩ := by
  have taken : Session.serve
      ⟨d, .ready, Wire.Link.fresh.push .client m, sent, handled, received⟩ =
        ⟨d, .holding m, .fresh, sent, handled, received⟩ := rfl
  have answered : Session.serve ⟨d, .holding m, .fresh, sent, handled, received⟩ =
      ⟨next, .answering f, .fresh, sent, handled ++ [m], received⟩ := by
    simp only [Session.serve, Session.handle, answers]
  have replied : Session.serve ⟨next, .answering f, .fresh, sent, handled ++ [m], received⟩ =
      ⟨next, .ready, Wire.Link.fresh.push .server bytes, sent, handled ++ [m], received⟩ :=
    Session.reply_written rfl written
  show Session.serve (Session.serve (Session.serve _)) = _
  rw [taken, answered, replied]

theorem serve_idle (bytes : Message) (steps : Nat) (sent handled received : List Message) :
    Session.serve^[steps]
        ⟨d, .ready, Wire.Link.fresh.push .server bytes, sent, handled, received⟩ =
      ⟨d, .ready, Wire.Link.fresh.push .server bytes, sent, handled, received⟩ :=
  Function.iterate_fixed rfl steps

theorem Idle.answered {s : Session} (idle : Idle d s) (sends : command.request? = some q)
    (goes : q ≠ .terminate) (made : Caller.message? q = some m) (steps : Nat) :
    ∃ next, run (Caller.patient (steps + 3)) s command =
      (.ok (printed (some (d.answer q))), next) ∧ Idle (d.dispatch q).2 next := by
  obtain ⟨e, _, _, sent, handled, received⟩ := s
  obtain ⟨rfl, rfl, rfl⟩ := idle
  obtain ⟨bytes, reply, -, read⟩ := (e.answer_proper q).readReply
  have answers := Dispatcher.handle_answers (d := e) (Caller.holds_of_message? made) goes
  have submits := Caller.submit_message (s := ⟨e, .ready, .fresh, sent, handled, received⟩) made rfl
  have receives : Wire.Client.receive (Caller.patient (steps + 3))
      ⟨e, .ready, Wire.Link.fresh.push .client m, sent ++ [m], handled, received⟩ =
        (.ok (e.answer q),
          ⟨(e.dispatch q).2, .ready, .fresh, sent ++ [m], handled ++ [m],
            received ++ [bytes]⟩) := by
    show Wire.Client.receive Session.client (Session.serve^[steps + 3] _) = _
    rw [Function.iterate_add_apply, serve_exchange answers reply, serve_idle]
    exact Caller.receive_reply rfl read
  exact ⟨_, run_answered sends goes submits receives, rfl, rfl, rfl⟩

/-- In every state that a dispatcher can reach, a command whose request fits into a message reports
what the dispatcher makes of the request: over a dispatcher in the same program, and over a link to
a server that takes at least the three steps of an answer. Either is ready for the next command
then. -/
theorem reports_exact {f : Frame} (evolved : Evolved d) (sends : command.request? = some q)
    (made : q.toFrame = .ok f) (goes : q ≠ .terminate) :
    ∃ p, Reported d q p ∧
      run Local.transport ⟨d, [], true⟩ command = (.ok p, ⟨(d.dispatch q).2, [], true⟩) ∧
      ∀ s steps, Idle d s → ∃ next,
        run (Caller.patient (steps + 3)) s command = (.ok p, next) ∧
          Idle (d.dispatch q).2 next := by
  obtain ⟨m, message⟩ := Caller.exists_message made
  refine ⟨_, printed_reported evolved.filled goes, run_local sends goes message, ?_⟩
  intro s steps idle
  exact idle.answered sends goes message steps

/-- Over a link, the four bytes of a new allocation are printed on one line. -/
theorem reports_exact_one_row :
    let d := (Dispatcher.fresh .standard).after (Dispatcher.readOnce.take 2)
    ∃ p next, Reported d (.read 1 0 4) p ∧
      run (Caller.patient 3) (.fresh d) (.request (.read 1 0 4)) = (.ok p, next) ∧
      p = ⟨true, "Read of 0x4 bytes from pid 1 @ 0x0 ACK [4 bytes]\n00000000  00 00 00 00\n"⟩ := by
  intro d
  have evolved : Evolved d := ((Evolved.fresh .standard).handled _).handled _
  have sends : (Command.request (.read 1 0 4)).request? = some (.read 1 0 4) := rfl
  obtain ⟨p, reported, ran, linked⟩ := reports_exact evolved sends rfl nofun
  obtain ⟨next, same, -⟩ := linked (.fresh d) 0 ⟨rfl, rfl, rfl⟩
  have printed : (run Local.transport ⟨d, [], true⟩ (.request (.read 1 0 4))).1 = .ok
      ⟨true, "Read of 0x4 bytes from pid 1 @ 0x0 ACK [4 bytes]\n00000000  00 00 00 00\n"⟩ :=
    Policy.ok_of_toOption (by decide +kernel)
  rw [ran] at printed
  exact ⟨p, next, reported, same, Except.ok.inj printed⟩

end Console

end PolicyVault
