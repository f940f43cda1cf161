import PolicyVault.Proofs.Service.Sessions

/-!
# Calls

A client that only calls waits for each reply before it sends the next request, so there is never
more than one request on its way. Replies do not say what they answer; that each call returns the
reply to its own request follows from the order in which the link keeps them.

Main statement: `Service.Caller.exchanges_paired`.
-/

namespace PolicyVault.Service

open Wire (Request Reply Frame Message ExchangeError Transport)
open Dispatcher (Outcome Holds)

/-- A call that returned, with what it returned. -/
abbrev Returned := Request × Except ExchangeError (Option Reply)

/-- A client that only calls, with the request whose reply it waits for. -/
structure Caller where
  session : Session
  waiting : Option Request
  returned : List Returned

namespace Caller

def fresh (d : Dispatcher) : Caller := ⟨.fresh d, none, []⟩

def finish (c : Caller) (s : Session) (call : Returned) : Caller := ⟨s, none, c.returned ++ [call]⟩

/-- The first half of a call: the request is sent. -/
def call (c : Caller) (q : Request) : Caller :=
  match c.waiting with
  | some _ => c
  | none =>
    match Wire.Client.submit Session.client c.session q with
    | (.error e, s) => c.finish s (q, .error e)
    | (.ok (), s) =>
      if q.operation = .terminate then c.finish s (q, .ok none)
      else { c with session := s, waiting := some q }

/-- The second half of a call: its reply is taken if it is there. -/
def poll (c : Caller) : Caller :=
  match c.waiting with
  | none => c
  | some q =>
    match Wire.Client.receive Session.client c.session with
    | (.error .pending, s) => { c with session := s }
    | (.error e, s) => c.finish s (q, .error e)
    | (.ok r, s) => c.finish s (q, .ok (some r))

def serve (c : Caller) : Caller := { c with session := c.session.serve }

inductive Move
  | call (q : Request)
  | poll
  | serve

def step (c : Caller) : Move → Caller
  | .call q => c.call q
  | .poll => c.poll
  | .serve => c.serve

def after (c : Caller) (moves : List Move) : Caller := moves.foldl step c

variable {d : Dispatcher} {c : Caller} {q : Request} {m bytes : Message}

/-- The client's end of the link, where the server takes some steps before a message is received. -/
def patient (steps : Nat) : Transport Session where
  send := Session.client.send
  receive s := Session.client.receive (Session.serve^[steps] s)

theorem session_serves (c : Caller) (steps : Nat) :
    serve^[steps] c = { c with session := Session.serve^[steps] c.session } := by
  induction steps generalizing c with
  | zero => rfl
  | succ steps ih => exact ih c.serve

/-- The halves of a call, with the server's steps between them, return what a call returns. -/
theorem returned_call (idle : c.waiting = none) (q : Request) (steps : Nat) :
    let result := (Wire.Client.call (patient steps) c.session q).1
    (result = .error .pending ∧ (serve^[steps] (c.call q)).poll.returned = c.returned) ∨
      (serve^[steps] (c.call q)).poll.returned = c.returned ++ [(q, result)] := by
  have submits : Wire.Client.submit (patient steps) c.session q =
      Wire.Client.submit Session.client c.session q := rfl
  rw [session_serves, call, idle, Wire.Client.call, submits]
  rcases Wire.Client.submit Session.client c.session q with ⟨e | ⟨⟩, s⟩
  · exact .inr rfl
  · by_cases ends : q.operation = .terminate
    · simp only [if_pos ends]
      exact .inr rfl
    · simp only [if_neg ends, poll]
      have receives : Wire.Client.receive (patient steps) s =
          Wire.Client.receive Session.client (Session.serve^[steps] s) := rfl
      rw [receives]
      rcases Wire.Client.receive Session.client (Session.serve^[steps] s) with ⟨e | r, t⟩
      · cases e with
        | pending => exact .inl ⟨rfl, rfl⟩
        | wire | transport => exact .inr rfl
      · exact .inr rfl

/-! ## Requests as messages -/

def message? (q : Request) : Option Message := q.toFrame.toOption.bind (·.encode.toOption)

def messages (calls : List Returned) : List Message := calls.filterMap fun call => message? call.1

theorem message?_eq_some :
    message? q = some m ↔ ∃ f, q.toFrame = .ok f ∧ f.encode = .ok m := by
  unfold message?
  cases q.toFrame with
  | error e => simp [Except.toOption]
  | ok f => cases written : f.encode <;> simp [Except.toOption, written]

theorem exists_message {f : Frame} (made : q.toFrame = .ok f) : ∃ m, message? q = some m := by
  obtain ⟨m, written, -⟩ := (Request.canonical_of_toFrame made).decode_encode
  exact ⟨m, message?_eq_some.mpr ⟨f, made, written⟩⟩

theorem holds_of_message? (made : message? q = some m) : Holds m q := by
  obtain ⟨f, frame, written⟩ := message?_eq_some.mp made
  obtain ⟨bytes, same, -, decoded⟩ := (Request.canonical_of_toFrame frame).decode_encode
  obtain rfl := Except.ok.inj (written.symm.trans same)
  exact ⟨f, decoded, Request.ofFrame_toFrame frame⟩

theorem asks_of_message? (made : message? q = some m) (other : q ≠ .terminate) :
    asks m = true := by
  rw [Session.asks_iff]
  exact fun ends => other ((holds_of_message? made).unique ends)

theorem submit_message {s : Session} (made : message? q = some m)
    (serverOpen : s.link.server.isOpen = true) :
    Wire.Client.submit Session.client s q =
      (.ok (), { s with link := s.link.push .client m, sent := s.sent ++ [m] }) := by
  obtain ⟨f, frame, written⟩ := message?_eq_some.mp made
  have sent : s.link.send .client m = (.ok (), s.link.push .client m) :=
    Wire.Link.send_small (Frame.length_of_encode written) serverOpen
  simp only [Wire.Client.submit, frame, Wire.Client.submitFrame, written, Session.client, sent]

theorem submit_none {s : Session} (none : message? q = none) :
    ∃ e, Wire.Client.submit Session.client s q = (.error e, s) := by
  unfold Wire.Client.submit
  cases frame : q.toFrame with
  | error e => exact ⟨_, rfl⟩
  | ok f =>
    obtain ⟨m, made⟩ := exists_message frame
    rw [none] at made
    cases made

theorem receive_reply {s : Session} {rest : List Message} {r : Reply}
    (next : s.link.client.queue = bytes :: rest) (read : Wire.Client.readReply bytes = .ok r) :
    Wire.Client.receive Session.client s =
      (.ok r, { s with link.client.queue := rest, received := s.received ++ [bytes] }) := by
  simp only [Wire.Client.receive, Session.client_receive_cons next, read]

theorem receive_nothing {s : Session} (serverOpen : s.link.server.isOpen = true)
    (empty : s.link.client.queue = []) :
    Wire.Client.receive Session.client s = (.error .pending, s) := by
  rw [Wire.Client.receive, Session.client_receive_nil serverOpen empty]

/-! ## What calls return -/

/-- A call returned the reply to its request, which came after the requests of the calls before. -/
def Answers (d : Dispatcher) (before : List Returned) (q : Request)
    (result : Except ExchangeError (Option Reply)) : Prop :=
  ∃ m r, message? q = some m ∧ ((d.after (messages before)).handle m).1 = .reply r.toFrame ∧
    result = .ok (some r) ∧ r.tag.operation = q.operation ∧ r.pid = q.pid

/-- No request to terminate was called. -/
def Going (calls : List Returned) : Prop := ∀ call ∈ calls, call.1 ≠ .terminate

/-- Up to a request to terminate, each call whose request can be sent returned its reply. -/
def AllAnswered (d : Dispatcher) (calls : List Returned) : Prop :=
  ∀ i q result f, calls[i]? = some (q, result) → q.toFrame = .ok f → Going (calls.take (i + 1)) →
    Answers d (calls.take i) q result

theorem AllAnswered.nil (d : Dispatcher) : AllAnswered d [] := by
  intro i q result f found
  cases found

theorem AllAnswered.concat {calls : List Returned} (all : AllAnswered d calls)
    {result : Except ExchangeError (Option Reply)}
    (last : Going (calls ++ [(q, result)]) → ∀ f, q.toFrame = .ok f → Answers d calls q result) :
    AllAnswered d (calls ++ [(q, result)]) := by
  intro i p other f found made going
  by_cases early : i < calls.length
  · rw [List.getElem?_append_left early] at found
    rw [List.take_append_of_le_length early] at going
    rw [List.take_append_of_le_length early.le]
    exact all i p other f found made going
  · have inside := (List.getElem?_eq_some_iff.mp found).1
    rw [List.length_append, List.length_singleton] at inside
    obtain rfl : i = calls.length := by omega
    rw [List.getElem?_concat_length] at found
    obtain ⟨rfl, rfl⟩ := Prod.mk.inj (Option.some.inj found)
    rw [List.take_left]
    refine last ?_ f made
    rwa [List.take_of_length_le (by simp)] at going

/-- The session of a caller. As long as no call was to terminate, the client sent what its calls
sent, and received a reply to each but the one it waits for. -/
structure Faithful (d : Dispatcher) (c : Caller) : Prop where
  paired : c.session.Paired d
  sent : Going c.returned →
    c.session.sent = messages c.returned ++ (c.waiting.bind message?).toList
  received : Going c.returned → c.session.received.length = (messages c.returned).length
  waits : ∀ q, c.waiting = some q → q ≠ .terminate ∧ ∃ m, message? q = some m
  answers : AllAnswered d c.returned

theorem fresh_faithful (d : Dispatcher) : Faithful d (fresh d) where
  paired := Session.fresh_paired d
  sent := fun _ => rfl
  received := fun _ => rfl
  waits := nofun
  answers := .nil d

theorem messages_concat (calls : List Returned) (call : Returned) :
    messages (calls ++ [call]) = messages calls ++ (message? call.1).toList := by
  rw [messages, List.filterMap_append]
  cases made : message? call.1 <;> simp [messages, made]

theorem asks_messages {calls : List Returned} (going : Going calls) :
    ∀ m ∈ messages calls, asks m = true := by
  intro m member
  obtain ⟨call, called, made⟩ := List.mem_filterMap.mp member
  exact asks_of_message? made (going call called)

variable {rest : List Message}

theorem Faithful.sent_waiting (faithful : Faithful d c) (going : Going c.returned)
    (waiting : c.waiting = some q) (made : message? q = some m) :
    c.session.sent = messages c.returned ++ [m] ∧ ∀ p ∈ c.session.sent, asks p = true := by
  have sent : c.session.sent = messages c.returned ++ [m] := by
    rw [faithful.sent going, waiting, Option.bind_some, made]
    rfl
  have last : asks m = true := asks_of_message? made (faithful.waits q waiting).1
  refine ⟨sent, ?_⟩
  rw [sent]
  exact List.forall_mem_append.mpr ⟨asks_messages going, List.forall_mem_singleton.mpr last⟩

theorem Faithful.next_reply (faithful : Faithful d c) (going : Going c.returned)
    (waiting : c.waiting = some q) (next : c.session.link.client.queue = bytes :: rest) :
    ∃ r, Wire.Client.readReply bytes = .ok r ∧ Answers d c.returned q (.ok (some r)) := by
  obtain ⟨other, m, made⟩ := faithful.waits q waiting
  obtain ⟨sent, asking⟩ := faithful.sent_waiting going waiting made
  have asked : c.session.sent.filter asks = messages c.returned ++ [m] := by
    rw [List.filter_eq_self.mpr asking, sent]
  have last : (c.session.received ++ [bytes])[(messages c.returned).length]? = some bytes := by
    rw [← faithful.received going, List.getElem?_concat_length]
  -- as many replies came before as requests, so the link pairs this one with the last request
  obtain ⟨p, found, f, reply, written⟩ := (faithful.paired.moved (.received next)).answered last
  rw [asked, List.getElem?_concat_length] at found
  rw [asked, List.take_left] at reply
  obtain rfl := Option.some.inj found
  let e := d.after (messages c.returned)
  have answer : (e.handle m).1 = .reply (e.answer q).toFrame := by
    rw [Dispatcher.handle_answers (holds_of_message? made) other]
  obtain rfl := Outcome.reply.inj (answer.symm.trans reply)
  obtain ⟨_, same, -, read⟩ := (e.answer_proper q).readReply
  obtain rfl := Except.ok.inj (written.symm.trans same)
  exact ⟨e.answer q, read, m, e.answer q, made, answer, rfl, e.answer_operation q, e.answer_pid q⟩

theorem Faithful.poll_reply (faithful : Faithful d c) (going : Going c.returned)
    (waiting : c.waiting = some q) (next : c.session.link.client.queue = bytes :: rest) :
    ∃ result, Answers d c.returned q result ∧
      c.poll = c.finish { c.session with
        link.client.queue := rest
        received := c.session.received ++ [bytes] } (q, result) := by
  obtain ⟨r, read, answers⟩ := faithful.next_reply going waiting next
  refine ⟨_, answers, ?_⟩
  simp only [poll, waiting, receive_reply next read]

theorem Faithful.finish_reply (faithful : Faithful d c) (going : Going c.returned)
    (waiting : c.waiting = some q) (next : c.session.link.client.queue = bytes :: rest)
    {result : Except ExchangeError (Option Reply)} (answers : Answers d c.returned q result) :
    Faithful d (c.finish { c.session with
      link.client.queue := rest
      received := c.session.received ++ [bytes] } (q, result)) := by
  obtain ⟨other, m, made⟩ := faithful.waits q waiting
  refine ⟨faithful.paired.moved (.received next), fun _ => ?_, fun _ => ?_, nofun, ?_⟩
  · show c.session.sent = messages (c.returned ++ [(q, result)]) ++ []
    rw [faithful.sent going, waiting, messages_concat, List.append_nil]
    rfl
  · show (c.session.received ++ [bytes]).length = (messages (c.returned ++ [(q, result)])).length
    rw [messages_concat, made, List.length_append, List.length_append, faithful.received going]
    rfl
  · exact faithful.answers.concat fun _ _ _ => answers

theorem Faithful.finish_ended (faithful : Faithful d c) {s : Session} (paired : s.Paired d)
    {result : Except ExchangeError (Option Reply)}
    (ended : ¬ Going (c.returned ++ [(q, result)])) : Faithful d (c.finish s (q, result)) where
  paired := paired
  sent := fun going => absurd going ended
  received := fun going => absurd going ended
  waits := nofun
  answers := faithful.answers.concat fun going => absurd going ended

theorem Faithful.finish_unsent (faithful : Faithful d c) (idle : c.waiting = none)
    (unmade : message? q = none) (e : ExchangeError) :
    Faithful d (c.finish c.session (q, .error e)) := by
  have earlier : Going (c.returned ++ [(q, .error e)]) → Going c.returned :=
    fun going call member => going call (List.mem_append_left _ member)
  have same : messages (c.returned ++ [(q, .error e)]) = messages c.returned := by
    rw [messages_concat, unmade]
    exact List.append_nil _
  refine ⟨faithful.paired, fun going => ?_, fun going => ?_, nofun, ?_⟩
  · have sent := faithful.sent (earlier going)
    rw [idle] at sent
    rw [finish, same]
    exact sent
  · rw [finish, same]
    exact faithful.received (earlier going)
  · apply faithful.answers.concat
    intro _ f made
    obtain ⟨m, some⟩ := exists_message made
    rw [unmade] at some
    cases some

theorem Faithful.call (faithful : Faithful d c) (q : Request) : Faithful d (c.call q) := by
  unfold Caller.call
  cases idle : c.waiting with
  | some p => exact faithful
  | none =>
    cases made : message? q with
    | none =>
      obtain ⟨e, failed⟩ := submit_none made
      rw [failed]
      exact faithful.finish_unsent idle made e
    | some m =>
      rw [submit_message made faithful.paired.serverOpen]
      have paired := faithful.paired.moved (.sent m)
      by_cases ends : q.operation = .terminate
      · simp only [if_pos ends]
        apply faithful.finish_ended paired
        intro going
        exact going _ (List.mem_append_right _ (List.mem_singleton_self _))
          (Dispatcher.eq_terminate_of_operation ends)
      · simp only [if_neg ends]
        refine ⟨paired, fun going => ?_, faithful.received, ?_, faithful.answers⟩
        · have sent := faithful.sent going
          rw [idle, Option.bind_none, Option.toList_none, List.append_nil] at sent
          show c.session.sent ++ [m] = messages c.returned ++ ((some q).bind message?).toList
          rw [sent, Option.bind_some, made]
          rfl
        · rintro _ ⟨⟩
          exact ⟨fun terminates => ends (congrArg Request.operation terminates), m, made⟩

theorem poll_cases (waiting : c.waiting = some q) :
    c.poll = { c with session := (Wire.Client.receive Session.client c.session).2 } ∨
      ∃ result, c.poll =
        c.finish (Wire.Client.receive Session.client c.session).2 (q, result) := by
  simp only [poll, waiting]
  rcases Wire.Client.receive Session.client c.session with ⟨e | r, s⟩
  · cases e with
    | pending => exact .inl rfl
    | wire | transport => exact .inr ⟨_, rfl⟩
  · exact .inr ⟨_, rfl⟩

theorem Faithful.poll (faithful : Faithful d c) : Faithful d c.poll := by
  cases waiting : c.waiting with
  | none =>
    rw [Caller.poll, waiting]
    exact faithful
  | some q =>
    by_cases going : Going c.returned
    · cases next : c.session.link.client.queue with
      | nil =>
        have idle : c.poll = c := by
          simp only [Caller.poll, waiting, receive_nothing faithful.paired.serverOpen next]
          rw [← waiting]
        rw [idle]
        exact faithful
      | cons bytes rest =>
        obtain ⟨result, answers, returned⟩ := faithful.poll_reply going waiting next
        rw [returned]
        exact faithful.finish_reply going waiting next answers
    · have paired := faithful.paired.moved (Session.receive_moved faithful.paired.serverOpen)
      obtain same | ⟨result, returned⟩ := poll_cases waiting
      · rw [same]
        exact ⟨paired, fun some => absurd some going, fun some => absurd some going,
          faithful.waits, faithful.answers⟩
      · rw [returned]
        apply faithful.finish_ended paired
        exact fun all => going fun call member => all call (List.mem_append_left _ member)

theorem Faithful.serve (faithful : Faithful d c) : Faithful d c.serve := by
  refine ⟨faithful.paired.serve, ?_, ?_, faithful.waits, faithful.answers⟩
  · rw [Caller.serve, Session.serve_sent]
    exact faithful.sent
  · rw [Caller.serve, Session.serve_received]
    exact faithful.received

theorem Faithful.after (faithful : Faithful d c) (moves : List Move) :
    Faithful d (c.after moves) := by
  induction moves generalizing c with
  | nil => exact faithful
  | cons move rest ih =>
    cases move with
    | call q => exact ih (faithful.call q)
    | poll => exact ih faithful.poll
    | serve => exact ih faithful.serve

/-- Three steps of the server bring the reply that the client waits for. -/
theorem Faithful.arrives (faithful : Faithful d c) (going : Going c.returned)
    (waiting : c.waiting = some q) :
    ∃ bytes rest, c.serve.serve.serve.session.link.client.queue = bytes :: rest := by
  obtain ⟨-, m, made⟩ := faithful.waits q waiting
  obtain ⟨sent, asking⟩ := faithful.sent_waiting going waiting made
  have first := faithful.paired.serve
  have second := first.serve
  have third := second.serve
  have ahead : c.session.sent.length = c.session.received.length + 1 := by
    rw [sent, faithful.received going, List.length_append, List.length_singleton]
  have before := faithful.paired.balance asking
  have one := faithful.paired.serve_work asking
  have two := first.serve_work (by rwa [Session.serve_sent])
  have three := second.serve_work (by rwa [Session.serve_sent, Session.serve_sent])
  have behind := third.balance (by rwa [Session.serve_sent, Session.serve_sent, Session.serve_sent])
  simp only [Session.serve_sent, Session.serve_received] at behind
  have arrived : 0 < c.serve.serve.serve.session.link.client.queue.length := by
    simp only [Session.work] at one two three
    simp only [Caller.serve]
    omega
  exact List.exists_cons_of_length_pos arrived

theorem Faithful.returns (faithful : Faithful d c) (going : Going c.returned)
    (waiting : c.waiting = some q) :
    ∃ result, c.serve.serve.serve.poll.returned = c.returned ++ [(q, result)] := by
  obtain ⟨bytes, rest, next⟩ := faithful.arrives going waiting
  obtain ⟨result, -, returned⟩ := faithful.serve.serve.serve.poll_reply going waiting next
  rw [returned]
  exact ⟨result, rfl⟩

theorem Faithful.serves (faithful : Faithful d c) (steps : Nat) :
    Faithful d (Caller.serve^[steps] c) := by
  induction steps generalizing c with
  | zero => exact faithful
  | succ steps ih => exact ih faithful.serve

theorem call_waits (idle : c.waiting = none) (made : message? q = some m) (other : q ≠ .terminate)
    (serverOpen : c.session.link.server.isOpen = true) :
    ∃ s, c.call q = ⟨s, some q, c.returned⟩ := by
  have goes : q.operation ≠ .terminate :=
    fun ends => other (Dispatcher.eq_terminate_of_operation ends)
  rw [call, idle, submit_message made serverOpen]
  simp only [if_neg goes]
  exact ⟨_, rfl⟩

/-- A call during which the server takes at least three steps returns the reply to its request. -/
theorem Faithful.call_answers (faithful : Faithful d c) (idle : c.waiting = none)
    (going : Going c.returned) (other : q ≠ .terminate) {f : Frame} (made : q.toFrame = .ok f)
    (steps : Nat) :
    Answers d c.returned q (Wire.Client.call (patient (steps + 3)) c.session q).1 := by
  obtain ⟨m, message⟩ := exists_message made
  obtain ⟨s, called⟩ := call_waits idle message other faithful.paired.serverOpen
  have waits : Caller.serve^[steps] (c.call q) = ⟨Session.serve^[steps] s, some q, c.returned⟩ := by
    rw [session_serves, called]
  have begun := (faithful.call q).serves steps
  have rounds : Caller.serve^[steps + 3] (c.call q) =
      (Caller.serve^[steps] (c.call q)).serve.serve.serve := by
    rw [Nat.add_comm, Function.iterate_add_apply]
    rfl
  rw [waits] at begun rounds
  obtain ⟨bytes, rest, next⟩ := begun.arrives going rfl
  obtain ⟨result, answers, polled⟩ := begun.serve.serve.serve.poll_reply going rfl next
  have returned : (Caller.serve^[steps + 3] (c.call q)).poll.returned =
      c.returned ++ [(q, result)] := by
    rw [rounds, polled]
    rfl
  obtain ⟨-, kept⟩ | same := returned_call idle q (steps + 3)
  · rw [kept] at returned
    exact absurd returned (by simp)
  · rw [same] at returned
    obtain ⟨-, last⟩ := List.append_inj returned rfl
    obtain ⟨-, rfl⟩ := Prod.mk.inj (List.singleton_inj.mp last)
    exact answers

/-- Whatever a client sends and in whatever order client and server take their steps, the messages
that the client receives are the answers to those it sent that are not to terminate, in order and
without a gap; the rest is still on its way, and nothing is handled after a request to terminate.
Calls made before such a request return the replies to their own requests, and each of them returns
as soon as the server has taken three steps. -/
theorem exchanges_paired (d : Dispatcher) :
    (∀ moves : List Session.Move,
      let s := (Session.fresh d).after moves
      s.Paired d ∧ ∀ k bytes, s.received[k]? = some bytes →
        ∃ m, (s.sent.filter asks)[k]? = some m ∧
          ((d.after ((s.sent.filter asks).take k)).handle m).1.Writes bytes) ∧
    ∀ moves : List Move,
      let c := (fresh d).after moves
      AllAnswered d c.returned ∧
      (∀ q, c.waiting = some q → Going c.returned →
        ∃ result, c.serve.serve.serve.poll.returned = c.returned ++ [(q, result)]) ∧
      ∀ q f steps, c.waiting = none → Going c.returned → q ≠ .terminate → q.toFrame = .ok f →
        Answers d c.returned q (Wire.Client.call (patient (steps + 3)) c.session q).1 := by
  refine ⟨fun moves => ?_, fun moves => ?_⟩
  · have paired := (Session.fresh_paired d).after moves
    exact ⟨paired, fun k bytes received => paired.answered received⟩
  · have faithful := (fresh_faithful d).after moves
    refine ⟨faithful.answers, fun q waiting going => faithful.returns going waiting, ?_⟩
    exact fun q f steps idle going other made => faithful.call_answers idle going other made steps

/-- A call for nothing and then a call for a view that is refused, with the server's steps before
and after the first attempt to take the reply. -/
theorem exchanges_paired_two_calls :
    let d := Dispatcher.fresh .standard
    let c := (fresh d).after
      [.call .nil, .serve, .poll, .serve, .serve, .poll, .call (.view 1), .serve, .serve, .serve,
        .poll]
    let refused : Reply := ⟨⟨.view, .nak⟩, 1, 0, 0, []⟩
    c.returned = [(.nil, .ok (some ⟨⟨.nil, .ack⟩, 0, 0, 0, []⟩)), (.view 1, .ok (some refused))] ∧
      Answers d [(.nil, .ok (some ⟨⟨.nil, .ack⟩, 0, 0, 0, []⟩))] (.view 1) (.ok (some refused)) := by
  intro d c refused
  have returned : c.returned =
      [(.nil, .ok (some ⟨⟨.nil, .ack⟩, 0, 0, 0, []⟩)), (.view 1, .ok (some refused))] := by
    decide +kernel
  have answers := ((exchanges_paired d).2
    [.call .nil, .serve, .poll, .serve, .serve, .poll, .call (.view 1), .serve, .serve, .serve,
      .poll]).1
  refine ⟨returned, ?_⟩
  have all : AllAnswered d c.returned := answers
  rw [returned] at all
  exact all 1 _ _ _ rfl rfl (by simp [Going])

end Caller

end PolicyVault.Service
