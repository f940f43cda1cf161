import PolicyVault.Proofs.Service.Serving
import PolicyVault.Wire.Client

/-!
# Sessions

A client and a server at the two ends of a link, each taking its steps in any order. The server
takes a message, handles it and sends its reply in three steps, and the client can come in between.
Nothing on the link is lost: what the client sent is handled or still on its way, and so is every
reply.
-/

namespace PolicyVault.Wire.Link

variable {l : Link} {source here : End} {m : Message} {rest : List Message}

def push (l : Link) (source : End) (m : Message) : Link :=
  l.setMailbox source.other
    { l.mailbox source.other with queue := (l.mailbox source.other).queue ++ [m] }

theorem send_small (small : m.length ≤ maxMessage)
    (isOpen : (l.mailbox source.other).isOpen = true) :
    l.send source m = (.ok (), l.push source m) := by
  unfold send
  rw [if_neg (Nat.not_lt.mpr small), if_pos isOpen, push]

theorem send_cases (l : Link) (source : End) (m : Message) :
    (∃ e, l.send source m = (.error e, l)) ∨ l.send source m = (.ok (), l.push source m) := by
  by_cases large : maxMessage < m.length
  · exact .inl ⟨_, if_pos large⟩
  · cases isOpen : (l.mailbox source.other).isOpen with
    | true => exact .inr (send_small (Nat.not_lt.mp large) isOpen)
    | false =>
      simp only [send, if_neg large, isOpen, Bool.false_eq_true, if_false]
      exact .inl ⟨_, rfl⟩

theorem receive_cons (next : (l.mailbox here).queue = m :: rest) :
    l.receive here = (.message m, l.setMailbox here { l.mailbox here with queue := rest }) := by
  simp only [receive, next]

theorem receive_nil (empty : (l.mailbox here).queue = [])
    (isOpen : (l.mailbox here.other).isOpen = true) : l.receive here = (.nothing, l) := by
  simp only [receive, empty, isOpen, if_true]

end PolicyVault.Wire.Link

namespace PolicyVault.Service

open Wire (Request Frame Message Link Transport TransportError)
open Dispatcher (Outcome Holds request?)

/-- Whether a message is no request to terminate. -/
def asks (m : Message) : Bool := request? m != some .terminate

/-- Where the server stands between two messages. -/
inductive Phase
  | ready
  | holding (m : Message)
  | answering (f : Frame)
  | stopped
  deriving DecidableEq, Repr

namespace Phase

def held : Phase → List Message
  | .holding m => [m]
  | _ => []

def outgoing : Phase → List Message
  | .answering f => f.encode.toOption.toList
  | _ => []

end Phase

/-- A link with its server, and a record of what the client sent, the server handled and the
client received. -/
structure Session where
  dispatcher : Dispatcher
  phase : Phase
  link : Link
  sent : List Message
  handled : List Message
  received : List Message

namespace Session

def fresh (d : Dispatcher) : Session := ⟨d, .ready, .fresh, [], [], []⟩

/-- The client's end of the link. -/
def client : Transport Session where
  send s m :=
    match s.link.send .client m with
    | (.error e, l) => (.error e, { s with link := l })
    | (.ok (), l) => (.ok (), { s with link := l, sent := s.sent ++ [m] })
  receive s :=
    match s.link.receive .client with
    | (.message m, l) => (.message m, { s with link := l, received := s.received ++ [m] })
    | (delivery, l) => (delivery, { s with link := l })

def take (s : Session) : Session :=
  match s.link.receive .server with
  | (.message m, l) => { s with link := l, phase := .holding m }
  | (_, l) => { s with link := l }

def handle (s : Session) (m : Message) : Session :=
  match s.dispatcher.handle m with
  | (.terminate, d) =>
    { s with dispatcher := d, phase := .stopped, handled := s.handled ++ [m] }
  | (.reply f, d) =>
    { s with dispatcher := d, phase := .answering f, handled := s.handled ++ [m] }

def reply (s : Session) (f : Frame) : Session :=
  match f.encode with
  | .error _ => { s with phase := .ready }
  | .ok bytes => { s with link := (s.link.send .server bytes).2, phase := .ready }

def serve (s : Session) : Session :=
  match s.phase with
  | .ready => s.take
  | .holding m => s.handle m
  | .answering f => s.reply f
  | .stopped => s

inductive Move
  | submit (q : Request)
  | submitFrame (f : Frame)
  | send (m : Message)
  | receive
  | serve

def step (s : Session) : Move → Session
  | .submit q => (Wire.Client.submit client s q).2
  | .submitFrame f => (Wire.Client.submitFrame client s f).2
  | .send m => (client.send s m).2
  | .receive => (Wire.Client.receive client s).2
  | .serve => s.serve

def after (s : Session) (moves : List Move) : Session := moves.foldl step s

variable {d : Dispatcher} {s t : Session} {m bytes : Message} {f : Frame} {rest : List Message}

/-! ## The client's moves -/

/-- All that a move of the client can do while both ends are open: nothing, send a message, or
receive the next one. -/
inductive Moved (s : Session) : Session → Prop
  | idle : Moved s s
  | sent (m : Message) : Moved s { s with link := s.link.push .client m, sent := s.sent ++ [m] }
  | received {m : Message} {rest : List Message} (next : s.link.client.queue = m :: rest) :
      Moved s { s with link.client.queue := rest, received := s.received ++ [m] }

theorem client_send (s : Session) (m : Message) : Moved s (client.send s m).2 := by
  obtain ⟨e, failed⟩ | sent := s.link.send_cases .client m
  · simp only [client, failed]
    exact .idle
  · simp only [client, sent]
    exact .sent m

theorem client_receive_nil (serverOpen : s.link.server.isOpen = true)
    (empty : s.link.client.queue = []) : client.receive s = (.nothing, s) := by
  have idle : s.link.receive .client = (.nothing, s.link) := Link.receive_nil empty serverOpen
  simp only [client, idle]

theorem client_receive_cons (next : s.link.client.queue = m :: rest) :
    client.receive s =
      (.message m, { s with link.client.queue := rest, received := s.received ++ [m] }) := by
  have taken : s.link.receive .client = (.message m, { s.link with client.queue := rest }) :=
    Link.receive_cons next
  simp only [client, taken]

theorem client_receive (serverOpen : s.link.server.isOpen = true) :
    Moved s (client.receive s).2 := by
  cases next : s.link.client.queue with
  | cons m rest =>
    rw [client_receive_cons next]
    exact .received next
  | nil =>
    rw [client_receive_nil serverOpen next]
    exact .idle

theorem submitFrame_moved (s : Session) (f : Frame) :
    Moved s (Wire.Client.submitFrame client s f).2 := by
  unfold Wire.Client.submitFrame
  cases f.encode with
  | error e => exact .idle
  | ok m =>
    have moved := client_send s m
    rcases result : client.send s m with ⟨failed | done, t⟩ <;> simpa only [result] using moved

theorem submit_moved (s : Session) (q : Request) : Moved s (Wire.Client.submit client s q).2 := by
  unfold Wire.Client.submit
  cases q.toFrame with
  | error e => exact .idle
  | ok f => exact submitFrame_moved s f

theorem receive_moved (serverOpen : s.link.server.isOpen = true) :
    Moved s (Wire.Client.receive client s).2 := by
  have moved := client_receive serverOpen
  unfold Wire.Client.receive
  cases result : client.receive s with
  | mk delivery t =>
    rw [result] at moved
    cases delivery with
    | nothing | failed => exact moved
    | message m =>
      cases read : Wire.Client.readReply m <;> simp only [read] <;> exact moved

/-! ## The server's steps -/

theorem take_nil (clientOpen : s.link.client.isOpen = true) (empty : s.link.server.queue = []) :
    s.take = s := by
  have idle : s.link.receive .server = _ := Link.receive_nil empty clientOpen
  rw [take, idle]

theorem take_cons (next : s.link.server.queue = m :: rest) :
    s.take = { s with link.server.queue := rest, phase := .holding m } := by
  have taken : s.link.receive .server = _ := Link.receive_cons next
  rw [take, taken]
  rfl

theorem handle_terminate (holds : Holds m .terminate) :
    s.handle m = { s with phase := .stopped, handled := s.handled ++ [m] } := by
  rw [handle, Dispatcher.handle_terminates holds]

theorem handle_reply (replies : (s.dispatcher.handle m).1 = .reply f) :
    s.handle m =
      { s with
        dispatcher := (s.dispatcher.handle m).2
        phase := .answering f
        handled := s.handled ++ [m] } := by
  have answer : s.dispatcher.handle m = (.reply f, (s.dispatcher.handle m).2) :=
    Prod.ext replies rfl
  rw [handle, answer]

theorem reply_written (clientOpen : s.link.client.isOpen = true) (written : f.encode = .ok bytes) :
    s.reply f = { s with link := s.link.push .server bytes, phase := .ready } := by
  have small : bytes.length ≤ Wire.maxMessage := Frame.length_of_encode written
  have sent : s.link.send .server bytes = _ := Link.send_small small clientOpen
  simp only [reply, written, sent]

/-- From the arrival of a message on, three steps do what a turn of the server does. -/
theorem serve_turn (ready : s.phase = .ready) (next : s.link.server.queue = m :: rest) :
    s.serve.serve.serve =
      { s with
        dispatcher := (Server.serveOne s.dispatcher s.link).2.1
        phase := if (Server.serveOne s.dispatcher s.link).1 then .ready else .stopped
        link := (Server.serveOne s.dispatcher s.link).2.2
        handled := s.handled ++ [m] } := by
  have taken : s.serve = { s with link.server.queue := rest, phase := .holding m } := by
    rw [serve, ready]
    exact take_cons next
  have arrived : s.link.receive .server = (.message m, { s.link with server.queue := rest }) :=
    Link.receive_cons next
  rw [taken, Server.serveOne, arrived]
  rcases answer : s.dispatcher.handle m with ⟨f | _, d⟩
  · cases written : f.encode with
    | error e => simp [serve, handle, reply, answer, written]
    | ok bytes => simp [serve, handle, reply, answer, written]
  · simp [serve, handle, answer]

/-! ## What the link keeps -/

/-- What becomes of the messages that `d` handles, one after another. -/
def outcomes (d : Dispatcher) (messages : List Message) : List Outcome :=
  (d.exchanges messages).map (·.2)

theorem outcomes_append (d : Dispatcher) (before : List Message) (m : Message) :
    outcomes d (before ++ [m]) = outcomes d before ++ [((d.after before).handle m).1] := by
  induction before generalizing d with
  | nil => rfl
  | cons p rest ih => exact congrArg (_ :: ·) (ih (d.handle p).2)

/-- The client's messages and the server's replies are where they have to be, for a dispatcher that
was `d` at first. -/
structure Paired (d : Dispatcher) (s : Session) : Prop where
  clientOpen : s.link.client.isOpen = true
  serverOpen : s.link.server.isOpen = true
  dispatcher : s.dispatcher = d.after (s.handled.filter asks)
  requests : s.sent = s.handled ++ s.phase.held ++ s.link.server.queue
  replies : List.Forall₂ Outcome.Writes (outcomes d (s.handled.filter asks))
    (s.received ++ s.link.client.queue ++ s.phase.outgoing)
  writable : ∀ f, s.phase = .answering f → ∃ bytes, f.encode = .ok bytes
  stops : s.phase = .stopped ↔ ∃ m ∈ s.handled, asks m = false
  last : ∀ m ∈ s.handled.dropLast, asks m = true

theorem fresh_paired (d : Dispatcher) : Paired d (fresh d) where
  clientOpen := rfl
  serverOpen := rfl
  dispatcher := rfl
  requests := rfl
  replies := .nil
  writable := nofun
  stops := ⟨nofun, nofun⟩
  last := nofun

theorem Paired.moved (paired : Paired d s) (moved : Moved s t) : Paired d t := by
  obtain ⟨clientOpen, serverOpen, dispatcher, requests, replies, writable, stops, last⟩ := paired
  cases moved with
  | idle => exact ⟨clientOpen, serverOpen, dispatcher, requests, replies, writable, stops, last⟩
  | sent m =>
    refine ⟨clientOpen, serverOpen, dispatcher, ?_, replies, writable, stops, last⟩
    show s.sent ++ [m] = s.handled ++ s.phase.held ++ (s.link.server.queue ++ [m])
    rw [requests, List.append_assoc]
  | received next =>
    refine ⟨clientOpen, serverOpen, dispatcher, requests, ?_, writable, stops, last⟩
    rw [next] at replies
    simpa only [List.append_assoc, List.singleton_append] using replies

theorem Paired.running (paired : Paired d s) (goes : s.phase ≠ .stopped) :
    ¬ ∃ m ∈ s.handled, asks m = false :=
  fun found => goes (paired.stops.mpr found)

theorem Paired.take (paired : Paired d s) (ready : s.phase = .ready) : Paired d s.take := by
  have running := paired.running (by rw [ready]; nofun)
  obtain ⟨clientOpen, serverOpen, dispatcher, requests, replies, writable, stops, last⟩ := paired
  cases next : s.link.server.queue with
  | nil =>
    rw [take_nil clientOpen next]
    exact ⟨clientOpen, serverOpen, dispatcher, requests, replies, writable, stops, last⟩
  | cons m rest =>
    rw [take_cons next]
    refine ⟨clientOpen, serverOpen, dispatcher, ?_, ?_, nofun, iff_of_false nofun running, last⟩
    · rw [requests, ready, next]
      simp [Phase.held]
    · rw [ready] at replies
      exact replies

theorem asks_iff : asks m = true ↔ ¬ Holds m .terminate := by
  rw [Dispatcher.holds_iff]
  simp [asks]

theorem Paired.handle (paired : Paired d s) (holding : s.phase = .holding m) :
    Paired d (s.handle m) := by
  have running := paired.running (by rw [holding]; nofun)
  obtain ⟨clientOpen, serverOpen, dispatcher, requests, replies, -, -, -⟩ := paired
  have requested : s.sent = s.handled ++ [m] ++ [] ++ s.link.server.queue := by
    rw [requests, holding, Phase.held, List.append_nil]
  have before : ∀ p ∈ (s.handled ++ [m]).dropLast, asks p = true := by
    intro p member
    rw [List.dropLast_concat] at member
    exact Bool.eq_true_of_not_eq_false fun stops => running ⟨p, member, stops⟩
  rw [holding] at replies
  by_cases ends : Holds m .terminate
  · have stops : asks m = false := Bool.eq_false_of_not_eq_true fun asking => asks_iff.mp asking ends
    have dropped : (s.handled ++ [m]).filter asks = s.handled.filter asks := by
      rw [List.filter_append, List.filter_singleton, stops]
      exact List.append_nil _
    rw [handle_terminate ends]
    refine ⟨clientOpen, serverOpen, ?_, requested, ?_, nofun, iff_of_true rfl ?_, before⟩
    · rw [dropped]
      exact dispatcher
    · rw [dropped]
      exact replies
    · exact ⟨m, List.mem_append_right _ (List.mem_singleton_self m), stops⟩
  · obtain ⟨f, answer, -⟩ := Dispatcher.exists_answer (d := s.dispatcher) ends
    -- the answer can be written, so it takes its place behind the replies on their way
    obtain ⟨bytes, written, -⟩ := Dispatcher.exists_written answer
    have asking : asks m = true := asks_iff.mpr ends
    have asked : (s.handled ++ [m]).filter asks = s.handled.filter asks ++ [m] := by
      rw [List.filter_append, List.filter_singleton, asking]
      rfl
    rw [handle_reply answer]
    refine ⟨clientOpen, serverOpen, ?_, requested, ?_, ?_, iff_of_false nofun ?_, before⟩
    · rw [asked, dispatcher, Dispatcher.after, Dispatcher.after, List.foldl_append]
      rfl
    · rw [asked, outcomes_append, ← dispatcher, Phase.outgoing, written]
      simp only [Phase.outgoing, List.append_nil] at replies
      exact List.rel_append replies (.cons ⟨f, answer, written⟩ .nil)
    · rintro _ ⟨⟩
      exact ⟨bytes, written⟩
    · rintro ⟨p, member, stops⟩
      obtain earlier | last := List.mem_append.mp member
      · exact running ⟨p, earlier, stops⟩
      · rw [List.mem_singleton.mp last, asking] at stops
        cases stops

theorem Paired.reply (paired : Paired d s) (answering : s.phase = .answering f) :
    Paired d (s.reply f) := by
  have running := paired.running (by rw [answering]; nofun)
  obtain ⟨clientOpen, serverOpen, dispatcher, requests, replies, writable, -, last⟩ := paired
  obtain ⟨bytes, written⟩ := writable f answering
  rw [answering] at requests replies
  rw [reply_written clientOpen written]
  refine ⟨clientOpen, serverOpen, dispatcher, requests, ?_, nofun, iff_of_false nofun running, last⟩
  rw [Phase.outgoing, written] at replies
  show List.Forall₂ _ _ (s.received ++ (s.link.client.queue ++ [bytes]) ++ [])
  rw [List.append_nil, ← List.append_assoc]
  exact replies

theorem Paired.serve (paired : Paired d s) : Paired d s.serve := by
  unfold Session.serve
  cases phase : s.phase with
  | ready => exact paired.take phase
  | holding m => exact paired.handle phase
  | answering f => exact paired.reply phase
  | stopped => exact paired

theorem Paired.step (paired : Paired d s) (move : Move) : Paired d (s.step move) := by
  cases move with
  | submit q => exact paired.moved (submit_moved s q)
  | submitFrame f => exact paired.moved (submitFrame_moved s f)
  | send m => exact paired.moved (client_send s m)
  | receive => exact paired.moved (receive_moved paired.serverOpen)
  | serve => exact paired.serve

theorem Paired.after (paired : Paired d s) (moves : List Move) : Paired d (s.after moves) := by
  induction moves generalizing s with
  | nil => exact paired
  | cons move rest ih => exact ih (paired.step move)

/-! ## What the client receives -/

theorem getElem?_outcomes (d : Dispatcher) (messages : List Message) (k : Nat) :
    (outcomes d messages)[k]? =
      messages[k]?.map fun m => ((d.after (messages.take k)).handle m).1 := by
  induction messages generalizing d k with
  | nil => rfl
  | cons m rest ih =>
    cases k with
    | zero => rfl
    | succ k => exact ih (d.handle m).2 k

theorem getElem?_of_forall₂ {α β : Type} {R : α → β → Prop} {as : List α} {bs : List β} {k : Nat}
    {b : β} (related : List.Forall₂ R as bs) (found : bs[k]? = some b) :
    ∃ a, as[k]? = some a ∧ R a b := by
  obtain ⟨inside, rfl⟩ := List.getElem?_eq_some_iff.mp found
  have within : k < as.length := related.length_eq ▸ inside
  exact ⟨as[k], List.getElem?_eq_getElem within, related.get within inside⟩

theorem Paired.asked (paired : Paired d s) :
    ∃ rest, s.sent.filter asks = s.handled.filter asks ++ rest := by
  rw [paired.requests, List.append_assoc, List.filter_append]
  exact ⟨_, rfl⟩

theorem Paired.answered (paired : Paired d s) {k : Nat} (received : s.received[k]? = some bytes) :
    ∃ m, (s.sent.filter asks)[k]? = some m ∧
      ((d.after ((s.sent.filter asks).take k)).handle m).1.Writes bytes := by
  have early : (s.received ++ s.link.client.queue ++ s.phase.outgoing)[k]? = some bytes := by
    rw [List.append_assoc, List.getElem?_append_left (List.getElem?_eq_some_iff.mp received).1]
    exact received
  obtain ⟨outcome, found, writes⟩ := getElem?_of_forall₂ paired.replies early
  rw [getElem?_outcomes] at found
  obtain ⟨m, handled, rfl⟩ := Option.map_eq_some_iff.mp found
  obtain ⟨rest, sent⟩ := paired.asked
  have short : k < (s.handled.filter asks).length := (List.getElem?_eq_some_iff.mp handled).1
  rw [sent, List.getElem?_append_left short, List.take_append_of_le_length short.le]
  exact ⟨m, handled, writes⟩

/-! ## How long the server takes -/

theorem serve_sent (s : Session) : s.serve.sent = s.sent := by
  unfold serve take handle reply
  repeat' split
  all_goals rfl

theorem serve_received (s : Session) : s.serve.received = s.received := by
  unfold serve take handle reply
  repeat' split
  all_goals rfl

/-- The steps the server still has to take if no request is to terminate. -/
def work (s : Session) : Nat :=
  3 * s.link.server.queue.length + 2 * s.phase.held.length + s.phase.outgoing.length

theorem Paired.balance (paired : Paired d s) (asking : ∀ m ∈ s.sent, asks m = true) :
    s.sent.length = s.received.length + s.link.client.queue.length + s.phase.outgoing.length
      + s.phase.held.length + s.link.server.queue.length := by
  have requests := paired.requests
  have all : s.handled.filter asks = s.handled := by
    rw [List.filter_eq_self]
    intro m member
    apply asking
    rw [requests, List.append_assoc]
    exact List.mem_append_left _ member
  have lengths := paired.replies.length_eq
  rw [all, outcomes, List.length_map, Dispatcher.length_exchanges, List.length_append,
    List.length_append] at lengths
  rw [requests, List.length_append, List.length_append, lengths]

theorem Paired.serve_work (paired : Paired d s) (asking : ∀ m ∈ s.sent, asks m = true) :
    s.serve.work = s.work - 1 := by
  have requests := paired.requests
  unfold Session.serve
  cases phase : s.phase with
  | ready =>
    cases next : s.link.server.queue with
    | nil => simp [take_nil paired.clientOpen next, work, phase, next, Phase.held, Phase.outgoing]
    | cons m rest =>
      simp only [take_cons next, work, phase, next, Phase.held, Phase.outgoing, List.length_cons,
        List.length_nil]
      omega
  | holding m =>
    have member : m ∈ s.sent := by
      rw [requests, phase]
      simp [Phase.held]
    obtain ⟨f, answer, -⟩ :=
      Dispatcher.exists_answer (d := s.dispatcher) (asks_iff.mp (asking m member))
    obtain ⟨bytes, written, -⟩ := Dispatcher.exists_written answer
    simp only [handle_reply answer, work, phase, Phase.held, Phase.outgoing, written,
      Except.toOption, Option.toList_some, List.length_cons, List.length_nil]
    omega
  | answering f =>
    obtain ⟨bytes, written⟩ := paired.writable f phase
    simp [reply_written paired.clientOpen written, work, phase, Phase.held, Phase.outgoing, written,
      Except.toOption, Link.push, Link.setMailbox, Wire.End.other]
  | stopped =>
    obtain ⟨m, handled, stops⟩ := paired.stops.mp phase
    have member : m ∈ s.sent := by
      rw [requests, List.append_assoc]
      exact List.mem_append_left _ handled
    rw [asking m member] at stops
    cases stops

end Session

end PolicyVault.Service
