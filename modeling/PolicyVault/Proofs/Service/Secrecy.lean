import PolicyVault.Proofs.Service.Answers
import PolicyVault.Proofs.Vault.Veils
import PolicyVault.Wire.Wording

/-!
# Stored data is secret

What is written into a vault shows in the data that is read from it and nowhere else. Two runs on
messages that differ in the data of their requests to write, but not in its length, take the same
decisions, give the same answers but for data that was read, and log the same texts.

Main statement: `Service.Dispatcher.data_secret`.
-/

namespace PolicyVault

namespace Wire

/-- The tag of a reply with data that was read. -/
def readAck : UInt32 := (Tag.mk .read .ack).toWord

namespace Frame

variable {f g : Frame} {payload : List UInt8}

def texts (f : Frame) : List String := [f.text, f.summary]

theorem dataLength_payload (length : payload.length = f.payload.length) :
    dataLength { f with payload := payload } = f.dataLength := by
  have empty : payload.isEmpty = f.payload.isEmpty := by
    cases payload <;> cases stored : f.payload <;> simp [stored] at length ⊢
  simp only [dataLength, empty, length]

theorem requestText_payload (length : payload.length = f.payload.length) (o : Operation) :
    requestText { f with payload := payload } o = f.requestText o := by
  unfold requestText
  rw [dataLength_payload length]

theorem replyText_payload (length : payload.length = f.payload.length) (granted : Bool)
    (o : Operation) : replyText { f with payload := payload } granted o = f.replyText granted o := by
  unfold replyText
  rw [dataLength_payload length]

theorem taggedText_payload (length : payload.length = f.payload.length) (t : Tag) :
    taggedText { f with payload := payload } t = f.taggedText t := by
  unfold taggedText
  rw [requestText_payload length, replyText_payload length, replyText_payload length]

/-- What is shown of a frame tells no more of its payload than the length. -/
theorem texts_payload (length : payload.length = f.payload.length) :
    texts { f with payload := payload } = f.texts := by
  have empty : payload.isEmpty = f.payload.isEmpty := by
    cases payload <;> cases stored : f.payload <;> simp [stored] at length ⊢
  have shown : text { f with payload := payload } = f.text := by
    simp only [text, decodedTag, taggedText_payload length, empty, length]
  have summed : summary { f with payload := payload } = f.summary := by
    unfold summary
    rw [dataLength_payload length]
  rw [texts, shown, summed, texts]

def veil (f : Frame) : Frame := if f.tag = readAck then { f with payload := blank f.payload } else f

theorem veil_read (read : f.tag = readAck) : f.veil = { f with payload := blank f.payload } :=
  if_pos read

theorem veil_other (other : f.tag ≠ readAck) : f.veil = f := if_neg other

theorem tag_veil (f : Frame) : f.veil.tag = f.tag := by
  by_cases read : f.tag = readAck
  · rw [veil_read read]
  · rw [veil_other read]

theorem texts_veil (f : Frame) : f.veil.texts = f.texts := by
  by_cases read : f.tag = readAck
  · rw [veil_read read]
    exact texts_payload (length_blank f.payload)
  · rw [veil_other read]

/-- Frames with the same veil differ at most in data that was read. -/
theorem eq_of_veil (same : f.veil = g.veil) :
    g = { f with payload := g.payload } ∧ g.payload.length = f.payload.length ∧
      (f.tag ≠ readAck → g.payload = f.payload) := by
  have tags : f.tag = g.tag := by rw [← f.tag_veil, same, g.tag_veil]
  by_cases read : f.tag = readAck
  · rw [veil_read read, veil_read (tags ▸ read)] at same
    obtain ⟨tag, pid, field2, field3, requested, payload⟩ := f
    obtain ⟨tag', pid', field2', field3', requested', payload'⟩ := g
    injection same with tag pid field2 field3 requested hidden
    refine ⟨by rw [tag, pid, field2, field3, requested], ?_, fun other => absurd read other⟩
    rw [← length_blank payload, hidden, length_blank]
  · rw [veil_other read, veil_other (tags ▸ read)] at same
    rw [same]
    exact ⟨rfl, rfl, fun _ => rfl⟩

end Frame

namespace Reply

variable {r : Reply}

def veil (r : Reply) : Reply :=
  if r.tag = ⟨.read, .ack⟩ then { r with payload := blank r.payload } else r

theorem veil_other (other : r.tag ≠ ⟨.read, .ack⟩) : r.veil = r := if_neg other

theorem toFrame_veil (r : Reply) : r.veil.toFrame = r.toFrame.veil := by
  by_cases read : r.tag = ⟨.read, .ack⟩
  · have word : r.toFrame.tag = readAck := congrArg Tag.toWord read
    rw [Frame.veil_read word, veil, if_pos read]
    rfl
  · have word : r.toFrame.tag ≠ readAck := by
      intro same
      have tags := congrArg Tag.ofWord same
      rw [readAck, Tag.ofWord_toWord] at tags
      exact read (Except.ok.inj ((Tag.ofWord_toWord r.tag).symm.trans tags))
    rw [Frame.veil_other word, veil_other read]

end Reply

/-- The request with the data it writes hidden. -/
def Request.veil : Request → Request
  | .write pid address data => .write pid address (blank data)
  | q => q

theorem Request.operation_veil (q : Request) : q.veil.operation = q.operation := by
  cases q <;> rfl

theorem Reply.tag_echo (q : Request) (status : Status) :
    (echo q status).tag = ⟨q.operation, status⟩ := rfl

theorem Reply.echo_veil (q : Request) (status : Status) : echo q.veil status = echo q status := by
  cases q <;> rfl

/-- Messages that are the same but for the data of a request to write. -/
inductive SameButData : Message → Message → Prop
  | refl (m : Message) : SameButData m m
  | write {m n : Message} (f : Frame) (data : List UInt8) (writes : f.tag = Operation.write.code)
      (length : data.length = f.payload.length) (first : Frame.decode m = .ok f)
      (second : Frame.decode n = .ok { f with payload := data }) : SameButData m n

end Wire

namespace Service

open Wire (Request Reply Frame Message)

namespace Dispatcher

variable {d e : Dispatcher} {q : Request} {m n : Message}

/-! ## Requests -/

def veil (d : Dispatcher) : Dispatcher := { d with registry := d.registry.veil }

theorem arenaSize_veil (d : Dispatcher) (pid : UInt32) : d.veil.arenaSize pid = d.arenaSize pid := by
  have checked : d.veil.checkPid pid = d.checkPid pid := rfl
  have size : d.veil.registry.arenaSize pid = d.registry.arenaSize pid :=
    d.registry.arenaSize_veil pid
  rw [arenaSize, checked, size, arenaSize]

theorem checkAlloc_veil (d : Dispatcher) (pid size : UInt32) :
    d.veil.checkAlloc pid size = d.checkAlloc pid size := by
  rw [checkAlloc, arenaSize_veil, checkAlloc]

theorem checkAddress_veil (d : Dispatcher) (pid address : UInt32) :
    d.veil.checkAddress pid address = d.checkAddress pid address := by
  rw [checkAddress, arenaSize_veil, checkAddress]

theorem checkRead_veil (d : Dispatcher) (pid address length : UInt32) :
    d.veil.checkRead pid address length = d.checkRead pid address length := by
  rw [checkRead, checkAddress_veil, checkRead]

theorem checkWrite_veil (d : Dispatcher) (pid address : UInt32) (data : List UInt8) :
    d.veil.checkWrite pid address (blank data) = d.checkWrite pid address data := by
  have empty : (blank data).isEmpty = data.isEmpty := by cases data <;> rfl
  rw [checkWrite, checkAddress_veil, empty, checkWrite]

theorem serve_veil {α : Type} {look : α → α} {operation hidden : Registry → Vault.Answer Registry α}
    {reply shown : α → Except Wire.Error Reply} (check : Except Error Unit)
    (commutes : hidden d.registry.veil =
      Prod.map (Except.map look) Registry.veil (operation d.registry))
    (replies : ∀ a, shown (look a) = (reply a).map Reply.veil) :
    d.veil.serve check hidden shown =
      Prod.map (Except.map Reply.veil) veil (d.serve check operation reply) := by
  unfold serve
  cases check with
  | error e => rfl
  | ok =>
    have asked : hidden d.veil.registry = _ := commutes
    simp only [asked]
    rcases operation d.registry with ⟨e | a, registry⟩
    · rfl
    · simp only [Prod.map, Except.map, replies]
      cases reply a <;> rfl

theorem serve_veil_same {α : Type} {operation hidden : Registry → Vault.Answer Registry α}
    {reply : α → Except Wire.Error Reply} (check : Except Error Unit)
    (commutes : hidden d.registry.veil = Prod.map id Registry.veil (operation d.registry))
    (plain : ∀ a, reply a = (reply a).map Reply.veil) :
    d.veil.serve check hidden reply =
      Prod.map (Except.map Reply.veil) veil (d.serve check operation reply) := by
  apply serve_veil check _ plain
  rw [commutes]
  rcases operation d.registry with ⟨e | a, registry⟩ <;> rfl

theorem withPayload_veil {before : Reply} (other : before.tag ≠ ⟨.read, .ack⟩)
    (payload : List UInt8) :
    before.withPayload payload = (before.withPayload payload).map Reply.veil := by
  unfold Reply.withPayload
  repeat' split
  · rfl
  · rfl
  · have same : ({ before with payload := payload } : Reply).veil = _ := Reply.veil_other other
    exact congrArg Except.ok same.symm

theorem withPayload_blank {before : Reply} (read : before.tag = ⟨.read, .ack⟩)
    (payload : List UInt8) :
    before.withPayload (blank payload) = (before.withPayload payload).map Reply.veil := by
  unfold Reply.withPayload
  rw [length_blank]
  repeat' split
  · rfl
  · rfl
  · exact congrArg Except.ok (if_pos read).symm

theorem dispatch_veil (d : Dispatcher) (q : Request) :
    d.veil.dispatch q.veil = Prod.map (Except.map Reply.veil) veil (d.dispatch q) := by
  unfold dispatch
  cases q with
  | nil | terminate => rfl
  | load pid arenaSize policies =>
    exact serve_veil_same _ (d.registry.load_veil _ _ _) fun _ => rfl
  | unload pid => exact serve_veil_same _ (d.registry.unload_veil _) fun _ => rfl
  | alloc pid size policy =>
    simp only [Request.veil, checkAlloc_veil]
    apply serve_veil_same _ (d.registry.alloc_veil _ _ _)
    intro offset
    cases Wire.fit .offset offset <;> rfl
  | dealloc pid address =>
    simp only [Request.veil, checkAddress_veil]
    exact serve_veil_same _ (d.registry.dealloc_veil _ _) fun _ => rfl
  | read pid address length =>
    simp only [Request.veil, checkRead_veil]
    exact serve_veil _ (d.registry.read_veil _ _ _) (withPayload_blank rfl)
  | write pid address data =>
    simp only [Request.veil, checkWrite_veil]
    exact serve_veil_same _ (d.registry.write_veil _ _ _) fun _ => rfl
  | view pid =>
    have other : (Reply.ack (.view pid)).tag ≠ ⟨.read, .ack⟩ := by
      rw [Reply.ack, Reply.tag_echo]
      simp [Request.operation]
    refine serve_veil_same _ ?_ fun v => withPayload_veil other _
    exact congrArg (·, d.registry.veil) (d.registry.snapshot_veil pid)

/-! ## Messages -/

def Outcome.veil : Outcome → Outcome
  | .reply f => .reply f.veil
  | .terminate => .terminate

theorem nak_veil (q : Request) : (Reply.nak q).veil = Reply.nak q := by
  apply Reply.veil_other
  rw [Reply.nak, Reply.tag_echo]
  simp

theorem respond_veil (d : Dispatcher) (q : Request) :
    d.veil.respond q.veil = Prod.map Outcome.veil veil (d.respond q) := by
  unfold respond
  rw [Request.operation_veil]
  split
  · rfl
  · have refused : Reply.nak q.veil = Reply.nak q := Reply.echo_veil q .nak
    rw [dispatch_veil, refused]
    rcases d.dispatch q with ⟨e | r, next⟩
    · have shown := (Reply.nak q).toFrame_veil
      rw [nak_veil] at shown
      exact congrArg (fun f => (Outcome.reply f, next.veil)) shown
    · exact congrArg (fun f => (Outcome.reply f, next.veil)) r.toFrame_veil

/-- Outcomes that are the same but for data that was read. -/
inductive Outcome.Alike : Outcome → Outcome → Prop
  | terminate : Alike .terminate .terminate
  | reply {f : Frame} {payload : List UInt8} (length : payload.length = f.payload.length)
      (other : f.tag ≠ Wire.readAck → payload = f.payload) :
      Alike (.reply f) (.reply { f with payload := payload })

theorem Outcome.alike_of_veil {x y : Outcome} (same : x.veil = y.veil) : x.Alike y := by
  cases x with
  | terminate =>
    cases y with
    | terminate => exact .terminate
    | reply g => cases same
  | reply f =>
    cases y with
    | terminate => cases same
    | reply g =>
      obtain ⟨frame, length, other⟩ := Frame.eq_of_veil (Outcome.reply.inj same)
      rw [frame]
      exact .reply length other

theorem request?_write {f : Frame} (writes : f.tag = Wire.Operation.write.code)
    (decoded : Frame.decode m = .ok f) :
    request? m = some (.write f.pid f.field2 f.payload) := by
  have read : Request.ofFrame f = Request.ofOperation f .write := Request.ofFrame_request writes
  exact holds_iff.mp ⟨f, decoded, read⟩

theorem requests_alike (same : Wire.SameButData m n) :
    (request? m = none ∧ m = n) ∨
      ∃ p q, request? m = some p ∧ request? n = some q ∧ p.veil = q.veil := by
  cases same with
  | refl =>
    cases held : request? m with
    | none => exact .inl ⟨rfl, rfl⟩
    | some q => exact .inr ⟨q, q, rfl, rfl, rfl⟩
  | write f data writes length first second =>
    have changed := request?_write (f := { f with payload := data }) writes second
    refine .inr ⟨_, _, request?_write writes first, changed, ?_⟩
    simp only [Request.veil, blank, length]

/-- Dispatchers that differ in stored data alone do so after such messages as well. -/
theorem handle_alike (same : Wire.SameButData m n) (veiled : d.veil = e.veil) :
    Prod.map Outcome.veil veil (d.handle m) = Prod.map Outcome.veil veil (e.handle n) := by
  obtain ⟨none, rfl⟩ | ⟨p, q, first, second, hidden⟩ := requests_alike same
  · rw [handle_unreadable none, handle_unreadable none]
    exact congrArg (Prod.mk _) veiled
  · rw [handle_some d first, handle_some e second, ← respond_veil, ← respond_veil, veiled, hidden]

/-! ## Logs -/

/-- What is logged of the request that a message holds. -/
def requestLog (m : Message) : List String :=
  match Frame.decode m with
  | .error e => [e.message]
  | .ok f =>
    match Request.ofFrame f with
    | .error e => f.texts ++ [e.message]
    | .ok _ => f.texts

def failureLog (d : Dispatcher) (q : Request) : List String :=
  match (d.dispatch q).1 with
  | .error e => [e.message]
  | .ok _ => []

def Outcome.texts : Outcome → List String
  | .reply f => f.texts
  | .terminate => []

/-- What is logged when a message is handled: its request, why it failed, and its reply. -/
def log (d : Dispatcher) (m : Message) : List String :=
  requestLog m ++ (request? m).toList.flatMap d.failureLog ++ (d.handle m).1.texts

def logs (d : Dispatcher) : List Message → List (List String)
  | [] => []
  | m :: rest => d.log m :: (d.handle m).2.logs rest

theorem requestLog_alike (same : Wire.SameButData m n) : requestLog m = requestLog n := by
  cases same with
  | refl => rfl
  | write f data writes length first second =>
    let g : Frame := { f with payload := data }
    have read : Request.ofFrame f = Request.ofOperation f .write := Request.ofFrame_request writes
    have changed : Request.ofFrame g = Request.ofOperation g .write :=
      Request.ofFrame_request writes
    have texts : g.texts = f.texts := Frame.texts_payload length
    simp only [requestLog, first, second, read, changed, Request.ofOperation, g]
    exact texts.symm

theorem failureLog_veil (d : Dispatcher) (q : Request) :
    d.veil.failureLog q.veil = d.failureLog q := by
  unfold failureLog
  rw [dispatch_veil]
  rcases d.dispatch q with ⟨e | r, next⟩ <;> rfl

theorem Outcome.texts_veil (outcome : Outcome) : outcome.veil.texts = outcome.texts := by
  cases outcome with
  | reply f => exact f.texts_veil
  | terminate => rfl

theorem log_alike (same : Wire.SameButData m n) (veiled : d.veil = e.veil) :
    d.log m = e.log n := by
  have outcomes := congrArg Prod.fst (handle_alike same veiled)
  have replies : (d.handle m).1.texts = (e.handle n).1.texts := by
    rw [← Outcome.texts_veil, ← Outcome.texts_veil (e.handle n).1]
    exact congrArg Outcome.texts outcomes
  have failures : (request? m).toList.flatMap d.failureLog =
      (request? n).toList.flatMap e.failureLog := by
    obtain ⟨none, rfl⟩ | ⟨p, q, first, second, hidden⟩ := requests_alike same
    · rw [none]
      rfl
    · have same : d.failureLog p = e.failureLog q := by
        rw [← failureLog_veil, ← failureLog_veil e, veiled, hidden]
      rw [first, second]
      exact congrArg (· ++ []) same
  rw [log, requestLog_alike same, failures, replies, log]

/-! ## Runs -/

theorem exchanges_alike {sent other : List Message}
    (same : List.Forall₂ Wire.SameButData sent other) (veiled : d.veil = e.veil) :
    List.Forall₂ (fun x y => x.2.Alike y.2) (d.exchanges sent) (e.exchanges other) ∧
      d.logs sent = e.logs other := by
  -- the states stay equal behind their veils, and answer and log depend on no more than that
  induction same generalizing d e with
  | nil => exact ⟨.nil, rfl⟩
  | @cons m n _ _ first _ ih =>
    have handled := handle_alike first veiled
    have outcome : (d.handle m).1.veil = (e.handle n).1.veil := congrArg Prod.fst handled
    have next : (d.handle m).2.veil = (e.handle n).2.veil := congrArg Prod.snd handled
    obtain ⟨outcomes, texts⟩ := ih next
    refine ⟨.cons (Outcome.alike_of_veil outcome) outcomes, ?_⟩
    rw [logs, logs, log_alike first veiled, texts]

/-- The data that requests write shows in data that is read and in nothing else: two runs from the
same state, on messages that differ in such data alone, end the service at the same messages, reply
with the same headers, the same lengths and, but for data that was read, the same payloads, and log
the same texts. -/
theorem data_secret (d : Dispatcher) {sent other : List Message}
    (same : List.Forall₂ Wire.SameButData sent other) :
    List.Forall₂ (fun x y => x.2.Alike y.2) (d.exchanges sent) (d.exchanges other) ∧
      d.logs sent = d.logs other :=
  exchanges_alike same rfl

/-- Two bytes written and read back, once 1 and 2 and once 3 and 4, under the policy `WR`. -/
theorem data_secret_two_bytes :
    let d := (fresh .standard).after
      [(Frame.bare 1 1 16 1).header 10 ++ Wire.wordBytes 1 ++ Wire.wordBytes 2 ++ [0x57, 0x52],
        (Frame.bare 3 1 4 0).header 0]
    let sent := [(Frame.bare 6 1 0 0).header 2 ++ [1, 2], (Frame.bare 5 1 0 0).header 2]
    let other := [(Frame.bare 6 1 0 0).header 2 ++ [3, 4], (Frame.bare 5 1 0 0).header 2]
    List.Forall₂ Wire.SameButData sent other ∧
      (d.exchanges sent).map (·.2) =
        [.reply (.bare 0x16 1 0 0), .reply ⟨0x15, 1, 0, 0, 0, [1, 2]⟩] ∧
      (d.exchanges other).map (·.2) =
        [.reply (.bare 0x16 1 0 0), .reply ⟨0x15, 1, 0, 0, 0, [3, 4]⟩] ∧
      d.logs sent = d.logs other := by
  intro d sent other
  have same : List.Forall₂ Wire.SameButData sent other :=
    .cons (.write ⟨6, 1, 0, 0, 0, [1, 2]⟩ [3, 4] rfl rfl rfl rfl) (.cons (.refl _) .nil)
  refine ⟨same, ?_, ?_, (data_secret d same).2⟩
  · decide +kernel
  · decide +kernel

end Dispatcher

end Service

end PolicyVault
