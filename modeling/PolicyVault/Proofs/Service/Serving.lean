import PolicyVault.Proofs.Service.Answers
import PolicyVault.Service.Serve

/-!
# Serving what waits

A server that nobody sends any more to handles the messages that wait for it, up to the first that
ends the service. It attempts one reply to each of the others, in order, and counts what it did.
Whether a reply gets through changes neither what is handled nor what is attempted.

Main statement: `Service.Server.serving_exact`.
-/

namespace PolicyVault.Service

open Wire (Message Frame)

namespace Dispatcher

/-- The message that an outcome sends. -/
def Outcome.Writes (outcome : Outcome) (bytes : Message) : Prop :=
  ∃ f, outcome = .reply f ∧ f.encode = .ok bytes

variable {d : Dispatcher} {m : Message} {f : Frame}

theorem exists_written (replies : (d.handle m).1 = .reply f) :
    ∃ bytes, f.encode = .ok bytes ∧ bytes.length ≤ Wire.maxMessage := by
  have continues : ¬ Holds m .terminate := by
    rw [← terminate_iff, replies]
    nofun
  obtain ⟨g, same, shape⟩ := exists_answer continues
  obtain rfl := Outcome.reply.inj (replies.symm.trans same)
  exact shape.written

/-- The exchanges before the first message that ends the service. -/
def answered (d : Dispatcher) (messages : List Message) : List (Message × Outcome) :=
  (d.exchanges messages).takeWhile (·.2 != .terminate)

/-- The messages up to the first that ends the service, and this one as well. -/
def handled (d : Dispatcher) (messages : List Message) : List Message :=
  messages.take ((d.answered messages).length + 1)

/-- Why a server stops that finds these messages and no others. -/
def ending (d : Dispatcher) (messages : List Message) : StopReason :=
  if (d.answered messages).length < messages.length then .terminated else .disconnected

theorem answered_of_terminate (ends : (d.handle m).1 = .terminate) (rest : List Message) :
    d.answered (m :: rest) = [] := by
  rw [answered, exchanges, List.takeWhile_cons, ends]
  rfl

theorem answered_of_reply (replies : (d.handle m).1 = .reply f) (rest : List Message) :
    d.answered (m :: rest) = (m, .reply f) :: (d.handle m).2.answered rest := by
  rw [answered, exchanges, List.takeWhile_cons, replies]
  rfl

theorem ending_of_terminate (ends : (d.handle m).1 = .terminate) (rest : List Message) :
    d.ending (m :: rest) = .terminated := by
  rw [ending, answered_of_terminate ends]
  exact if_pos (Nat.zero_lt_succ _)

theorem ending_of_reply (replies : (d.handle m).1 = .reply f) (rest : List Message) :
    d.ending (m :: rest) = (d.handle m).2.ending rest := by
  rw [ending, answered_of_reply replies, List.length_cons, List.length_cons, ending]
  simp only [Nat.add_lt_add_iff_right]

theorem length_exchanges (d : Dispatcher) (messages : List Message) :
    (d.exchanges messages).length = messages.length := by
  induction messages generalizing d with
  | nil => rfl
  | cons m rest ih => exact congrArg (· + 1) (ih (d.handle m).2)

theorem length_answered (d : Dispatcher) (messages : List Message) :
    (d.answered messages).length ≤ messages.length := by
  rw [← d.length_exchanges messages]
  exact (List.takeWhile_sublist _).length_le

theorem length_answered_of_handled (d : Dispatcher) (messages : List Message) :
    (d.answered messages).length =
      (d.handled messages).length - (if d.ending messages = .terminated then 1 else 0) := by
  rw [handled, List.length_take, ending]
  by_cases ends : (d.answered messages).length < messages.length
  · rw [if_pos ends, if_pos rfl, Nat.min_eq_left ends]
    rfl
  · have all : (d.answered messages).length = messages.length :=
      Nat.le_antisymm (d.length_answered messages) (Nat.not_lt.mp ends)
    rw [if_neg ends, if_neg nofun, all, Nat.min_eq_right (Nat.le_succ _)]
    rfl

end Dispatcher

namespace Server

variable {sends : Nat → Bool} {s t u : Server} {m : Message} {f : Frame} {bytes : Message}
  {messages handled later attempted retried : List Message}

/-- The messages that get through of those attempted in turn from attempt `first` on. -/
def delivered (sends : Nat → Bool) (first : Nat) (attempted : List Message) : List Message :=
  ((attempted.zipIdx first).filter fun attempt => sends attempt.2).map (·.1)

/-- How many attempts succeed of those from `first` on. -/
def successes (sends : Nat → Bool) (first attempts : Nat) : Nat :=
  (List.range' first attempts).countP sends

theorem delivered_append (sends : Nat → Bool) (first : Nat) (before after : List Message) :
    delivered sends first (before ++ after) =
      delivered sends first before ++ delivered sends (first + before.length) after := by
  simp only [delivered, List.zipIdx_append, List.filter_append, List.map_append]

theorem successes_add (sends : Nat → Bool) (first before after : Nat) :
    successes sends first (before + after) =
      successes sends first before + successes sends (first + before) after := by
  rw [successes, ← List.range'_append_1, List.countP_append]
  rfl

theorem successes_add_failures (sends : Nat → Bool) (attempts : Nat) :
    successes sends 0 attempts + successes (fun i => !sends i) 0 attempts = attempts := by
  have split : (List.range' 0 attempts).length = _ :=
    List.length_eq_countP_add_countP fun i => sends i = true
  rw [List.length_range'] at split
  simpa [successes] using split.symm

/-- What a server has done from `s` to `t`. -/
structure Served (sends : Nat → Bool) (s : Server) (handled attempted : List Message)
    (t : Server) : Prop where
  dispatcher : t.dispatcher = s.dispatcher.after handled
  received : t.statistics.received = s.statistics.received + handled.length
  attempts : t.attempts = s.attempts + attempted.length
  replies : t.replies = s.replies ++ delivered sends s.attempts attempted
  replied : t.statistics.replied =
    s.statistics.replied + successes sends s.attempts attempted.length
  failed : t.statistics.transportErrors =
    s.statistics.transportErrors + successes (fun i => !sends i) s.attempts attempted.length

theorem Served.refl (sends : Nat → Bool) (s : Server) : Served sends s [] [] s :=
  ⟨rfl, rfl, rfl, (List.append_nil _).symm, rfl, rfl⟩

theorem Served.ends (sends : Nat → Bool) (s : Server) (m : Message) :
    Served sends s [m] [] (s.countReceived (s.dispatcher.handle m).2) :=
  ⟨rfl, rfl, rfl, (List.append_nil _).symm, rfl, rfl⟩

theorem reply_through (written : f.encode = .ok bytes) (through : sends s.attempts = true) :
    s.reply sends f =
      ⟨s.dispatcher, ⟨s.statistics.received, s.statistics.replied + 1,
        s.statistics.transportErrors⟩, s.attempts + 1, bytes :: s.sent⟩ := by
  simp only [Server.reply, written, through, if_true]

theorem reply_lost (written : f.encode = .ok bytes) (lost : sends s.attempts = false) :
    s.reply sends f =
      ⟨s.dispatcher, ⟨s.statistics.received, s.statistics.replied,
        s.statistics.transportErrors + 1⟩, s.attempts + 1, s.sent⟩ := by
  simp only [Server.reply, written, lost, Bool.false_eq_true, if_false]

theorem reply_dispatcher (written : f.encode = .ok bytes) :
    (s.reply sends f).dispatcher = s.dispatcher := by
  cases through : sends s.attempts with
  | true => rw [reply_through written through]
  | false => rw [reply_lost written through]

theorem Served.trans (first : Served sends s handled attempted t)
    (second : Served sends t later retried u) :
    Served sends s (handled ++ later) (attempted ++ retried) u where
  dispatcher := by
    rw [second.dispatcher, first.dispatcher]
    exact List.foldl_append.symm
  received := by rw [second.received, first.received, List.length_append, Nat.add_assoc]
  attempts := by rw [second.attempts, first.attempts, List.length_append, Nat.add_assoc]
  replies := by
    rw [second.replies, first.replies, first.attempts, delivered_append, List.append_assoc]
  replied := by
    rw [second.replied, first.replied, first.attempts, List.length_append, successes_add,
      Nat.add_assoc]
  failed := by
    rw [second.failed, first.failed, first.attempts, List.length_append, successes_add,
      Nat.add_assoc]

theorem Served.answer (sends : Nat → Bool) (s : Server) (m : Message)
    (written : f.encode = .ok bytes) :
    Served sends s [m] [bytes] ((s.countReceived (s.dispatcher.handle m).2).reply sends f) := by
  cases through : sends s.attempts with
  | true =>
    have sent : (s.countReceived (s.dispatcher.handle m).2).reply sends f = _ :=
      reply_through written through
    rw [sent]
    refine ⟨rfl, rfl, rfl, ?_, ?_, ?_⟩
    · simp [Server.replies, countReceived, delivered, through]
    · simp [countReceived, successes, through]
    · simp [countReceived, successes, through]
  | false =>
    have kept : (s.countReceived (s.dispatcher.handle m).2).reply sends f = _ :=
      reply_lost written through
    rw [kept]
    refine ⟨rfl, rfl, rfl, ?_, ?_, ?_⟩
    · simp [Server.replies, countReceived, delivered, through]
    · simp [countReceived, successes, through]
    · simp [countReceived, successes, through]

theorem run_served (sends : Nat → Bool) (messages : List Message) (s : Server) :
    ∃ attempted t,
      run sends false s (messages.map .message) = (s.dispatcher.ending messages, t) ∧
      List.Forall₂ (fun exchange bytes => exchange.2.Writes bytes)
        (s.dispatcher.answered messages) attempted ∧
      Served sends s (s.dispatcher.handled messages) attempted t := by
  induction messages generalizing s with
  | nil => exact ⟨[], s, rfl, .nil, .refl sends s⟩
  | cons m rest ih =>
    cases outcome : (s.dispatcher.handle m).1 with
    | terminate =>
      have answer : s.dispatcher.handle m = (.terminate, (s.dispatcher.handle m).2) :=
        Prod.ext outcome rfl
      rw [Dispatcher.handled, Dispatcher.answered_of_terminate outcome]
      refine ⟨[], s.countReceived (s.dispatcher.handle m).2, ?_, .nil, ?_⟩
      · rw [List.map_cons, run, answer, Dispatcher.ending_of_terminate outcome]
        rfl
      · exact .ends sends s m
    | reply f =>
      have answer : s.dispatcher.handle m = (.reply f, (s.dispatcher.handle m).2) :=
        Prod.ext outcome rfl
      -- a reply can always be written, so every round but the last makes one attempt
      obtain ⟨bytes, written, -⟩ := Dispatcher.exists_written outcome
      let next := (s.countReceived (s.dispatcher.handle m).2).reply sends f
      have kept : next.dispatcher = (s.dispatcher.handle m).2 := reply_dispatcher written
      obtain ⟨attempted, t, served, replies, done⟩ := ih next
      rw [kept] at served replies
      rw [Dispatcher.handled, kept] at done
      rw [Dispatcher.handled, Dispatcher.answered_of_reply outcome]
      refine ⟨bytes :: attempted, t, ?_, .cons ⟨f, rfl, written⟩ replies, ?_⟩
      · rw [List.map_cons, run, answer, Dispatcher.ending_of_reply outcome]
        exact served
      · exact (Served.answer sends s m written).trans done

/-- A server that starts with these messages waiting handles them up to the first that ends the
service, or all of them, whatever becomes of its replies. The replies it attempts are those to the
messages before that one, and its counts are of the messages handled and of the attempts that
succeeded and failed. -/
theorem serving_exact (d : Dispatcher) (sends : Nat → Bool) (messages : List Message) :
    ∃ t attempted,
      run sends false (fresh d) (messages.map .message) = (d.ending messages, t) ∧
      t.dispatcher = (d.handled messages).foldl (fun d m => (d.handle m).2) d ∧
      List.Forall₂ (fun exchange bytes => exchange.2.Writes bytes) (d.answered messages)
        attempted ∧
      t.attempts = attempted.length ∧ t.replies = delivered sends 0 attempted ∧
      t.statistics = ⟨(d.handled messages).length, successes sends 0 attempted.length,
        successes (fun i => !sends i) 0 attempted.length⟩ ∧
      t.statistics.replied + t.statistics.transportErrors =
        t.statistics.received - (if d.ending messages = .terminated then 1 else 0) := by
  obtain ⟨attempted, t, served, writes, done⟩ := run_served sends messages (fresh d)
  have counts : t.statistics = ⟨(d.handled messages).length, successes sends 0 attempted.length,
      successes (fun i => !sends i) 0 attempted.length⟩ := by
    rw [← Nat.zero_add (d.handled messages).length, ← Nat.zero_add (successes sends 0 _),
      ← Nat.zero_add (successes (fun i => !sends i) 0 _)]
    exact congr (congr (congrArg Statistics.mk done.received) done.replied) done.failed
  refine ⟨t, attempted, served, done.dispatcher, writes, ?_, done.replies, counts, ?_⟩
  · rw [done.attempts]
    exact Nat.zero_add _
  · rw [counts, successes_add_failures, ← writes.length_eq]
    exact d.length_answered_of_handled messages

end Server

end PolicyVault.Service
