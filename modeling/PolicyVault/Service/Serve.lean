import PolicyVault.Service.Dispatch
import PolicyVault.Wire.Link

/-!
# The serving loop

The loop takes one message after the other and answers each before it takes the next. It ends with
a request to terminate, when it is told to stop, or when nobody can send any more. What cannot be
received or sent is counted, and the loop goes on.
-/

namespace PolicyVault.Service

open Wire (Message Frame)

/-- What a receiver finds. A signal also tells the loop to stop. -/
inductive Arrival
  | message (m : Message)
  | interrupted
  | signal
  | broken
  | disconnected
  deriving DecidableEq, Repr

inductive StopReason
  | terminated
  | signalled
  | disconnected
  deriving DecidableEq, Repr

structure Statistics where
  received : Nat
  replied : Nat
  transportErrors : Nat
  deriving DecidableEq, Repr

def Statistics.zero : Statistics := ⟨0, 0, 0⟩

/-- A server with the replies it sent, the newest first, and the number of attempts to send. -/
structure Server where
  dispatcher : Dispatcher
  statistics : Statistics
  attempts : Nat
  sent : List Message

namespace Server

def fresh (d : Dispatcher) : Server := ⟨d, .zero, 0, []⟩

/-- Sends a reply, where `sends` tells which attempts to send succeed. -/
def reply (s : Server) (sends : Nat → Bool) (f : Frame) : Server :=
  match f.encode with
  | .error _ =>
    { s with
      statistics := { s.statistics with transportErrors := s.statistics.transportErrors + 1 } }
  | .ok m =>
    if sends s.attempts then
      { s with
        statistics := { s.statistics with replied := s.statistics.replied + 1 }
        attempts := s.attempts + 1
        sent := m :: s.sent }
    else
      { s with
        statistics := { s.statistics with transportErrors := s.statistics.transportErrors + 1 }
        attempts := s.attempts + 1 }

def countBroken (s : Server) : Server :=
  { s with
    statistics := { s.statistics with transportErrors := s.statistics.transportErrors + 1 } }

/-- Counts a message that was received, and goes on with what it made of the dispatcher. -/
def countReceived (s : Server) (d : Dispatcher) : Server :=
  { s with
    dispatcher := d
    statistics := { s.statistics with received := s.statistics.received + 1 } }

/-- Serves what arrives until the loop ends. After the last arrival nobody can send any more. -/
def run (sends : Nat → Bool) (stop : Bool) (s : Server) : List Arrival → StopReason × Server
  | [] => (if stop then .signalled else .disconnected, s)
  | arrival :: rest =>
    if stop then (.signalled, s)
    else
      match arrival with
      | .disconnected => (.disconnected, s)
      | .interrupted => run sends false s rest
      | .signal => run sends true s rest
      | .broken => run sends false s.countBroken rest
      | .message m =>
        match s.dispatcher.handle m with
        | (.terminate, d) => (.terminated, s.countReceived d)
        | (.reply f, d) => run sends false ((s.countReceived d).reply sends f) rest

/-- The replies sent, in order. -/
def replies (s : Server) : List Message := s.sent.reverse

/-! ## Over a link -/

/-- Serves what is queued at the server's end of a link. Replies get through as long as the
client's end is open. -/
def runOnLink (stop : Bool) (d : Dispatcher) (l : Wire.Link) :
    (StopReason × Server) × Wire.Link :=
  let served := run (fun _ => l.client.isOpen) stop (fresh d) (l.server.queue.map .message)
  (served,
    ⟨{ l.client with queue := l.client.queue ++ served.2.replies },
      { l.server with queue := l.server.queue.drop served.2.statistics.received }⟩)

/-- Takes one message off a link and answers it, and tells whether to go on. -/
def serveOne (d : Dispatcher) (l : Wire.Link) : Bool × Dispatcher × Wire.Link :=
  match l.receive .server with
  | (.message m, l) =>
    match d.handle m with
    | (.terminate, d) => (false, d, l)
    | (.reply f, d) =>
      match f.encode with
      | .error _ => (true, d, l)
      | .ok reply => (true, d, (l.send .server reply).2)
  | (_, l) => (true, d, l)

end Server

end PolicyVault.Service
