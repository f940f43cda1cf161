import PolicyVault.Console.Command
import PolicyVault.Service.Dispatch
import PolicyVault.Vault.Snapshot
import PolicyVault.Wire.Client
import PolicyVault.Wire.Wording

/-!
# Sessions of the client

Running a command sends its request, prints the reply in words, and after a granted read or view
also what came with it. A session can talk to a dispatcher in the same program: what is sent is
handled at once, and its reply waits to be received.
-/

namespace PolicyVault.Console

open Wire (ExchangeError Transport Reply Message)

inductive Failure
  | drain
  | exchange (cause : ExchangeError)
  deriving DecidableEq, Repr

def Failure.message : Failure → String
  | .drain => "drain does not talk to the daemon"
  | .exchange cause => cause.message

/-- What a command prints, and whether it was granted. -/
structure Printed where
  granted : Bool
  output : String
  deriving DecidableEq, Repr

/-- The view that a payload holds, or how long it is if it was cut short. -/
def viewText (payload : List UInt8) : String :=
  match Snapshot.decode payload with
  | .ok v => v.table
  | .error _ => s!"view truncated ({payload.length} bytes)\n"

def payloadText (r : Reply) : String :=
  match r.tag.operation with
  | .read => Wire.hexDump r.payload
  | .view => viewText r.payload
  | _ => ""

/-- What is printed of a reply, or of there being none. -/
def printed : Option Reply → Printed
  | none => ⟨true, "Terminate sent\n"⟩
  | some r => ⟨r.isAck, r.toFrame.text ++ "\n" ++ if r.isAck then payloadText r else ""⟩

/-- Runs a command over a transport. -/
def run {σ : Type} (t : Transport σ) (s : σ) (command : Command) : Except Failure Printed × σ :=
  match command.request? with
  | none => (.error .drain, s)
  | some q =>
    match Wire.Client.call t s q with
    | (.error e, s) => (.error (.exchange e), s)
    | (.ok r, s) => (.ok (printed r), s)

/-! ## A dispatcher in the same program -/

/-- A dispatcher, the replies that wait, and whether it still serves. -/
structure Local where
  dispatcher : Service.Dispatcher
  replies : List Message
  serving : Bool

namespace Local

def fresh (limits : Service.Limits) : Local := ⟨.fresh limits, [], true⟩

/-- Handles a message, unless the dispatcher has been terminated. -/
def send (s : Local) (m : Message) : Except Wire.TransportError Unit × Local :=
  if s.serving then
    match s.dispatcher.handle m with
    | (.terminate, d) => (.ok (), { s with dispatcher := d, serving := false })
    | (.reply f, d) =>
      match f.encode with
      | .ok reply => (.ok (), { s with dispatcher := d, replies := s.replies ++ [reply] })
      | .error _ => (.ok (), { s with dispatcher := d })
  else (.error .disconnected, s)

def receive (s : Local) : Wire.Delivery × Local :=
  match s.replies with
  | reply :: rest => (.message reply, { s with replies := rest })
  | [] => (.failed .disconnected, s)

def transport : Transport Local where
  send := send
  receive := receive

end Local

/-- What a call of the client leads to. -/
inductive Response
  | usage (e : CommandLine.UsageError)
  | failed (e : Failure)
  | done (p : Printed)
  deriving DecidableEq, Repr

/-- Reads and runs one call of the client against a dispatcher in the same program. -/
def Local.call (s : Local) (words : List String) : Response × Local :=
  match Invocation.read words with
  | .error e => (.usage e, s)
  | .ok invocation =>
    match run transport s invocation.command with
    | (.error e, s) => (.failed e, s)
    | (.ok p, s) => (.done p, s)

end PolicyVault.Console
