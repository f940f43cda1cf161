import PolicyVault.Wire.Link

/-!
# Clients

A client sends requests over a transport and takes the replies as they come. Only a request to
terminate is never answered.
-/

namespace PolicyVault.Wire

/-- Why an exchange fails: the message is at fault, or the transport. A client that finds no
message yet has to wait. -/
inductive ExchangeError
  | wire (cause : Error)
  | transport (cause : TransportError)
  | pending
  deriving DecidableEq, Repr

def ExchangeError.message : ExchangeError → String
  | .wire cause => cause.message
  | .transport cause => cause.message
  | .pending => "no message yet"

namespace Client

variable {σ : Type} (t : Transport σ)

/-- Sends a frame, whatever it holds. -/
def submitFrame (s : σ) (f : Frame) : Except ExchangeError Unit × σ :=
  match f.encode with
  | .error e => (.error (.wire e), s)
  | .ok m =>
    match t.send s m with
    | (.error e, s) => (.error (.transport e), s)
    | (.ok (), s) => (.ok (), s)

def submit (s : σ) (q : Request) : Except ExchangeError Unit × σ :=
  match q.toFrame with
  | .error e => (.error (.wire e), s)
  | .ok f => submitFrame t s f

def readReply (m : Message) : Except Error Reply :=
  match Frame.decode m with
  | .error e => .error e
  | .ok f => Reply.ofFrame f

def receive (s : σ) : Except ExchangeError Reply × σ :=
  match t.receive s with
  | (.nothing, s) => (.error .pending, s)
  | (.failed e, s) => (.error (.transport e), s)
  | (.message m, s) =>
    match readReply m with
    | .error e => (.error (.wire e), s)
    | .ok r => (.ok r, s)

/-- Sends a request and takes its reply, if it has one. -/
def call (s : σ) (q : Request) : Except ExchangeError (Option Reply) × σ :=
  match submit t s q with
  | (.error e, s) => (.error e, s)
  | (.ok (), s) =>
    if q.operation = .terminate then (.ok none, s)
    else
      match receive t s with
      | (.error e, s) => (.error e, s)
      | (.ok r, s) => (.ok (some r), s)

end Client

end PolicyVault.Wire
