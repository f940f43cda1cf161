import PolicyVault.Wire.Reply

/-!
# Links

A link joins a client and a server by a queue in each direction. What one end sends, the other
end receives in order. An end that is closed sends no more, what was sent to it is lost, and what
it sent before can still be received.
-/

namespace PolicyVault.Wire

inductive Delivery
  | message (m : Message)
  | nothing
  | failed (e : TransportError)
  deriving DecidableEq, Repr

structure Transport (σ : Type) where
  send : σ → Message → Except TransportError Unit × σ
  receive : σ → Delivery × σ

inductive End
  | client
  | server
  deriving DecidableEq, Repr

def End.other : End → End
  | .client => .server
  | .server => .client

/-- What an end has: the messages queued for it, and whether it is open. -/
structure Mailbox where
  queue : List Message
  isOpen : Bool
  deriving DecidableEq, Repr

structure Link where
  client : Mailbox
  server : Mailbox
  deriving DecidableEq, Repr

namespace Link

def fresh : Link := ⟨⟨[], true⟩, ⟨[], true⟩⟩

def mailbox (l : Link) : End → Mailbox
  | .client => l.client
  | .server => l.server

def setMailbox (l : Link) (here : End) (m : Mailbox) : Link :=
  match here with
  | .client => { l with client := m }
  | .server => { l with server := m }

def close (l : Link) (here : End) : Link := l.setMailbox here ⟨[], false⟩

def send (l : Link) (source : End) (m : Message) : Except TransportError Unit × Link :=
  let box := l.mailbox source.other
  if maxMessage < m.length then (.error (.oversized m.length maxMessage), l)
  else if box.isOpen then
    (.ok (), l.setMailbox source.other { box with queue := box.queue ++ [m] })
  else (.error .disconnected, l)

/-- Receives the next message at an end, without waiting for one. -/
def receive (l : Link) (here : End) : Delivery × Link :=
  let box := l.mailbox here
  match box.queue with
  | m :: rest => (.message m, l.setMailbox here { box with queue := rest })
  | [] => if (l.mailbox here.other).isOpen then (.nothing, l) else (.failed .disconnected, l)

def transport (here : End) : Transport Link where
  send l m := l.send here m
  receive l := l.receive here

end Link

end PolicyVault.Wire
