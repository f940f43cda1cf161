import PolicyVault.CommandLine.Options
import PolicyVault.Service.Dispatch

/-!
# Options of the service

What the service is told when it starts: the queues it listens and answers on, the bounds of its
dispatcher, and how it protects itself.
-/

namespace PolicyVault.Service

open CommandLine (Opt UsageError Given)

/-- The queue of requests if nobody names another. -/
def standardRequestKey : Int32 := 0xdead1

/-- The queue of replies if nobody names another. -/
def standardReplyKey : Int32 := 0xdead2

structure Options where
  requestKey : Int32
  replyKey : Int32
  limits : Limits
  harden : Bool
  lockAll : Bool
  verbose : Nat
  deriving DecidableEq, Repr

inductive OptionsError
  | sameQueueKeys (key : Int32)
  | zeroMaxPid
  | zeroMaxArena
  deriving DecidableEq, Repr

def OptionsError.message : OptionsError → String
  | .sameQueueKeys key =>
    "request and reply queues must differ (both " ++ Text.hex key.toUInt32.toNat ++ ")"
  | .zeroMaxPid => "max pid must be non-zero"
  | .zeroMaxArena => "max arena must be non-zero"

namespace Options

/-- How the service runs if nobody says otherwise. -/
def standard : Options := ⟨standardRequestKey, standardReplyKey, .standard, true, false, 0⟩

def spec : List Opt :=
  [CommandLine.keyOption "in-key", CommandLine.keyOption "out-key",
    CommandLine.numberOption "max-pid" false, CommandLine.numberOption "max-arena" false,
    CommandLine.flagOption "lock-memory", CommandLine.flagOption "lock-all",
    CommandLine.flagOption "no-harden", CommandLine.verboseOption, CommandLine.helpOption,
    CommandLine.versionOption]

/-- The options as given, where each one not given has its standard value. -/
def ofGiven (g : Given) : Options where
  requestKey := (g.key? "in-key").getD standardRequestKey
  replyKey := (g.key? "out-key").getD standardReplyKey
  limits :=
    ⟨(g.number? "max-pid").getD Limits.standard.maxPid,
      (g.number? "max-arena").getD Limits.standard.maxArena, g.has "lock-memory"⟩
  harden := !g.has "no-harden"
  lockAll := g.has "lock-all"
  verbose := g.times "verbose"

def check (o : Options) : Except OptionsError Options :=
  if o.requestKey = o.replyKey then .error (.sameQueueKeys o.requestKey)
  else if o.limits.maxPid = 0 then .error .zeroMaxPid
  else if o.limits.maxArena = 0 then .error .zeroMaxArena
  else .ok o

def read (words : List String) : Except UsageError Options :=
  match CommandLine.readCommand spec words with
  | .error e => .error e
  | .ok given => .ok (ofGiven given)

end Options

end PolicyVault.Service
