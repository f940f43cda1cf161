import PolicyVault.CommandLine.Options
import PolicyVault.Wire.Request

/-!
# Commands of the client

Each subcommand of the client stands for one request, except the one that drains the queues. The
options of the client can be given before the subcommand or behind it; what is given behind it
counts.
-/

namespace PolicyVault.Console

open CommandLine (Opt UsageError Given)
open Wire (Request PolicyItem)

inductive Command
  | request (q : Request)
  | drain (remove : Bool)
  deriving DecidableEq, Repr

/-- The request that a command sends, if it talks to the service at all. -/
def Command.request? : Command → Option Request
  | .request q => some q
  | .drain _ => none

/-- A call of the client. -/
structure Invocation where
  inKey : Int32
  outKey : Int32
  verbose : Nat
  command : Command
  deriving DecidableEq, Repr

/-- A subcommand: its own options, and the command they make. -/
structure Subcommand where
  name : String
  options : List Opt
  build : Given → Option Command

def pidOption : Opt := CommandLine.decimalOption "pid" true

def subcommands : List Subcommand := [
  ⟨"load", [pidOption, CommandLine.numberOption "size" true,
      CommandLine.textsOption "policy" true], fun g => do
    let policies := (g.texts "policy").map (PolicyItem.ofExpression ∘ Text.bytesOfText)
    return .request (.load (← g.number? "pid") (← g.number? "size") policies)⟩,
  ⟨"unload", [pidOption], fun g => do return .request (.unload (← g.number? "pid"))⟩,
  ⟨"alloc", [pidOption, CommandLine.numberOption "size" true,
      CommandLine.decimalOption "policy-id" false], fun g => do
    let policy := (g.number? "policy-id").getD 0
    return .request (.alloc (← g.number? "pid") (← g.number? "size") policy)⟩,
  ⟨"dealloc", [pidOption, CommandLine.numberOption "addr" true], fun g => do
    return .request (.dealloc (← g.number? "pid") (← g.number? "addr"))⟩,
  ⟨"read", [pidOption, CommandLine.numberOption "addr" true,
      CommandLine.numberOption "len" true], fun g => do
    return .request (.read (← g.number? "pid") (← g.number? "addr") (← g.number? "len"))⟩,
  ⟨"write", [pidOption, CommandLine.numberOption "addr" true,
      CommandLine.bytesOption "data" true], fun g => do
    return .request (.write (← g.number? "pid") (← g.number? "addr") (← g.bytes? "data"))⟩,
  ⟨"view", [pidOption], fun g => do return .request (.view (← g.number? "pid"))⟩,
  ⟨"nil", [], fun _ => some (.request .nil)⟩,
  ⟨"terminate", [], fun _ => some (.request .terminate)⟩,
  ⟨"drain", [CommandLine.flagOption "remove"], fun g => some (.drain (g.has "remove"))⟩]

def sharedOptions : List Opt :=
  [CommandLine.keyOption "in-key", CommandLine.keyOption "out-key", CommandLine.verboseOption]

def helpName : String := "help"

def helpOn (words : List String) : UsageError :=
  match words with
  | [] => .displayHelp
  | [word] =>
    if word == helpName || subcommands.any (·.name == word) then .displayHelp
    else .invalidSubcommand
  | _ => .invalidSubcommand

/-- The call that the options before and behind a subcommand make. -/
def Invocation.ofGiven (front behind : Given) (command : Command) : Invocation where
  inKey := (behind.key? "in-key" <|> front.key? "in-key").getD 0xdead1
  outKey := (behind.key? "out-key" <|> front.key? "out-key").getD 0xdead2
  verbose := if behind.has "verbose" then behind.times "verbose" else front.times "verbose"
  command := command

/-- Reads the words behind the name of a subcommand, and then settles what stands before it. -/
def readSubcommand (front : CommandLine.Reading) (sub : Subcommand) (words : List String) :
    Except UsageError Invocation :=
  match CommandLine.readCommand (sub.options ++ sharedOptions ++ [CommandLine.helpOption]) words with
  | .error e => .error e
  | .ok behind =>
    match CommandLine.settled front with
    | .error e => .error e
    | .ok front =>
      match sub.build behind with
      | none => .error .missingRequiredArgument
      | some command => .ok (.ofGiven front behind command)

/-- Reads the words of a call of the client. -/
def Invocation.read (words : List String) : Except UsageError Invocation :=
  let options := sharedOptions ++ [CommandLine.helpOption, CommandLine.versionOption]
  match CommandLine.readWords options (helpName :: subcommands.map (·.name)) .start words with
  | .error e => .error e
  | .ok (.words front) =>
    match CommandLine.settled front with
    | .error e => .error e
    | .ok [] => .error .displayHelpOnMissing
    | .ok (_ :: _) => .error .missingSubcommand
  | .ok (.subcommand front name rest) =>
    match subcommands.find? fun sub => sub.name == name with
    | none => .error (helpOn rest)
    | some sub => readSubcommand front sub rest

end PolicyVault.Console
