import PolicyVault.CommandLine.Values

/-!
# Options

A command is called with words. A word that starts with two dashes names an option, one that
starts with one dash a row of one-letter options, and two dashes alone end the options. The value
of an option is the next word, unless that starts with a dash, or stands behind an equals sign.
An option is settled when the next one begins, and what is wrong with it shows only then.
-/

namespace PolicyVault.CommandLine

/-- Why a command line is not accepted, or what it asks for instead of a run. -/
inductive UsageError
  | valueValidation
  | invalidValue
  | unknownArgument
  | invalidSubcommand
  | missingRequiredArgument
  | missingSubcommand
  | argumentConflict
  | tooManyValues
  | displayHelp
  | displayVersion
  | displayHelpOnMissing
  deriving DecidableEq, Repr

inductive Value
  | none
  | key (k : Int32)
  | number (n : UInt32)
  | text (s : String)
  | bytes (b : List UInt8)
  deriving DecidableEq, Repr

/-- What an option takes and how often it may be given: one value, any number of values, nothing
and once, or nothing and any number of times. -/
inductive Action
  | one (read : String → Option Value)
  | many (read : String → Option Value)
  | flag
  | count
  | help
  | version

structure Opt where
  long : String
  short : Option Char
  action : Action
  required : Bool

def Opt.takesValue (o : Opt) : Bool :=
  match o.action with
  | .one _ | .many _ => true
  | _ => false

/-- The options given so far, each with its values in order. -/
abbrev Given := List (String × Value)

def Given.values (g : Given) (long : String) : List Value :=
  (g.filter fun entry => entry.1 == long).map (·.2)

def Given.has (g : Given) (long : String) : Bool :=
  g.any fun entry => entry.1 == long

/-! ## Words -/

inductive Word
  | ends
  | long (name : String) (value : Option String)
  | short (letters : List Char)
  | plain
  deriving DecidableEq, Repr

/-- The name and the value of a long option, parted by the first equals sign. -/
def partLong (body : List Char) : Word :=
  let name := String.ofList (body.takeWhile (· ≠ '='))
  match body.dropWhile (· ≠ '=') with
  | [] => .long name none
  | _ :: value => .long name (some (String.ofList value))

/-- What a word looks like. A single dash is a plain word. -/
def Word.of (word : String) : Word :=
  match word.toList with
  | ['-', '-'] => .ends
  | '-' :: '-' :: body => partLong body
  | '-' :: c :: rest => .short (c :: rest)
  | _ => .plain

/-! ## Reading words -/

/-- What has been read: the options settled, and one that is not, with its value if that has been
given. -/
structure Reading where
  given : Given
  unsettled : Option (Opt × Option String)

namespace Reading

def start : Reading := ⟨[], none⟩

def add (r : Reading) (o : Opt) (v : Value) : Reading :=
  { r with given := r.given ++ [(o.long, v)] }

def addOnce (r : Reading) (o : Opt) (v : Option Value) : Except UsageError Reading :=
  if r.given.has o.long then .error .argumentConflict
  else
    match v with
    | none => .error .valueValidation
    | some v => .ok (r.add o v)

/-- Adds an option with the text of its value, if it takes one. -/
def store (r : Reading) (o : Opt) (text : Option String) : Except UsageError Reading :=
  match o.action, text with
  | .one _, none | .many _, none => .error .invalidValue
  | .one read, some text => r.addOnce o (read text)
  | .many read, some text =>
    match read text with
    | none => .error .valueValidation
    | some v => .ok (r.add o v)
  | .flag, _ => r.addOnce o (some .none)
  | .count, _ => .ok (r.add o .none)
  | .help, _ => .error .displayHelp
  | .version, _ => .error .displayVersion

def settle (r : Reading) : Except UsageError Reading :=
  match r.unsettled with
  | none => .ok r
  | some (o, text) => { r with unsettled := none : Reading }.store o text

def wantsValue (r : Reading) : Bool :=
  match r.unsettled with
  | some (_, none) => true
  | _ => false

def giveValue (r : Reading) (word : String) : Reading :=
  { r with unsettled := r.unsettled.map fun (o, _) => (o, some word) }

/-- Begins an option. Only one that takes a value from the next word stays unsettled. -/
def begin (r : Reading) (o : Opt) (attached : Option String) : Except UsageError Reading :=
  match r.settle with
  | .error e => .error e
  | .ok r =>
    if o.takesValue && attached.isNone then .ok { r with unsettled := some (o, none) }
    else r.store o attached

def readLong (r : Reading) (options : List Opt) (name : String) (value : Option String) :
    Except UsageError Reading :=
  match options.find? fun o => o.long == name with
  | none => .error .unknownArgument
  | some o =>
    if !o.takesValue && value.isSome then .error .tooManyValues else r.begin o value

/-- Reads a row of one-letter options, none of which takes a value. -/
def readShort (r : Reading) (options : List Opt) : List Char → Except UsageError Reading
  | [] => .ok r
  | c :: rest =>
    match options.find? fun o => o.short == some c with
    | none => .error .unknownArgument
    | some o =>
      match r.begin o none with
      | .error e => .error e
      | .ok r => readShort r options rest

end Reading

/-- Where the reading of a command ends: with the words, or at the name of a subcommand. -/
inductive Finish
  | words (r : Reading)
  | subcommand (r : Reading) (name : String) (rest : List String)

/-- The error for a plain word that nothing wants, where `ended` tells whether the options have
ended. -/
def surplus (subcommands : List String) (ended : Bool) (word : String) : UsageError :=
  if subcommands.isEmpty then .unknownArgument
  else if ended && subcommands.contains word then .unknownArgument
  else .invalidSubcommand

def readWords (options : List Opt) (subcommands : List String) (r : Reading) :
    List String → Except UsageError Finish
  | [] => .ok (.words r)
  | word :: rest =>
    if !r.wantsValue && subcommands.contains word then .ok (.subcommand r word rest)
    else
      match Word.of word with
      | .ends =>
        match rest with
        | [] => .ok (.words r)
        | next :: _ => .error (surplus subcommands true next)
      | .long name value =>
        match r.readLong options name value with
        | .error e => .error e
        | .ok r => readWords options subcommands r rest
      | .short letters =>
        match r.readShort options letters with
        | .error e => .error e
        | .ok r => readWords options subcommands r rest
      | .plain =>
        if r.wantsValue then readWords options subcommands (r.giveValue word) rest
        else .error (surplus subcommands false word)

/-- The options given, if none is left unsettled. -/
def settled (r : Reading) : Except UsageError Given :=
  match r.settle with
  | .error e => .error e
  | .ok r => .ok r.given

/-- Reads all words of a command without subcommands, whose required options have to be there. -/
def readCommand (options : List Opt) (words : List String) : Except UsageError Given :=
  match readWords options [] .start words with
  | .error e => .error e
  | .ok (.subcommand ..) => .error .unknownArgument
  | .ok (.words r) =>
    match settled r with
    | .error e => .error e
    | .ok given =>
      if options.all fun o => !o.required || given.has o.long then .ok given
      else .error .missingRequiredArgument

/-! ## Kinds of options -/

def keyOption (long : String) : Opt :=
  ⟨long, none, .one fun s => (readKey s).toOption.map .key, false⟩

def numberOption (long : String) (required : Bool) : Opt :=
  ⟨long, none, .one fun s => (readNumber s).toOption.map .number, required⟩

def decimalOption (long : String) (required : Bool) : Opt :=
  ⟨long, none, .one fun s => (readDecimal? s).map .number, required⟩

def textsOption (long : String) (required : Bool) : Opt :=
  ⟨long, none, .many fun s => some (.text s), required⟩

def bytesOption (long : String) (required : Bool) : Opt :=
  ⟨long, none, .one fun s => (readHex s).toOption.map .bytes, required⟩

def flagOption (long : String) : Opt := ⟨long, none, .flag, false⟩

def verboseOption : Opt := ⟨"verbose", some 'v', .count, false⟩

def helpOption : Opt := ⟨"help", some 'h', .help, false⟩

def versionOption : Opt := ⟨"version", some 'V', .version, false⟩

namespace Given

def key? (g : Given) (long : String) : Option Int32 :=
  match (g.values long).head? with
  | some (.key k) => some k
  | _ => none

def number? (g : Given) (long : String) : Option UInt32 :=
  match (g.values long).head? with
  | some (.number n) => some n
  | _ => none

def bytes? (g : Given) (long : String) : Option (List UInt8) :=
  match (g.values long).head? with
  | some (.bytes b) => some b
  | _ => none

def texts (g : Given) (long : String) : List String :=
  (g.values long).filterMap fun v =>
    match v with
    | .text s => some s
    | _ => none

/-- How often an option was given. Beyond 255 times it makes no difference. -/
def times (g : Given) (long : String) : Nat :=
  min (g.values long).length 255

end Given

end PolicyVault.CommandLine
