import ArityCheck.Path.Basic
import ArityCheck.Report.Format

/-! The command line of the program.

Options are read from left to right. Those of the program itself may also stand after the name of
a command. An option with a value has it attached or as the next argument; options of one letter
may share a dash. -/

namespace ArityCheck.Cli

/-! ### Options -/

inductive Flag where
  | verbose
  | config
  | format
  | rules
  | exclude
  | force
  | help
  | version
deriving DecidableEq, Repr

namespace Flag

def name : Flag → String
  | .verbose => "verbose"
  | .config => "config"
  | .format => "format"
  | .rules => "rules"
  | .exclude => "exclude"
  | .force => "force"
  | .help => "help"
  | .version => "version"

def letter? : Flag → Option Char
  | .verbose => some 'v'
  | .config => some 'c'
  | .format => some 'f'
  | .exclude => some 'e'
  | .help => some 'h'
  | .version => some 'V'
  | .rules | .force => none

def takesValue : Flag → Bool
  | .config | .format | .rules | .exclude => true
  | .verbose | .force | .help | .version => false

/-- The option may be given more than once. -/
def repeats : Flag → Bool
  | .exclude => true
  | _ => false

/-- The text is a value that the option can have. -/
def admits (flag : Flag) (value : String) : Bool :=
  match flag with
  | .format => (Format.ofName? value).isSome
  | .config => !value.isEmpty
  | _ => true

end Flag

/-! ### Results -/

/-- What is asked for. -/
inductive Command where
  | check (path : Path) (format : Format) (rules : Option String) (exclude : List String)
  | listRules
  | init (force : Bool)
deriving DecidableEq, Repr

structure Invocation where
  verbose : Bool
  config : Option Path
  command : Command
deriving DecidableEq, Repr

/-- What is wrong with a command line. -/
inductive UsageError where
  | noCommand
  | unknownCommand (name : String)
  | unexpected (arg : String)
  | missingValue (flag : Flag)
  | invalidValue (value : String)
  | repeated (flag : Flag)
deriving DecidableEq, Repr

def UsageError.message : UsageError → String
  | .noCommand => "no command is given"
  | .unknownCommand name => "unknown command '" ++ name ++ "'"
  | .unexpected arg => "unexpected argument '" ++ arg ++ "'"
  | .missingValue flag => "a value is required for '--" ++ flag.name ++ "'"
  | .invalidValue value => "invalid value '" ++ value ++ "'"
  | .repeated flag => "the argument '--" ++ flag.name ++ "' cannot be used multiple times"

/-- Why a command line is not read to its end. -/
inductive Stop where
  | usage (e : UsageError)
  | help
  | version
deriving DecidableEq, Repr

/-! ### Reading -/

/-- The part of the command line that is read: before the name of a command, or after it. -/
inductive Level where
  | program
  | check
  | listRules
  | init
deriving DecidableEq, Repr

namespace Level

def flags : Level → List Flag
  | .program => [.verbose, .config, .help, .version]
  | .check => [.verbose, .config, .help, .format, .rules, .exclude]
  | .listRules => [.verbose, .config, .help]
  | .init => [.verbose, .config, .help, .force]

def ofCommand? : String → Option Level
  | "check" => some .check
  | "list-rules" => some .listRules
  | "init" => some .init
  | _ => none

def named? (l : Level) (name : String) : Option Flag := l.flags.find? (·.name == name)

def lettered? (l : Level) (letter : Char) : Option Flag := l.flags.find? (·.letter? == some letter)

end Level

/-- What has been read at a level. -/
structure Reading where
  given : List (Flag × String) := []
  path : Option String := none
  /-- An option that waits for its value. -/
  awaiting : Option Flag := none
  /-- What follows is no option, whatever it looks like. -/
  literal : Bool := false

namespace Reading

def has (r : Reading) (flag : Flag) : Bool := r.given.any (·.1 == flag)

def values (r : Reading) (flag : Flag) : List String :=
  (r.given.filter (·.1 == flag)).map (·.2)

def value? (r : Reading) (flag : Flag) : Option String := (r.values flag).head?

/-- Takes an option with its value, which is empty if it has none. -/
def give (r : Reading) (flag : Flag) (value : String) : Except Stop Reading :=
  if flag = .help then .error .help
  else if flag = .version then .error .version
  else if !flag.admits value then .error (.usage (.invalidValue value))
  else if r.has flag && !flag.repeats then .error (.usage (.repeated flag))
  else .ok { r with given := r.given ++ [(flag, value)], awaiting := none }

/-- Takes an argument that is no option. Only a check has one, and only one. -/
def position (r : Reading) (l : Level) (arg : String) : Except Stop Reading :=
  if l ≠ .check ∨ r.path.isSome then .error (.usage (.unexpected arg))
  else if arg.isEmpty then .error (.usage (.invalidValue arg))
  else .ok { r with path := some arg }

/-- Takes an option that is written out, with its value if that is attached. -/
def long (r : Reading) (l : Level) (name : String) (value? : Option String) : Except Stop Reading :=
  match l.named? name, value? with
  | none, _ => .error (.usage (.unexpected ("--" ++ name)))
  | some flag, none =>
    if flag.takesValue then .ok { r with awaiting := some flag } else r.give flag ""
  | some flag, some value =>
    if flag.takesValue then r.give flag value else .error (.usage (.invalidValue value))

/-- Takes options of one letter. The rest after one with a value is that value. -/
def short (r : Reading) (l : Level) : List Char → Except Stop Reading
  | [] => .ok r
  | c :: cs =>
    match l.lettered? c with
    | none => .error (.usage (.unexpected ("-" ++ String.singleton c)))
    | some flag =>
      if flag.takesValue then
        match cs with
        | [] => .ok { r with awaiting := some flag }
        | '=' :: value => r.give flag (String.ofList value)
        | value => r.give flag (String.ofList value)
      else do (← r.give flag "").short l cs

/-- Takes one argument. -/
def take (r : Reading) (l : Level) (arg : String) : Except Stop Reading :=
  match r.awaiting, arg.toList with
  | some flag, '-' :: _ :: _ => .error (.usage (.missingValue flag))
  | some flag, _ => r.give flag arg
  | none, cs =>
    if r.literal then r.position l arg
    else
      match cs with
      | ['-', '-'] => .ok { r with literal := true }
      | '-' :: '-' :: rest =>
        let name := rest.takeWhile (· != '=')
        let value? := (rest.dropWhile (· != '=')).tail?.map String.ofList
        r.long l (String.ofList name) value?
      | '-' :: c :: rest => r.short l (c :: rest)
      | _ => r.position l arg

/-- Takes all arguments after the name of a command. -/
def takeAll (r : Reading) (l : Level) : List String → Except Stop Reading
  | [] =>
    match r.awaiting with
    | some flag => .error (.usage (.missingValue flag))
    | none => .ok r
  | arg :: args => do (← r.take l arg).takeAll l args

end Reading

/-! ### Invocations -/

/-- The configuration that is asked for at a level. A text from the environment stands in where
none is given, and has to be a path even if it is not used in the end. -/
def Reading.config (r : Reading) (fallback : Option String) : Except Stop (Option String) :=
  match r.value? .config, fallback with
  | some path, _ => .ok (some path)
  | none, some path => if path.isEmpty then .error (.usage (.invalidValue path)) else .ok (some path)
  | none, none => .ok none

/-- The command that was read at its level. -/
def Reading.command (r : Reading) : Level → Except Stop Command
  | .program => .error (.usage .noCommand)
  | .check => .ok (.check ⟨r.path.getD "."⟩ (((r.value? .format).bind Format.ofName?).getD .text)
      (r.value? .rules) (r.values .exclude))
  | .listRules => .ok .listRules
  | .init => .ok (.init (r.has .force))

/-- What options before and after the name of a command ask for together. -/
def invocation (outer inner : Reading) (l : Level) (fallback : Option String) :
    Except Stop Invocation := do
  let before ← outer.config fallback
  let after ← inner.config fallback
  let given := (inner.value? .config).or ((outer.value? .config).or (after.or before))
  return {
    verbose := outer.has .verbose || inner.has .verbose
    config := given.map Path.mk
    command := ← inner.command l }

/-- The arguments after the name of a command, or what the name alone asks for. -/
def enter (outer : Reading) (fallback : Option String) (name : String) (args : List String) :
    Except Stop Invocation :=
  match Level.ofCommand? name, args with
  | some l, _ => do invocation outer (← Reading.takeAll {} l args) l fallback
  | none, [] => .error (if name = "help" then .help else .usage (.unknownCommand name))
  | none, [arg] =>
    .error (if name = "help" ∧ (Level.ofCommand? arg).isSome then .help
      else .usage (.unknownCommand name))
  | none, _ => .error (.usage (.unknownCommand name))

/-- An argument that is the name of a command: it looks like no option, and no option waits for
it. -/
def Reading.isCommandNext (r : Reading) (arg : String) : Bool :=
  r.awaiting.isNone && !r.literal &&
    match arg.toList with
    | '-' :: _ :: _ => false
    | _ => true

/-- Reads a command line, of which `outer` has been read. -/
def readFrom (outer : Reading) (fallback : Option String) : List String → Except Stop Invocation
  | [] => .error (.usage .noCommand)
  | arg :: args =>
    if outer.isCommandNext arg then enter outer fallback arg args
    else do readFrom (← outer.take .program arg) fallback args

/-- Reads a command line. The configuration may be given by the environment instead. -/
def Invocation.read (args : List String) (fallback : Option String) : Except Stop Invocation :=
  readFrom {} fallback args

end ArityCheck.Cli
