import Accumulator.Settings

/-!
Command lines: what the arguments of the program ask for. A command has one file
and options, in any order; short options may share a dash, and the last of them may
have its value attached. After `--` only files follow.
-/
namespace Accumulator

/-- The options of the commands. -/
inductive CommandOption where
  | binary
  | minimal
  | input
  | limit
  | command
deriving DecidableEq

namespace CommandOption

def long : CommandOption → String
  | binary => "binary"
  | minimal => "minimal"
  | input => "input"
  | limit => "limit"
  | command => "command"

def short : CommandOption → Char
  | binary => 'b'
  | minimal => 'm'
  | input => 'i'
  | limit => 'l'
  | command => 'c'

def takesValue : CommandOption → Bool
  | binary | minimal => false
  | input | limit | command => true

end CommandOption

/-- The commands of the program. -/
inductive Subcommand where
  | run
  | debug
  | check
  | watch
deriving DecidableEq

namespace Subcommand

def ofName? : String → Option Subcommand
  | "run" => some run
  | "debug" => some debug
  | "check" => some check
  | "watch" => some watch
  | _ => none

/-- The options that a command has. -/
def options : Subcommand → List CommandOption
  | run => [.binary, .minimal, .input, .limit]
  | debug => [.binary, .minimal, .input, .command]
  | check | watch => []

end Subcommand

/-- Why the arguments are not those of a command. -/
inductive Refusal where
  /-- They break the rules for arguments. -/
  | usage
  /-- They ask for help. -/
  | help
deriving DecidableEq

/-- The file and the options that follow a command. -/
structure Operands where
  path : Option String := none
  /-- The options given, with their values; the value of a switch is empty. -/
  options : List (CommandOption × String) := []
deriving DecidableEq

namespace Operands

/-- One more file. There is only one, and its name is not empty. -/
def addPath (o : Operands) (path : String) : Except Refusal Operands :=
  if path = "" ∨ o.path.isSome then .error .usage else .ok { o with path := some path }

/-- One more option. None may be repeated, and a limit has to be a number. -/
def addOption (o : Operands) (option : CommandOption) (value : String) : Except Refusal Operands :=
  if (o.options.lookup option).isSome then .error .usage
  else if option = .limit ∧ Settings.count? value.toList = none then .error .usage
  else .ok { o with options := (option, value) :: o.options }

def has (o : Operands) (option : CommandOption) : Bool := (o.options.lookup option).isSome

def value? (o : Operands) (option : CommandOption) : Option String := o.options.lookup option

/-- The arguments after `--`. -/
def addPaths (o : Operands) : List String → Except Refusal Operands
  | [] => .ok o
  | path :: rest => do addPaths (← o.addPath path) rest

/-- An argument with a dash and something after it is no value and no file. -/
def isDashed (arg : String) : Bool :=
  match arg.toList with
  | '-' :: _ :: _ => true
  | _ => false

/-- The short options after one dash. The second result is an option that has not got
    its value yet. -/
def addShort (known : List CommandOption) (o : Operands) :
    List Char → Except Refusal (Operands × Option CommandOption)
  | [] => .ok (o, none)
  | c :: rest =>
    match known.find? (·.short = c) with
    | none => .error (if c = 'h' then .help else .usage)
    | some option =>
      if option.takesValue then
        match rest with
        | [] => .ok (o, some option)
        | '=' :: value => do .ok (← o.addOption option (String.ofList value), none)
        | value => do .ok (← o.addOption option (String.ofList value), none)
      else do addShort known (← o.addOption option "") rest

/-- A long option. A value may be attached after `=`. -/
def addLong (known : List CommandOption) (o : Operands) (text : List Char) :
    Except Refusal (Operands × Option CommandOption) :=
  let name := String.ofList (text.takeWhile (· ≠ '='))
  match known.find? (·.long = name), text.dropWhile (· ≠ '=') with
  | some option, [] => if option.takesValue then .ok (o, some option) else do .ok (← o.addOption option "", none)
  | some option, _ :: value =>
    if option.takesValue then do .ok (← o.addOption option (String.ofList value), none) else .error .usage
  | none, attached => .error (if name = "help" ∧ attached = [] then .help else .usage)

/-- The option, or the options, of a dashed argument. -/
def addDashed (known : List CommandOption) (o : Operands) (arg : String) :
    Except Refusal (Operands × Option CommandOption) :=
  match arg.toList with
  | '-' :: '-' :: text => addLong known o text
  | cs => addShort known o cs.tail

/-- The operands of all arguments after a command. -/
def addAll (known : List CommandOption) (o : Operands) : List String → Except Refusal Operands
  | [] => .ok o
  | arg :: rest =>
    if arg = "--" then o.addPaths rest
    else if isDashed arg then do
      match ← addDashed known o arg, rest with
      | (o, none), rest => addAll known o rest
      | (_, some _), [] => .error .usage
      | (o, some option), value :: rest =>
        if isDashed value then .error .usage else addAll known (← o.addOption option value) rest
    else do addAll known (← o.addPath arg) rest

end Operands

/-- How a program is to be run. -/
structure RunRequest where
  path : String
  binary : Bool := false
  minimal : Bool := false
  /-- The characters for `IN`. -/
  input : Option String := none
  limit : Option Nat := none
  /-- With a debugger; its commands may be given. -/
  debug : Option (Option String) := none
deriving DecidableEq

inductive Request where
  | welcome
  | version
  | run (request : RunRequest)
  | check (path : String)
  | watch (path : String)
deriving DecidableEq

namespace Request

/-- The request of a command with its operands, which have to name a file. -/
def ofOperands (command : Subcommand) (o : Operands) : Except Refusal Request :=
  match o.path with
  | none => .error .usage
  | some path =>
    let request : RunRequest :=
      { path := path
        binary := o.has .binary
        minimal := o.has .minimal
        input := o.value? .input
        limit := (o.value? .limit).bind fun text => Settings.count? text.toList }
    match command with
    | .run => .ok (.run request)
    | .debug => .ok (.run { request with debug := some (o.value? .command) })
    | .check => .ok (.check path)
    | .watch => .ok (.watch path)

/-- The request for a file without a command, or for none. -/
def ofPath : Option String → Request
  | none => .welcome
  | some path => .run { path := path }

/-- The request of arguments before which a file may have been named. A command may
    still follow, and then counts instead of the file. -/
def ofArgumentsAfter (o : Operands) : List String → Except Refusal Request
  | [] => .ok (ofPath o.path)
  | arg :: rest =>
    if arg = "--" then do .ok (ofPath (← o.addPaths rest).path)
    else if arg = "--version" ∨ arg.toList.take 2 = ['-', 'V'] then .ok .version
    else if isDashedHelp arg ∨ arg = "help" then .error .help
    else if Operands.isDashed arg then .error .usage
    else match Subcommand.ofName? arg with
      | some command => do ofOperands command (← Operands.addAll command.options {} rest)
      | none => do ofArgumentsAfter (← o.addPath arg) rest
where
  /-- The argument asks for help. -/
  isDashedHelp (arg : String) : Bool := arg = "--help" || arg.toList.take 2 = ['-', 'h']

/-- What the arguments of the program ask for. -/
def ofArguments (args : List String) : Except Refusal Request := ofArgumentsAfter {} args

/-- The file that has to be read. -/
def path? : Request → Option String
  | welcome | version => none
  | run request => some request.path
  | check path | watch path => some path

/-- How the program is used. -/
def usage : String :=
  "Usage: ciasm [PATH]\n" ++
  "       ciasm run [-b] [-m] [-i INPUT] [-l LIMIT] NAME\n" ++
  "       ciasm debug [-b] [-m] [-i INPUT] [-c COMMAND] NAME\n" ++
  "       ciasm check NAME\n" ++
  "       ciasm watch NAME\n"

end Request
end Accumulator
