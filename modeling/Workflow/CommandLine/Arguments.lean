import Workflow.Bindings
import Workflow.CommandLine.Manual
import Workflow.Text.Natural

namespace Workflow.CommandLine

/-- What is wrong with the arguments. -/
inductive UsageError where
  | missingCommand
  | unknownCommand (name : String)
  | unknownOption (written : String)
  | repeatedOption (name : String)
  | missingValue (name : String)
  | uselessValue (name : String)
  | emptyPath (name : String)
  | notNatural (name value : String)
  | missingArgument (name : String)
  | unexpectedArgument (argument : String)
  | exclusive (first second : String)
  deriving DecidableEq, Repr

/-- The wording of a usage error. -/
def UsageError.message : UsageError → String
  | .missingCommand => "a command is required"
  | .unknownCommand name => "unknown command '" ++ name ++ "'"
  | .unknownOption written => "unknown option '" ++ written ++ "'"
  | .repeatedOption name => "option '--" ++ name ++ "' is given twice"
  | .missingValue name => "option '--" ++ name ++ "' needs a value"
  | .uselessValue name => "option '--" ++ name ++ "' takes no value"
  | .emptyPath name => "the path of '" ++ name ++ "' is empty"
  | .notNatural name value => "the value '" ++ value ++ "' of '--" ++ name ++ "' is not a number"
  | .missingArgument name => "'" ++ name ++ "' is required"
  | .unexpectedArgument argument => "unexpected argument '" ++ argument ++ "'"
  | .exclusive first second => "'--" ++ first ++ "' and '--" ++ second ++ "' exclude each other"

/-- What the arguments say. A switch is bound to the empty text. -/
structure Given where
  options : Bindings String := []
  plain : List String := []
  deriving DecidableEq, Repr

namespace Given

/-- Refuses a value that is not of its kind. -/
def checkValue (name value : String) : ValueKind → Except UsageError Unit
  | .text => .ok ()
  | .path => if value = "" then .error (.emptyPath name) else .ok ()
  | .natural =>
    if (Text.natural? value).isSome then .ok () else .error (.notNatural name value)

/-- Binds an option, which may be given once. A switch is bound to the empty text. -/
def put (given : Given) (option : Known) (value : String) : Except UsageError Given := do
  if given.options.contains option.name then .error (.repeatedOption option.name)
  else
    (option.kind?.map (checkValue option.name value)).getD (.ok ())
    .ok { given with options := given.options.insert option.name value }

/-- Adds a plain argument, which is a path. -/
def addPlain (manual : Manual) (given : Given) (argument : String) : Except UsageError Given := do
  match manual.plain?, given.plain with
  | some plain, [] =>
    checkValue plain.1 argument .path
    .ok { given with plain := [argument] }
  | _, _ => .error (.unexpectedArgument argument)

/-- The value of an option. -/
def value? (given : Given) (name : String) : Option String := given.options.find? name

/-- Whether a switch is set. -/
def isSet (given : Given) (name : String) : Bool := given.options.contains name

/-- Whether help is asked for. -/
def asksHelp (given : Given) : Bool := given.isSet Known.help.name

end Given

/-- How an argument is written: an option by its long name or by a letter, or a plain argument.
Letters of switches, which are options without a value, may share one hyphen. -/
inductive Shape where
  /-- Two hyphens alone. -/
  | divider
  /-- Two hyphens, a name, and perhaps a value behind an equals sign. -/
  | long (name : String) (value? : Option String)
  /-- One hyphen and letters. -/
  | letters (letters : List Char)
  | plain
  deriving DecidableEq, Repr

/-- The shape of an argument. A hyphen alone is plain. -/
def Shape.of (argument : String) : Shape :=
  match argument.toList with
  | ['-', '-'] => .divider
  | '-' :: '-' :: rest =>
    let name := String.ofList (rest.takeWhile (· ≠ '='))
    match rest.dropWhile (· ≠ '=') with
    | [] => .long name none
    | _ :: value => .long name (some (String.ofList value))
  | '-' :: c :: rest => .letters (c :: rest)
  | _ => .plain

/-- Reads an option by its long name. Also says which option still waits for its value. -/
def readLong (known : List Known) (given : Given) (name : String) (value? : Option String) :
    Except UsageError (Given × Option Known) :=
  match known.find? (·.name == name) with
  | none => .error (.unknownOption ("--" ++ name))
  | some option =>
    match option.kind?, value? with
    | some _, some value => (given.put option value).map (·, none)
    | some _, none => .ok (given, some option)
    | none, some _ => .error (.uselessValue name)
    | none, none => (given.put option "").map (·, none)

/-- Reads options by their letters. What follows the letter of an option that takes a value is that
value. Also says which option still waits for its value. -/
def readLetters (known : List Known) (given : Given) :
    List Char → Except UsageError (Given × Option Known)
  | [] => .ok (given, none)
  | c :: rest =>
    match known.find? (·.letter? == some c) with
    | none => .error (.unknownOption (String.ofList ['-', c]))
    | some option =>
      if option.kind?.isSome then
        match rest with
        | [] => .ok (given, some option)
        | '=' :: value => (given.put option (String.ofList value)).map (·, none)
        | value => (given.put option (String.ofList value)).map (·, none)
      else
        match given.put option "" with
        | .error e => .error e
        | .ok given => if given.asksHelp then .ok (given, none) else readLetters known given rest

/-- Reads arguments after what is already given, in their order, up to the first that asks for help.
`waiting?` is the option whose value comes next. A value follows its option as the next argument,
behind an equals sign, or right behind a letter. Two hyphens alone make everything after them
plain. -/
def readArguments (manual : Manual) (given : Given) :
    (waiting? : Option Known) → List String → Except UsageError Given
  | none, [] => .ok given
  | some option, [] => .error (.missingValue option.name)
  | some option, argument :: rest => do
    if Shape.of argument = .plain then
      readArguments manual (← given.put option argument) none rest
    else .error (.missingValue option.name)
  | none, argument :: rest => do
    if given.asksHelp then .ok given
    else
      match Shape.of argument with
      | .plain => readArguments manual (← given.addPlain manual argument) none rest
      | .divider => rest.foldlM (Given.addPlain manual) given
      | .long name value? =>
        let (given, waiting?) ← readLong manual.options given name value?
        readArguments manual given waiting? rest
      | .letters letters =>
        let (given, waiting?) ← readLetters manual.options given letters
        readArguments manual given waiting? rest

/-- Reads the arguments of a command. -/
def Given.ofArguments (manual : Manual) (arguments : List String) : Except UsageError Given :=
  readArguments manual {} none arguments

end Workflow.CommandLine
