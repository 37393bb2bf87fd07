import Montage.Path

/-!
# Arguments of the command line

Arguments are read from left to right. Options have a long name and some a letter; letters may stand
together after one hyphen, and the value of an option stands in the same argument, perhaps after an
equals sign, or in the next one. No option may be given twice, and nothing but options is taken. The
first fault decides, but what comes after a request for help or for the version does not count.
-/

set_option autoImplicit false
set_option relaxedAutoImplicit false

namespace Montage.CommandLine

/-- An option with a value. -/
inductive Valued where
  /-- The input directory. -/
  | input
  /-- The output directory. -/
  | output
  /-- The settings file. -/
  | settings
deriving DecidableEq, Repr

/-- An option without a value. -/
inductive Switch where
  /-- Report the commands and run nothing. -/
  | dryRun
  /-- Show the runs and compose nothing. -/
  | show
  /-- Report more. -/
  | verbose
deriving DecidableEq, Repr

/-- An option. -/
inductive OptionName where
  /-- An option with a value. -/
  | valued (option : Valued)
  /-- An option without a value. -/
  | switch (option : Switch)
  /-- A request for help. -/
  | help
  /-- A request for the version. -/
  | version
deriving DecidableEq, Repr

namespace OptionName

/-- The option of a long name. -/
def ofLong? (name : List Char) : Option OptionName :=
  match String.ofList name with
  | "input" => some (.valued .input)
  | "output" => some (.valued .output)
  | "config" => some (.valued .settings)
  | "dry-run" => some (.switch .dryRun)
  | "show" => some (.switch .show)
  | "verbose" => some (.switch .verbose)
  | "help" => some .help
  | "version" => some .version
  | _ => none

/-- The option of a letter. -/
def ofLetter? : Char → Option OptionName
  | 'i' => some (.valued .input)
  | 'o' => some (.valued .output)
  | 'c' => some (.valued .settings)
  | 'v' => some (.switch .verbose)
  | 'h' => some .help
  | 'V' => some .version
  | _ => none

end OptionName

/-- What is wrong with the arguments. -/
inductive UsageFault where
  /-- An argument that means nothing. -/
  | unknown (argument : String)
  /-- An option without the value that it needs. -/
  | missingValue (option : Valued)
  /-- An option with a value that it does not take. -/
  | unexpectedValue (option : OptionName)
  /-- An option that is given twice. -/
  | repeated (option : OptionName)
  /-- There is no input directory. -/
  | missingInput
deriving DecidableEq, Repr

/-- What the arguments say so far. -/
structure Given where
  /-- The options with values. -/
  values : List (Valued × Path) := []
  /-- The options without values. -/
  switches : List Switch := []
deriving DecidableEq, Repr

/-- What is asked for. -/
inductive Request where
  /-- Help. -/
  | help
  /-- The version. -/
  | version
  /-- A composition. -/
  | composition (input : Path) (output settings : Option Path) (switches : List Switch)
deriving DecidableEq, Repr

namespace Given

/-- Takes the value of an option. No value is empty. -/
def addValue (given : Given) (option : Valued) (value : List Char) : Except UsageFault Given :=
  if (given.values.lookup option).isSome then .error (.repeated (.valued option))
  else if value = [] then .error (.missingValue option)
  else .ok { given with values := given.values ++ [(option, ⟨String.ofList value⟩)] }

/-- Takes an option without a value. -/
def addSwitch (given : Given) (option : Switch) : Except UsageFault Given :=
  if option ∈ given.switches then .error (.repeated (.switch option))
  else .ok { given with switches := given.switches ++ [option] }

/-- What is asked for once all arguments are read. -/
def toRequest (given : Given) : Except UsageFault Request :=
  match given.values.lookup .input with
  | none => .error .missingInput
  | some input => .ok (.composition input (given.values.lookup .output)
      (given.values.lookup .settings) given.switches)

end Given

/-- What is known after an argument. -/
inductive Progress where
  /-- The options so far, with their values. -/
  | given (given : Given)
  /-- The options so far, and one whose value is the next argument. -/
  | awaiting (given : Given) (option : Valued)
  /-- What is asked for, whatever follows. -/
  | settled (request : Request)
deriving DecidableEq, Repr

/-- Whether an argument may be the value of the option before it. -/
def isValue (argument : List Char) : Bool :=
  argument.head? != some '-' || argument == ['-']

/-- Reads letters after one hyphen. The rest of the argument is the value of an option that takes
one; if there is no rest, the next argument is. -/
def readLetters (given : Given) : List Char → Except UsageFault Progress
  | [] => .ok (.given given)
  | letter :: rest =>
    match OptionName.ofLetter? letter, rest with
    | none, _ => .error (.unknown (String.ofList ['-', letter]))
    | some .help, _ => .ok (.settled .help)
    | some .version, _ => .ok (.settled .version)
    | some (.switch option), _ =>
      match given.addSwitch option with
      | .ok given => readLetters given rest
      | .error fault => .error fault
    | some (.valued option), [] => .ok (.awaiting given option)
    | some (.valued option), '=' :: value => (given.addValue option value).map .given
    | some (.valued option), value => (given.addValue option value).map .given

/-- Reads an option by its long name, with its value if there is an equals sign. -/
def readLong (given : Given) (name : List Char) (value? : Option (List Char)) :
    Except UsageFault Progress :=
  match OptionName.ofLong? name, value? with
  | none, _ => .error (.unknown ("--" ++ String.ofList name))
  | some (.valued option), some value => (given.addValue option value).map .given
  | some (.valued option), none => .ok (.awaiting given option)
  | some option, some _ => .error (.unexpectedValue option)
  | some .help, none => .ok (.settled .help)
  | some .version, none => .ok (.settled .version)
  | some (.switch option), none => (given.addSwitch option).map .given

/-- Reads one argument that is no value. -/
def readOption (given : Given) (argument : List Char) : Except UsageFault Progress :=
  match argument with
  | '-' :: '-' :: name =>
    let value? := match name.dropWhile (· != '=') with
      | _ :: value => some value
      | [] => none
    readLong given (name.takeWhile (· != '=')) value?
  | '-' :: letter :: letters => readLetters given (letter :: letters)
  | _ => .error (.unknown (String.ofList argument))

/-- Reads arguments, of which the first one may be the value of an option before them. Two hyphens
end the options, and nothing may follow them. -/
def readFrom (given : Given) (awaiting? : Option Valued) : List String → Except UsageFault Request
  | [] =>
    match awaiting? with
    | some option => .error (.missingValue option)
    | none => given.toRequest
  | argument :: rest =>
    match awaiting? with
    | some option =>
      if isValue argument.toList then
        match given.addValue option argument.toList with
        | .ok given => readFrom given none rest
        | .error fault => .error fault
      else .error (.missingValue option)
    | none =>
      if argument = "--" then
        match rest with
        | [] => given.toRequest
        | extra :: _ => .error (.unknown extra)
      else match readOption given argument.toList with
        | .error fault => .error fault
        | .ok (.given given) => readFrom given none rest
        | .ok (.awaiting given option) => readFrom given (some option) rest
        | .ok (.settled request) => .ok request

/-- Reads the arguments of a command line. -/
def Request.ofArguments (arguments : List String) : Except UsageFault Request :=
  readFrom {} none arguments

/-- The wording of a fault. -/
def UsageFault.text : UsageFault → String
  | unknown argument => "unexpected argument '" ++ argument ++ "' found"
  | missingValue .input => "a value is required for '--input <INPUT>' but none was supplied"
  | missingValue .output => "a value is required for '--output <OUTPUT>' but none was supplied"
  | missingValue .settings => "a value is required for '--config <CONFIG>' but none was supplied"
  | unexpectedValue _ => "unexpected value for an option found; no more were expected"
  | repeated _ => "an option cannot be used multiple times"
  | missingInput => "the required option '--input <INPUT>' was not provided"

end Montage.CommandLine
