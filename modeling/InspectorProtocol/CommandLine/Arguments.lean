import InspectorProtocol.Binding.Basic
import InspectorProtocol.Text.Ascii

/-!
# Arguments

A command line has general switches, the name of a command, and the switches of that command, among
which the general ones may stand again. A switch has a long name and mostly a letter; its value is
the next argument or is attached to it, and letters without values may share a dash. A switch that
does not collect values is given once on either side of the command's name.
-/

namespace InspectorProtocol.CommandLine

open Text

/-- What a switch is for. -/
inductive Purpose where
  | config
  | verbose
  | input
  | out
  | flat
  | noDocs
  | events
  | commands
  | help
  | version
  deriving DecidableEq, Repr

structure Switch where
  purpose : Purpose
  letter : Option Char
  name : String
  takesValue : Bool := false
  /-- whether it may be given more than once -/
  collects : Bool := false

inductive Verb where
  | generate
  | check
  | methods
  deriving DecidableEq, Repr

def Verb.name : Verb → String
  | .generate => "generate"
  | .check => "check"
  | .methods => "methods"

def Verb.ofName? (name : String) : Option Verb := [generate, check, methods].find? (·.name == name)

/-- The switches that may stand on both sides of the command's name. -/
def generalSwitches : List Switch :=
  [{ purpose := .config, letter := none, name := "config", takesValue := true },
    { purpose := .verbose, letter := some 'v', name := "verbose" },
    { purpose := .help, letter := some 'h', name := "help" }]

/-- The switches before the command's name. -/
def leadingSwitches : List Switch :=
  { purpose := .version, letter := some 'V', name := "version" } :: generalSwitches

private def inputSwitch : Switch :=
  { purpose := .input, letter := some 'i', name := "input", takesValue := true, collects := true }

/-- The switches after the command's name. -/
def Verb.switches (v : Verb) : List Switch :=
  generalSwitches ++ inputSwitch :: match v with
    | .generate =>
      [{ purpose := .out, letter := some 'o', name := "out", takesValue := true },
        { purpose := .flat, letter := none, name := "flat" },
        { purpose := .noDocs, letter := none, name := "no-docs" }]
    | .check => []
    | .methods =>
      [{ purpose := .events, letter := none, name := "events" },
        { purpose := .commands, letter := none, name := "commands" }]

/-- Why a command line is not carried out. -/
inductive Refusal where
  | usage
  /-- help was asked for, on a command or in general -/
  | help (verb : Option Verb)
  | version
  deriving DecidableEq, Repr

def Refusal.exitCode : Refusal → Nat
  | .usage => 2
  | .help _ | .version => 0

/-- A switch on the command line, with its value or the empty text. -/
structure Given where
  purpose : Purpose
  value : String

/-- Where switches are looked for: their kinds, and the command they belong to. -/
structure Place where
  switches : List Switch
  verb : Option Verb := none

/-- The switches so far with one more. -/
def give (p : Place) (soFar : List Given) (s : Switch) (value : String) :
    Except Refusal (List Given) :=
  if s.purpose = .help then .error (.help p.verb)
  else if s.purpose = .version then .error .version
  else if s.takesValue && value.isEmpty then .error .usage
  else if !s.collects && soFar.any (·.purpose = s.purpose) then .error .usage
  else .ok (soFar ++ [⟨s.purpose, value⟩])

/-- Read letters after a dash. If the last one lacks its value, it is returned. -/
def readLetters (p : Place) (soFar : List Given) :
    List Char → Except Refusal (List Given × Option Switch)
  | [] => .ok (soFar, none)
  | c :: rest =>
    match p.switches.find? (·.letter == some c) with
    | none => .error .usage
    | some s =>
      if !s.takesValue then do readLetters p (← give p soFar s "") rest
      else
        match rest with
        | [] => .ok (soFar, some s)
        | '=' :: value => do return (← give p soFar s (String.ofList value), none)
        | value => do return (← give p soFar s (String.ofList value), none)

/-- Read a name after two dashes, with an attached value or without. If its value is missing, the
switch is returned. -/
def readName (p : Place) (soFar : List Given) (text : String) :
    Except Refusal (List Given × Option Switch) :=
  let (name, value) := match cutAt? '=' text with
    | some (name, value) => (name, some value)
    | none => (text, none)
  match p.switches.find? (·.name == name), value with
  | none, _ => .error .usage
  | some s, some value =>
    if s.takesValue then do return (← give p soFar s value, none) else .error .usage
  | some s, none =>
    if s.takesValue then .ok (soFar, some s) else do return (← give p soFar s "", none)

/-- Whether an argument is a switch and no word. -/
def isSwitch (arg : String) : Bool := startsWith arg "-" && arg != "-"

/-- Read one argument that is a switch. -/
def readSwitch (p : Place) (soFar : List Given) (arg : String) :
    Except Refusal (List Given × Option Switch) :=
  match dropLead? "--" arg with
  | some text => readName p soFar text
  | none => readLetters p soFar (arg.toList.drop 1)

/-- Read switches up to the first word, with which the rest begins. Nothing may follow a lone
`--`. -/
def readSwitches (p : Place) (soFar : List Given) :
    List String → Except Refusal (List Given × List String)
  | [] => .ok (soFar, [])
  | arg :: rest =>
    if arg = "--" then if rest.isEmpty then .ok (soFar, []) else .error .usage
    else if !isSwitch arg then .ok (soFar, arg :: rest)
    else
      match readSwitch p soFar arg with
      | .error refusal => .error refusal
      | .ok (soFar, none) => readSwitches p soFar rest
      | .ok (soFar, some s) =>
        match rest with
        | [] => .error .usage
        | value :: rest =>
          if isSwitch value then .error .usage
          else do readSwitches p (← give p soFar s value) rest

/-- What the program is to do. -/
inductive Command where
  | generate (inputs : List String) (out : Option String) (flat noDocs : Bool)
  | check (inputs : List String)
  | methods (inputs : List String) (only : Option MethodKind)
  deriving Repr

structure Invocation where
  /-- the settings file, unless it is the user's -/
  config : Option String
  verbose : Bool
  command : Command
  deriving Repr

private def has (given : List Given) (purpose : Purpose) : Bool := given.any (·.purpose = purpose)

private def value? (given : List Given) (purpose : Purpose) : Option String :=
  (given.find? (·.purpose = purpose)).map (·.value)

/-- The command of its switches. There is at least one input, and a method list is not narrowed down
in two ways. -/
def commandOf (verb : Verb) (given : List Given) : Except Refusal Command :=
  let inputs := (given.filter (·.purpose = .input)).map (·.value)
  if inputs.isEmpty then .error .usage
  else
    match verb with
    | .generate => .ok (.generate inputs (value? given .out) (has given .flat) (has given .noDocs))
    | .check => .ok (.check inputs)
    | .methods =>
      match has given .events, has given .commands with
      | true, true => .error .usage
      | true, false => .ok (.methods inputs (some .event))
      | false, true => .ok (.methods inputs (some .command))
      | false, false => .ok (.methods inputs none)

/-- The settings file: the one given last, else the one of the environment, which counts on each
side where none is given and must not be empty there. -/
def configOf (environment : Option String) (leading own : List Given) :
    Except Refusal (Option String) :=
  if environment == some "" && !(has leading .config && has own .config) then .error .usage
  else .ok ((value? own .config).or ((value? leading .config).or environment))

/-- What `help` with these words asks for. -/
def helpOf : List String → Refusal
  | [] | ["help"] => .help none
  | [name] => ((Verb.ofName? name).map fun v => Refusal.help (some v)).getD .usage
  | _ => .usage

/-- The invocation of a command line; `environment` names the settings file of the environment. -/
def Invocation.parse (environment : Option String) (args : List String) :
    Except Refusal Invocation := do
  let (leading, rest) ← readSwitches ⟨leadingSwitches, none⟩ [] args
  match rest with
  | [] => throw .usage
  | word :: rest =>
    if word = "help" then throw (helpOf rest)
    match Verb.ofName? word with
    | none => throw .usage
    | some verb =>
      let (own, extra) ← readSwitches ⟨verb.switches, some verb⟩ [] rest
      if !extra.isEmpty then throw .usage
      return {
        command := ← commandOf verb own
        config := ← configOf environment leading own
        verbose := has leading .verbose || has own .verbose }

end InspectorProtocol.CommandLine
