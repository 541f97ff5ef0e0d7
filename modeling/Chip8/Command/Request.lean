import Chip8.Target
import Chip8.Token

/-!
# Requests

What the arguments of the command line ask for: one program to assemble, with its settings, the
help, or the version. `Request.ofArguments` follows the conventions that are usual for command
lines. The arguments are first split into items by their
spelling alone: switches, parameters with their values, and inputs. The items are then collected in
order, and the first one that cannot be accepted decides, or the first that asks for the version
or for help.
-/

namespace Chip8.Command

/-- An option without a value. -/
inductive Switch where
  | verbose | listing | byteLabels | help | version
deriving DecidableEq

/-- An option with a value. -/
inductive Parameter where
  | output | loadBase | memorySize
deriving DecidableEq

/-- Why the arguments ask for nothing. -/
inductive UsageFault where
  | unknownOption (name : String)
  | unexpectedValue (option : String)
  | missingValue (option : String)
  | repeated (option : String)
  | badNumber (option token : String)
  | emptyPath
  | missingInput
  | extraInput (token : String)
deriving DecidableEq

def Switch.name : Switch → String
  | .verbose => "--verbose"
  | .listing => "--listing"
  | .byteLabels => "--byte-labels"
  | .help => "--help"
  | .version => "--version"

def Parameter.name : Parameter → String
  | .output => "--output"
  | .loadBase => "--load-base"
  | .memorySize => "--memory-size"

def Switch.all : List Switch := [.verbose, .listing, .byteLabels, .help, .version]

def Parameter.all : List Parameter := [.output, .loadBase, .memorySize]

def Switch.letter? : Switch → Option Char
  | .verbose => some 'v'
  | .help => some 'h'
  | .version => some 'V'
  | .listing | .byteLabels => none

def Parameter.letter? : Parameter → Option Char
  | .output => some 'o'
  | .loadBase | .memorySize => none

/-- A part of the arguments. -/
inductive Item where
  | switch (switch : Switch)
  | parameter (parameter : Parameter) (value : String)
  | input (path : String)
  | fault (fault : UsageFault)
deriving DecidableEq

namespace Item

/-- The items of one argument that spells an option in full, and a parameter still without value. -/
def ofLong (text : List Char) : List Item × Option Parameter :=
  let name := String.ofList (text.takeWhile (· != '='))
  let value? := match text.dropWhile (· != '=') with
    | _ :: value => some (String.ofList value)
    | [] => none
  match Switch.all.find? (·.name == name), Parameter.all.find? (·.name == name), value? with
  | some option, _, none => ([.switch option], none)
  | some option, _, some _ => ([.fault (.unexpectedValue option.name)], none)
  | none, some option, some value => ([.parameter option value], none)
  | none, some option, none => ([], some option)
  | none, none, _ => ([.fault (.unknownOption name)], none)

/-- The items of joined option letters, and a parameter still without value. The rest of the text
behind the letter of a parameter is its value, less an equals sign in front. -/
def ofLetters : List Char → List Item × Option Parameter
  | [] => ([], none)
  | letter :: rest =>
    match Switch.all.find? (·.letter? == some letter),
      Parameter.all.find? (·.letter? == some letter) with
    | some option, _ =>
      let (items, pending) := ofLetters rest
      (.switch option :: items, pending)
    | none, some option =>
      match rest with
      | [] => ([], some option)
      | '=' :: value => ([.parameter option (String.ofList value)], none)
      | value => ([.parameter option (String.ofList value)], none)
    | none, none => ([.fault (.unknownOption (String.ofList ['-', letter]))], none)

/-- The items of one argument, and a parameter still without value. A lone `-` is no option. -/
def ofArgument (argument : String) : List Item × Option Parameter :=
  match argument.toList with
  | '-' :: '-' :: name => ofLong ('-' :: '-' :: name)
  | '-' :: letter :: letters => ofLetters (letter :: letters)
  | _ => ([.input argument], none)

/-- Whether an argument may be the value of the parameter before it. -/
def isValue (argument : String) : Bool :=
  argument == "-" || argument.toList.head? != some '-'

/-- The items of a list of arguments; all of them behind `--` are inputs. -/
def ofArguments : List String → List Item
  | [] => []
  | argument :: others =>
    if argument = "--" then others.map .input
    else
      let (items, pending) := ofArgument argument
      match pending with
      | none => items ++ ofArguments others
      | some option =>
        match others with
        | [] => items ++ [.fault (.missingValue option.name)]
        | value :: rest =>
          if isValue value then items ++ .parameter option value :: ofArguments rest
          else items ++ [.fault (.missingValue option.name)]

end Item

/-- What to assemble, and how. -/
structure Settings where
  input : String
  output? : Option String := none
  listing : Bool := false
  target : Target := {}

inductive Request where
  | assemble (settings : Settings)
  | help
  | version

/-- What the items read so far amount to. -/
structure Collected where
  input? : Option String := none
  output? : Option String := none
  loadBase? : Option UInt16 := none
  memorySize? : Option UInt16 := none
  verbose : Bool := false
  listing : Bool := false
  byteLabels : Bool := false

namespace Collected

/-- The number of 16 bits that a numeral denotes. -/
def number (option token : String) : Except UsageFault UInt16 :=
  match Token.literal token with
  | .ok value =>
    if value < UInt16.size then .ok (UInt16.ofNat value) else .error (.badNumber option token)
  | .error _ => .error (.badNumber option token)

/-- Refuses an option that has been given before. -/
def once (given : Bool) (option : String) : Except UsageFault Unit :=
  if given then .error (.repeated option) else .ok ()

def path (text : String) : Except UsageFault String :=
  if text = "" then .error .emptyPath else .ok text

def setParameter (collected : Collected) (parameter : Parameter) (value : String) :
    Except UsageFault Collected :=
  match parameter with
  | .output => do
    let output ← path value
    once collected.output?.isSome parameter.name
    pure { collected with output? := some output }
  | .loadBase => do
    let loadBase ← number parameter.name value
    once collected.loadBase?.isSome parameter.name
    pure { collected with loadBase? := some loadBase }
  | .memorySize => do
    let memorySize ← number parameter.name value
    once collected.memorySize?.isSome parameter.name
    pure { collected with memorySize? := some memorySize }

def setInput (collected : Collected) (text : String) : Except UsageFault Collected :=
  match collected.input? with
  | some _ => .error (.extraInput text)
  | none => do pure { collected with input? := some (← path text) }

/-- The request at the end of the arguments. -/
def request (collected : Collected) : Except UsageFault Request :=
  match collected.input? with
  | none => .error .missingInput
  | some input => .ok <| .assemble {
      input
      output? := collected.output?
      listing := collected.listing
      target := {
        loadBase := collected.loadBase?.getD 0x200
        memorySize := collected.memorySize?.getD 0x1000
        addressing := if collected.byteLabels then .byte else .index } }

/-- The request of the items behind those collected. -/
def read (collected : Collected) : List Item → Except UsageFault Request
  | [] => collected.request
  | .switch .help :: _ => .ok .help
  | .switch .version :: _ => .ok .version
  | .switch .verbose :: items => do
    once collected.verbose Switch.verbose.name
    { collected with verbose := true }.read items
  | .switch .listing :: items => do
    once collected.listing Switch.listing.name
    { collected with listing := true }.read items
  | .switch .byteLabels :: items => do
    once collected.byteLabels Switch.byteLabels.name
    { collected with byteLabels := true }.read items
  | .parameter parameter value :: items => do
    (← collected.setParameter parameter value).read items
  | .input text :: items => do
    (← collected.setInput text).read items
  | .fault fault :: _ => .error fault

end Collected

/-- The request that arguments make. -/
def Request.ofArguments (arguments : List String) : Except UsageFault Request :=
  Collected.read {} (Item.ofArguments arguments)

end Chip8.Command
