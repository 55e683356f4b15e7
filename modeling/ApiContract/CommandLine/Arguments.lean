import ApiContract.Text.Cut
import ApiContract.Text.Digit

/-! # Arguments

The arguments name one contract and flags with a value each. A flag may be
shortened as long as it stays unique, its value may follow behind an equals sign,
and behind two dashes alone every argument is a value. Two dashes alone behind an
equals sign give a flag no value at all.
-/
namespace ApiContract.CommandLine

inductive LogFormat
  | console
  | plain
  | json
  deriving DecidableEq, Repr

def LogFormat.name : LogFormat → String
  | console => "console"
  | plain => "plain"
  | json => "json"

def LogFormat.all : List LogFormat := [console, plain, json]

/-- What a run is asked to do. A flag without a value leaves none. -/
structure Invocation where
  contract : String
  out : Option String := some "generated"
  dialects : List (Option String) := []
  package : Option String := none
  config : Option String := none
  level : Option String := some "info"
  format : LogFormat := .console
  deriving DecidableEq, Repr

inductive Flag
  | help
  | out
  | dialect
  | package
  | config
  | logLevel
  | logFormat
  deriving DecidableEq, Repr

def Flag.name : Flag → String
  | help => "--help"
  | out => "--out"
  | dialect => "--dialect"
  | package => "--package"
  | config => "--config"
  | logLevel => "--log-level"
  | logFormat => "--log-format"

def Flag.all : List Flag := [help, out, dialect, package, config, logLevel, logFormat]

inductive Argument
  | value (text : String)
  | flag (f : Flag) (attached : Option String)
  | unknown
  deriving DecidableEq, Repr

namespace Argument

def candidates (start : List Char) : List Flag :=
  Flag.all.filter fun f => Text.startsWith start f.name.toList

def cutValue (text : List Char) : List Char × Option String :=
  let name := text.takeWhile (· != '=')
  match text.dropWhile (· != '=') with
  | _ :: behind => (name, some (String.ofList behind))
  | [] => (name, none)

def dropLineEnd (text : List Char) : List Char :=
  if text.getLast? == some '\n' then text.dropLast else text

/-- Digits behind a dash, perhaps with a point before the last of them; one line end
may follow. -/
def isNegativeNumber (text : List Char) : Bool :=
  match dropLineEnd text with
  | '-' :: body =>
    let whole := body.takeWhile Text.isDecimal
    match body.dropWhile Text.isDecimal with
    | [] => !whole.isEmpty
    | '.' :: places => !places.isEmpty && places.all Text.isDecimal
    | _ => false
  | _ => false

def other (text : String) : Argument :=
  if isNegativeNumber text.toList || text.toList.contains ' ' then value text else unknown

/-- An argument with two dashes; none when it is short for several flags. -/
def long? (text : String) : Option Argument :=
  match Flag.all.find? fun f => f.name == text with
  | some f => some (flag f none)
  | none =>
    let (name, attached) := cutValue text.toList
    match Flag.all.find? fun f => f.name.toList == name with
    | some f => some (flag f attached)
    | none =>
      match candidates name with
      | [] => some (other text)
      | [f] => some (flag f attached)
      | _ => none

/-- The flag for help with letters behind it, which may only repeat it. -/
def repeatedHelp (letters : List Char) : Argument :=
  flag .help (if !letters.isEmpty && letters.all (· == 'h') then none
    else some (String.ofList letters))

def short (text : String) : Argument :=
  match text.toList with
  | ['-', 'h'] => flag .help none
  | '-' :: 'h' :: '=' :: letters => repeatedHelp letters
  | '-' :: 'h' :: letters => repeatedHelp letters
  | _ => other text

def read? (text : String) : Option Argument :=
  match text.toList with
  | '-' :: '-' :: _ => long? text
  | '-' :: _ :: _ => some (short text)
  | _ => some (value text)

end Argument

inductive Request
  | run (invocation : Invocation)
  | help
  | refused
  deriving DecidableEq, Repr

namespace Request

structure Taken where
  invocation : Invocation := { contract := "" }
  contract : Option String := none
  contractLast : Bool := false
  hasExtra : Bool := false

def Taken.takeValue (t : Taken) (text : String) : Taken :=
  if t.contract.isSome then { t with hasExtra := true, contractLast := false }
  else { t with contract := some text, contractLast := true }

/-- The log format of a name; without a value it is that of the console. -/
def formatOf? : Option String → Option LogFormat
  | some name => LogFormat.all.find? fun f => f.name == name
  | none => some .console

def setValue (i : Invocation) (value : Option String) : Flag → Option Invocation
  | .help => none
  | .out => some { i with out := value }
  | .dialect => some { i with dialects := i.dialects ++ [value] }
  | .package => some { i with package := value.filter (· ≠ "") }
  | .config => some { i with config := value }
  | .logLevel => some { i with level := value }
  | .logFormat => (formatOf? value).map fun f => { i with format := f }

/-- Sets a flag; none when the flag does not take that value. -/
def Taken.takeFlag (t : Taken) (f : Flag) (value : Option String) : Option Taken :=
  (setValue t.invocation value f).map fun i => { t with invocation := i, contractLast := false }

def attachedValue (text : String) : Option String := if text = "--" then none else some text

/-- Closes the list, behind which further values may stand after two dashes. -/
def Taken.close (t : Taken) (behind : Option (List String)) : Request :=
  let final : Taken := match behind with
    | none => t
    | some [] => { t with hasExtra := t.hasExtra || !t.contractLast }
    | some (first :: rest) =>
      let last := t.takeValue first
      { last with hasExtra := last.hasExtra || !rest.isEmpty }
  match final.contract with
  | some contract =>
    if final.hasExtra then refused else run { final.invocation with contract }
  | none => refused

def take (behind : Option (List String)) : List Argument → Taken → Request
  | [], t => t.close behind
  | .value text :: rest, t => take behind rest (t.takeValue text)
  | .unknown :: rest, t => take behind rest { t with hasExtra := true, contractLast := false }
  | .flag .help none :: _, _ => help
  | .flag f (some attached) :: rest, t =>
    match t.takeFlag f (attachedValue attached) with
    | some next => take behind rest next
    | none => refused
  | .flag f none :: .value value :: rest, t =>
    match t.takeFlag f (some value) with
    | some next => take behind rest next
    | none => refused
  | .flag _ none :: _, _ => refused

/-- The arguments behind the first two dashes that stand alone. -/
def behindDashes (args : List String) : Option (List String) :=
  match args.dropWhile (· != "--") with
  | _ :: rest => some rest
  | [] => none

def ofArguments (args : List String) : Request :=
  match (args.takeWhile (· != "--")).mapM Argument.read? with
  | some known => take (behindDashes args) known {}
  | none => refused

end Request

end ApiContract.CommandLine
