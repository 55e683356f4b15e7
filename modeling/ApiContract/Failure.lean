import ApiContract.Tree.Display

/-! # Failures

A failure is a cause at a place of the document or of the settings. Faults of the
contract end a run, faults of a schema or of a name end only what they concern,
and the remaining failures are values that no stage can work with.
-/
namespace ApiContract

def listed (names : List String) : String := ", ".intercalate names

inductive ContractFault
  | undecodable
  | rootNotObject
  | unknownVersion
  | noPaths
  | schemaNotObject
  | noComponent (ref : Tree)
  | circularReference (ref : String)
  | danglingReference (ref : String)
  | operationNotObject
  | parameterNotObject
  | parameterIncomplete
  | duplicateParameter (place name : Scalar) (label : String)
  | responseNotObject
  | pathItemNotObject
  | missingPathParameter (name label : String)
  | unknownPathParameter (name : Scalar) (path : String)
  | duplicatePath (method path earlier : String)

def ContractFault.kind : ContractFault → String
  | noComponent _ => "UnresolvedReference"
  | circularReference _ => "UnresolvedReference"
  | danglingReference _ => "UnresolvedReference"
  | duplicateParameter .. => "DuplicateParameter"
  | missingPathParameter .. => "MissingPathParameter"
  | unknownPathParameter .. => "UnknownPathParameter"
  | duplicatePath .. => "DuplicatePath"
  | _ => "MalformedDocument"

def ContractFault.message : ContractFault → String
  | undecodable => "cannot decode contract"
  | rootNotObject => "document root must be an object"
  | unknownVersion => "expected 'openapi: 3.x' or 'swagger: \"2.0\"'"
  | noPaths => "document has no paths object"
  | schemaNotObject => "schema must be an object"
  | noComponent ref => s!"no component matches {ref.shown}"
  | circularReference ref => s!"circular reference {Text.quoted ref}"
  | danglingReference ref => s!"{Text.quoted ref} does not resolve"
  | operationNotObject => "operation must be an object"
  | parameterNotObject => "parameter must be an object"
  | parameterIncomplete => "parameter needs 'name' and 'in'"
  | duplicateParameter place name label =>
    s!"{place.display} parameter {name.shown} declared twice on {label}"
  | responseNotObject => "response must be an object"
  | pathItemNotObject => "path item must be an object"
  | missingPathParameter name label =>
    "placeholder \x7b" ++ name ++ "\x7d has no path parameter on " ++ label
  | unknownPathParameter name path => s!"path parameter {name.shown} does not occur in {path}"
  | duplicatePath method path earlier =>
    s!"{method} {path} duplicates {method} {earlier}"

inductive SchemaFault
  | unsupported (what : String)
  | unsupportedIn (what component : String)
  | dependsOn (target place : String)
  | componentDependsOn (component target place : String)
  | inComponent (component : String) (inner : SchemaFault)
  | circularAlias (component : String)
  | allOfCycle (component : String)
  | allOfMember
  | unboundParameter (place name : Scalar)
  | severalBodies (names : List String)
  | asyncWithoutBody

def SchemaFault.kind : SchemaFault → String
  | inComponent _ inner => inner.kind
  | unboundParameter .. => "UnsupportedParameter"
  | severalBodies _ => "MultipleBodyParameters"
  | asyncWithoutBody => "UnsupportedAsyncWrapping"
  | _ => "UnsupportedSchema"

def SchemaFault.message : SchemaFault → String
  | unsupported what => s!"'{what}' is not supported"
  | unsupportedIn what component => s!"'{what}' is not supported (schema {component})"
  | dependsOn target place => s!"depends on unsupported schema {target} ({place})"
  | componentDependsOn component target place =>
    s!"schema {component} depends on unsupported schema {target} ({place})"
  | inComponent component inner => s!"schema {component}: {inner.message}"
  | circularAlias component => s!"circular alias through {component}"
  | allOfCycle component => s!"allOf cycle through schema {component}"
  | allOfMember => "allOf member is not an object schema"
  | unboundParameter place name => s!"{place.display} parameter {name.shown} cannot be bound"
  | severalBodies names =>
    s!"at most one body parameter is allowed, found {names.length} (" ++ listed names ++ ")"
  | asyncWithoutBody => "x-codegen-async requires a response body to wrap"

/-- Methods of one resource that could not be told apart by name. -/
structure NameClash where
  method : String
  resource : String
  labels : List String

def NameClash.kind : String := "AmbiguousOperationName"

def NameClash.message (c : NameClash) : String :=
  s!"method name {Text.quoted c.method} in {c.resource} is shared by " ++
    listed c.labels ++ " and no discriminator is free"

inductive SettingFault
  | unreadable
  | notMapping
  | unknownKeys (keys : List String)
  | noDialect
  | unknownDialect (name : Tree) (known : List String)
  | primaryResponse (rules : List String)
  | workers
  | groupByTags
  | invalidPackage (value : Tree)

def SettingFault.kind : String := "InvalidSetting"

def SettingFault.message : SettingFault → String
  | unreadable => "cannot read settings file"
  | notMapping => "settings must be a mapping"
  | unknownKeys keys => "unknown setting(s): " ++ listed keys
  | noDialect => "at least one dialect is required"
  | unknownDialect name known =>
    s!"unknown dialect {name.shown} (known: " ++ listed known ++ ")"
  | primaryResponse rules => "primary_response must be one of " ++ listed rules
  | workers => "workers must be a positive integer"
  | groupByTags => "group_by_tags must be true or false"
  | invalidPackage value => s!"invalid Java package {value.shown}"

structure Diagnostic where
  kind : String
  location : String
  message : String
  deriving DecidableEq, Repr

def Diagnostic.line (d : Diagnostic) : String := s!"[{d.kind}] {d.location}: {d.message}"

inductive Failure
  | contract (fault : ContractFault) (location : String)
  | schema (fault : SchemaFault) (location : String)
  | naming (clash : NameClash) (location : String)
  | setting (fault : SettingFault) (location : String)
  /-- A value of a type that the stage has no use for. -/
  | illTyped
  /-- A name or pointer that leads nowhere. -/
  | missing
  | outOfRange
  | notNumber
  /-- An integer or a code beyond those that have a value. -/
  | tooLarge
  /-- An integer of more digits than are read or written. -/
  | tooLong
  /-- A type that expands without end. -/
  | endless
  /-- A value that holds itself where it is written out. -/
  | cyclic
  /-- A path with a character that no path has. -/
  | brokenPath
  | longPath
  /-- A path to write that leads through a file. -/
  | throughFile
  | occupied
  | directoryInPlace
  | alreadySigned (label : String)
  | unsigned (label : String)

namespace Failure

def diagnostic? : Failure → Option Diagnostic
  | contract fault location => some ⟨fault.kind, location, fault.message⟩
  | schema fault location => some ⟨fault.kind, location, fault.message⟩
  | naming clash location => some ⟨NameClash.kind, location, clash.message⟩
  | setting fault location => some ⟨SettingFault.kind, location, fault.message⟩
  | _ => none

/-- The failure that tells of a value; an integer too long to be written takes its place. -/
def telling (values : List Tree) (failure : Failure) : Failure :=
  if values.all Tree.isWritable then failure else tooLong

end Failure

def SchemaFault.diagnostic (fault : SchemaFault) (location : String) : Diagnostic :=
  ⟨fault.kind, location, fault.message⟩

abbrev Outcome (α : Type) := Except Failure α

/-- A value that has to be there, or the failure that stands for its absence. -/
def need {α : Type} (failure : Failure) : Option α → Outcome α
  | some a => .ok a
  | none => .error failure

end ApiContract
