import ApiContract.CommandLine.Arguments
import ApiContract.CommandLine.Files
import ApiContract.Run.Generation
import ApiContract.Run.Input

/-! # A run of the command

A run reads its settings and the contract, generates, and writes one file for each
artifact. A fault of either input ends it with code two and one event; otherwise
the code says whether there were diagnostics.
-/
namespace ApiContract.CommandLine

def levels : List (String × Nat) := [
  ("NOTSET", 0), ("DEBUG", Level.debug.rank), ("INFO", Level.info.rank),
  ("WARN", Level.warning.rank), ("WARNING", Level.warning.rank), ("ERROR", Level.error.rank),
  ("CRITICAL", 50), ("FATAL", 50)]

/-- The least rank that is logged. Two words name other values than a level, and any
further word counts as `info`. -/
def threshold (level : Option String) : Outcome Nat := do
  let word ← need .illTyped level
  let name := String.ofList (Text.upperAscii word.toList)
  if name = "BASIC_FORMAT" then .error .notNumber
  else if name = "_STYLES" then .error .illTyped
  else pure (((levels.find? fun l => l.1 == name).map (·.2)).getD Level.info.rank)

structure Ending where
  code : Nat
  events : List Event := []
  writes : List (String × String) := []

inductive Halt
  | failed (failure : Failure)
  | unreadable (message : String)

abbrev Look := String → Found

def readText (look : Look) (path : String) : Except Halt String :=
  if FilePath.isBroken path then .error (.failed .brokenPath)
  else match (look path).text with
    | .ok text => .ok text
    | .error fault => .error (.unreadable (faultMessage fault (FilePath.plain path)))

def halting {α : Type} (outcome : Outcome α) : Except Halt α := outcome.mapError .failed

def settingsOf (look : Look) (i : Invocation) : Except Halt Settings := do
  let base ← match i.config with
    | some path => do
      let text ← readText look path
      halting (Input.settings text)
    | none => pure {}
  halting (base.override i.dialects i.package)

def inputs (look : Look) (i : Invocation) : Except Halt (Settings × Tree) := do
  let settings ← settingsOf look i
  let text ← readText look i.contract
  let document ← halting (Input.document (FilePath.plain i.contract) text)
  pure (settings, document)

/-- Ends a run on a failure: a fault of the inputs is reported, any other stays one. -/
def abort (events : List Event) (failure : Failure) : Outcome Ending :=
  match failure with
  | .contract fault location =>
    .ok { code := 2, events := events ++ [.aborted ⟨fault.kind, location, fault.message⟩] }
  | .setting fault location =>
    .ok { code := 2, events := events ++ [.aborted ⟨SettingFault.kind, location, fault.message⟩] }
  | other => .error other

def fileOf (out : String) (a : Artifact) : String × String :=
  (FilePath.below out a.segments, a.body)

def codeOf (g : Generated) : Nat := if g.ok then 0 else 1

/-- Ends a run behind its artifacts. Without a directory only a run that has none can
end. -/
def finish (out : Option String) (g : Generated) (events : List Event) : Outcome Ending :=
  match out with
  | some directory =>
    let files := g.all.map (fileOf directory)
    .ok { code := codeOf g, writes := files,
          events := events ++ [.artifactsWritten (FilePath.plain directory) files.length] }
  | none =>
    if g.all.isEmpty then .ok { code := codeOf g, events := events ++ [.artifactsWritten "[]" 0] }
    else .error .illTyped

def generateIn (i : Invocation) (settings : Settings) (document : Tree) : Outcome Ending :=
  match generate document settings with
  | .ok g w => finish i.out g w.log.toList
  | .error failure w => abort w.log.toList failure

def perform (look : Look) (i : Invocation) : Outcome Ending :=
  match inputs look i with
  | .ok (settings, document) => generateIn i settings document
  | .error (.failed failure) => abort [] failure
  | .error (.unreadable message) => .ok { code := 2, events := [.unreadable message] }

def logged (least : Nat) (events : List Event) : List Event :=
  events.filter fun e => least ≤ e.level.rank

def run (look : Look) (i : Invocation) : Outcome Ending := do
  let least ← threshold i.level
  let ending ← perform look i
  pure { ending with events := logged least ending.events }

/-- A run in a tree of files, with the tree behind it. -/
def runIn (files : FileTree) (i : Invocation) : Outcome (Ending × FileTree) := do
  let ending ← run files.look i
  let after ← files.writeAll ending.writes
  pure (ending, after)

end ApiContract.CommandLine
