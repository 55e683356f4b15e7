import ApiContract.CommandLine.LogLine
import ApiContract.CommandLine.Run

/-! # The command

Reads the files that a run asks for, performs it, writes its files and its log, and
ends with its code.
-/
namespace ApiContract.Main

open CommandLine

def usage : String :=
  "usage: api-contract [--help] [--out OUT] [--dialect DIALECT] [--package PACKAGE] " ++
    "[--config CONFIG] [--log-level LEVEL] [--log-format FORMAT] contract"

def directoryCode : UInt32 := 21

def find (path : String) : IO Found := do
  try
    let text ← IO.FS.readFile path
    pure (.file text)
  catch
    | .noFileOrDirectory _ _ _ => pure .absent
    | .inappropriateType _ code _ =>
      pure (if code = directoryCode then .directory else .throughFile)
    | .invalidArgument .. => pure .tooLong
    | failure => throw failure

def findAll (i : Invocation) : IO (Table String Found) :=
  (i.contract :: i.config.toList).mapM fun path => do
    let found ← if FilePath.isBroken path then pure .absent else find (FilePath.plain path)
    pure (path, found)

def writeFile (file : String × String) : IO Unit := do
  let directory := String.ofList (Text.beforeLast '/' file.1.toList)
  IO.FS.createDirAll directory
  IO.FS.writeFile file.1 file.2

def failureText (failure : Failure) : String :=
  match failure.diagnostic? with
  | some d => d.line
  | none => "a value of the contract has the wrong type"

def perform (i : Invocation) : IO UInt32 := do
  let places ← findAll i
  match run (fun path => (Table.get? places path).getD .absent) i with
  | .ok ending => do
    for file in ending.writes do
      writeFile file
    for event in ending.events do
      IO.eprintln (logLine i.format event)
    pure (UInt32.ofNat ending.code)
  | .error failure => do
    IO.eprintln (failureText failure)
    pure 1

end ApiContract.Main

open ApiContract CommandLine in
def main (args : List String) : IO UInt32 :=
  match Request.ofArguments args with
  | .run i => ApiContract.Main.perform i
  | .help => do
    IO.println ApiContract.Main.usage
    pure 0
  | .refused => do
    IO.eprintln ApiContract.Main.usage
    pure 2
