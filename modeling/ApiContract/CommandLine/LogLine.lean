import ApiContract.CommandLine.Arguments
import ApiContract.Run.Event
import ApiContract.Tree.Json

/-! # Lines of the log

An event is written as one line, either as a map of its values in JSON or as its
level and name with the values behind them.
-/
namespace ApiContract.CommandLine

def record (event : Event) : Tree :=
  let entries := event.values ++ [("event", .text event.name), ("level", .text event.level.name)]
  .map (entries.map fun e => (.text e.1, e.2))

def valuePiece (entry : String × Tree) : String := entry.1 ++ "=" ++ entry.2.shown

def wordLine (event : Event) : String :=
  " ".intercalate (s!"[{event.level.name}]" :: event.name :: event.values.map valuePiece)

def logLine (format : LogFormat) (event : Event) : String :=
  match format with
  | .json => (record event).json.toOption.getD (wordLine event)
  | .plain => wordLine event
  | .console => wordLine event

end ApiContract.CommandLine
