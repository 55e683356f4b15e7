import ApiContract.Failure

/-! # Events

What a run reports while it works, each with a level and named values. Events are
data: the stages return them and the command line decides which ones to write.
-/
namespace ApiContract

inductive Level
  | debug
  | info
  | warning
  | error
  deriving DecidableEq, Repr

namespace Level

def name : Level → String
  | debug => "debug"
  | info => "info"
  | warning => "warning"
  | error => "error"

def rank : Level → Nat
  | debug => 10
  | info => 20
  | warning => 30
  | error => 40

end Level

inductive Event
  | componentFailed (schema kind : String)
  | beanMapped (bean : String) (fields : Nat)
  | tablesBuilt (beans enums failed : Nat)
  | resourceDropped (resource reason : String)
  | resourceGrouped (resource : String) (operations : Nat)
  | ambiguousResponse (operation : String) (codes : List String) (chosen rule : String)
  | operationFailed (resource operation kind : String)
  | artifactsRendered (dialect : String) (resources beans enums : Nat)
  | diagnosed (diagnostic : Diagnostic)
  | finished (title : String) (resources diagnostics : Nat)
  | artifactsWritten (directory : String) (count : Nat)
  | aborted (diagnostic : Diagnostic)
  | unreadable (message : String)

namespace Event

def level : Event → Level
  | componentFailed .. => .debug
  | beanMapped .. => .debug
  | tablesBuilt .. => .debug
  | resourceDropped .. => .warning
  | resourceGrouped .. => .debug
  | ambiguousResponse .. => .warning
  | operationFailed .. => .warning
  | artifactsRendered .. => .info
  | diagnosed _ => .warning
  | finished .. => .info
  | artifactsWritten .. => .info
  | aborted _ => .error
  | unreadable _ => .error

def name : Event → String
  | componentFailed .. => "component_failed"
  | beanMapped .. => "bean_mapped"
  | tablesBuilt .. => "type_tables_built"
  | resourceDropped .. => "resource_dropped"
  | resourceGrouped .. => "resource_grouped"
  | ambiguousResponse .. => "ambiguous_success_response"
  | operationFailed .. => "operation_failed"
  | artifactsRendered .. => "artifacts_rendered"
  | diagnosed _ => "generation_diagnostic"
  | finished .. => "generation_finished"
  | artifactsWritten .. => "artifacts_written"
  | aborted _ => "generation_aborted"
  | unreadable _ => "generation_aborted"

def diagnosticValues (d : Diagnostic) : List (String × Tree) :=
  [("kind", .text d.kind), ("location", .text d.location), ("message", .text d.message)]

def values : Event → List (String × Tree)
  | componentFailed schema kind => [("schema", .text schema), ("kind", .text kind)]
  | beanMapped bean fields => [("bean", .text bean), ("fields", .int fields)]
  | tablesBuilt beans enums failed =>
    [("beans", .int beans), ("enums", .int enums), ("failed", .int failed)]
  | resourceDropped resource reason => [("resource", .text resource), ("reason", .text reason)]
  | resourceGrouped resource operations =>
    [("resource", .text resource), ("operations", .int operations)]
  | ambiguousResponse operation codes chosen rule =>
    [("operation", .text operation), ("codes", .list (codes.map Tree.text)),
     ("chosen", .text chosen), ("rule", .text rule)]
  | operationFailed resource operation kind =>
    [("resource", .text resource), ("operation", .text operation), ("kind", .text kind)]
  | artifactsRendered dialect resources beans enums =>
    [("dialect", .text dialect), ("resources", .int resources), ("beans", .int beans),
     ("enums", .int enums)]
  | diagnosed d => diagnosticValues d
  | finished title resources diagnostics =>
    [("title", .text title), ("resources", .int resources), ("diagnostics", .int diagnostics)]
  | artifactsWritten directory count => [("output_dir", .text directory), ("count", .int count)]
  | aborted d => diagnosticValues d
  | unreadable message => [("kind", .text "IOError"), ("message", .text message)]

end Event

end ApiContract
