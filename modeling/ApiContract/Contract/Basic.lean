import ApiContract.Contract.Schema

/-! # Contracts

A contract has component schemas and path items with operations, in document
order. Texts that only travel to the output are kept as the values they were.
-/
namespace ApiContract

/-- The schema of a payload for each of its media types. -/
abbrev Content := Table Scalar (Option Schema)

structure Parameter where
  name : Scalar
  place : Scalar
  required : Bool := false
  schema : Option Schema := none
  description : Tree := .text ""

structure RequestBody where
  content : Content
  required : Bool := false
  name : Tree := .null
  description : Tree := .text ""

structure Response where
  code : String
  description : Tree := .text ""
  content : Content := []

/-- A code of the two hundreds, a range code included. -/
def Response.isSuccess (r : Response) : Bool := r.code.toList.head? == some '2'

structure Operation where
  method : String
  path : String
  operationId : Tree := .null
  summary : Tree := .text ""
  description : Tree := .text ""
  parameters : List Parameter := []
  bodies : List RequestBody := []
  responses : Table String Response := []
  tags : List Tree := []
  extensions : Table String Tree := []

namespace Operation

def label (op : Operation) : String := op.method.toUpper ++ " " ++ op.path

def extension (op : Operation) (key : String) : Tree := (Table.get? op.extensions key).getD .null

def isAsync (op : Operation) : Bool := (op.extension "x-codegen-async").isTruthy

end Operation

structure PathItem where
  template : String
  operations : List Operation := []

structure Contract where
  title : String
  version : String
  items : List PathItem := []
  schemas : Table String Schema := []

namespace Contract

def operations (c : Contract) : List Operation := c.items.flatMap PathItem.operations

def schema? (c : Contract) (name : String) : Option Schema := Table.get? c.schemas name

end Contract

/-- The media type of a payload for which none is declared. -/
def anyMediaType : String := "*/*"

end ApiContract
