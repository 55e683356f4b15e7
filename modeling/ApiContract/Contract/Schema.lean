import ApiContract.Tree.Basic

/-! # Schemas

One node of a contract's schema language. Each form carries where it stands in
the document, its description and the name of an existing type that stands for
it, if any. Only arrays have items, only maps have a value schema, and only
objects have properties, required names and members to merge.
-/
namespace ApiContract

structure SchemaNotes where
  location : String
  description : Tree := .text ""
  external : Tree := .null

inductive Schema
  | reference (location target : String)
  | primitive (notes : SchemaNotes) (type : String) (format : Tree)
  | binary (notes : SchemaNotes)
  | any (notes : SchemaNotes)
  | unsupported (notes : SchemaNotes) (what : String)
  | enumeration (notes : SchemaNotes) (type : Tree) (values : List Tree)
  | array (notes : SchemaNotes) (items : Schema)
  | map (notes : SchemaNotes) (value : Schema)
  | object (notes : SchemaNotes) (properties : List (Scalar × Schema)) (required : List Scalar)
      (members : List Schema)

namespace Schema

def notes : Schema → SchemaNotes
  | reference location _ => { location }
  | primitive n _ _ => n
  | binary n => n
  | any n => n
  | unsupported n _ => n
  | enumeration n _ _ => n
  | array n _ => n
  | map n _ => n
  | object n _ _ _ => n

def location (s : Schema) : String := s.notes.location

def description (s : Schema) : Tree := s.notes.description

def external (s : Schema) : Tree := s.notes.external

/-- Whether the node names an existing type to stand for it. -/
def isExternal (s : Schema) : Bool := s.external.isTruthy

mutual

/-- The node and every node below it, each before its parts. -/
def nodes : Schema → List Schema
  | array n items => array n items :: items.nodes
  | map n value => map n value :: value.nodes
  | object n properties required members =>
    object n properties required members :: (propertyNodes properties ++ memberNodes members)
  | leaf => [leaf]

def propertyNodes : List (Scalar × Schema) → List Schema
  | [] => []
  | p :: rest => p.2.nodes ++ propertyNodes rest

def memberNodes : List Schema → List Schema
  | [] => []
  | m :: rest => m.nodes ++ memberNodes rest

end

end Schema

end ApiContract
