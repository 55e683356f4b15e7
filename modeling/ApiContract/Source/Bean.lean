import ApiContract.Doc.Comment
import ApiContract.Naming.Identifier
import ApiContract.Source.TypeText
import ApiContract.Text.Escaped

/-! # Beans

A bean becomes a class with a private field, a getter and a setter for each
property, in declaration order. Identifiers that would come up twice are numbered.
-/
namespace ApiContract.Source

def jackson (simple : String) : String := "com.fasterxml.jackson.annotation." ++ simple

structure FieldUnit where
  literal : String
  identifier : String
  type : String
  getter : String
  setter : String
  comment : List String

structure BeanUnit where
  package : String
  imports : List String
  name : String
  comment : List String
  fields : List FieldUnit

/-- The name of an accessor: its kind and the identifier with a capital. -/
def accessor (kind identifier : String) : String :=
  kind ++ String.ofList (Naming.capitalize identifier.toList)

def fieldComment (f : BeanField) : Outcome (List String) := do
  let lines ← Doc.renderDescription f.description
  pure (if f.required then lines ++ ["(Required)"] else lines)

structure FieldState where
  fields : List FieldUnit := []
  needs : List String := []

def addField (settings : Settings) (state : FieldState) (f : BeanField) : Outcome FieldState := do
  let name ← need .illTyped f.name.text?
  let identifier := Naming.fresh (state.fields.map FieldUnit.identifier)
    (Naming.identifier name) ""
  let comment ← fieldComment f
  let type ← typePiece none settings f.type
  let unit : FieldUnit :=
    { literal := Text.escaped name, identifier, type := type.text,
      getter := accessor "get" identifier, setter := accessor "set" identifier, comment }
  pure { fields := state.fields ++ [unit], needs := state.needs ++ type.needs }

def beanAnnotations : List String :=
  [jackson "JsonInclude", jackson "JsonProperty", jackson "JsonPropertyOrder"]

def beanUnit (settings : Settings) (bean : Bean) : Outcome BeanUnit := do
  let final ← bean.fields.foldlM (addField settings) {}
  let needs := (if bean.fields.isEmpty then [] else beanAnnotations) ++ final.needs
  let comment ← Doc.renderDescription bean.description
  pure { package := settings.beanPackage, imports := importList settings.beanPackage needs,
         name := bean.name, comment, fields := final.fields }

end ApiContract.Source
