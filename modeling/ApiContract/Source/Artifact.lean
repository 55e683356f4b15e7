import ApiContract.Source.Print

/-! # Artifacts

An artifact is one printed unit with its place in the output: the dialect, the
components of its package, and a file named for the type.
-/
namespace ApiContract

inductive ArtifactKind
  | resource
  | bean
  | enum
  deriving DecidableEq, Repr

def ArtifactKind.name : ArtifactKind → String
  | resource => "resource"
  | bean => "bean"
  | enum => "enum"

structure Artifact where
  name : String
  kind : ArtifactKind
  package : String
  body : String
  dialect : String

namespace Artifact

def packageParts (package : String) : List String :=
  (Text.splitAt '.' package.toList).map String.ofList

def segments (a : Artifact) : List String :=
  a.dialect :: packageParts a.package ++ [a.name ++ ".java"]

def relativePath (a : Artifact) : String := "/".intercalate a.segments

def ofResource (signatures : Table String Signature) (dialect : Dialect) (settings : Settings)
    (resource : Resource) : Outcome Artifact := do
  let unit ← Source.resourceUnit signatures dialect settings resource
  pure { name := resource.name, kind := .resource, package := settings.javaPackage,
         body := unit.print, dialect := dialect.name }

def ofBean (dialect : Dialect) (settings : Settings) (bean : Bean) : Outcome Artifact := do
  let unit ← Source.beanUnit settings bean
  pure { name := bean.name, kind := .bean, package := settings.beanPackage,
         body := unit.print, dialect := dialect.name }

def ofEnum (dialect : Dialect) (settings : Settings) (enum : EnumType) : Outcome Artifact := do
  let unit ← Source.enumUnit settings enum
  pure { name := enum.name, kind := .enum, package := settings.beanPackage,
         body := unit.print, dialect := dialect.name }

end Artifact

end ApiContract
