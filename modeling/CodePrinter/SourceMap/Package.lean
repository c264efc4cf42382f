import CodePrinter.Failure

/-! A map from a generated file to one source, kept by a package that writes maps. -/
namespace CodePrinter

/-- A package that writes maps, as its callers see it. To add a mapping of a source leaves a state
behind, also if it fails. -/
structure MapPackage (σ : Type) where
  create : (file : String) → σ
  add : (source : String) → Mapping → σ → σ × Option Failure
  json : σ → Json
  text : σ → String

structure SourceMap (σ : Type) where
  /-- What the package knows of the map. -/
  generator : σ
  source : String

namespace SourceMap

variable {σ : Type}

def create (package : MapPackage σ) (file source : String) : SourceMap σ :=
  { generator := package.create file, source }

/-- Hands a mapping over to the package. -/
def add (package : MapPackage σ) (originLine originColumn line column : Int) (name : Option String)
    (map : SourceMap σ) : SourceMap σ × Option Failure :=
  let mapping : Mapping :=
    { generated := { line, column }
      origin := { line := originLine, column := originColumn }
      name }
  let (generator, failure) := package.add map.source mapping map.generator
  ({ map with generator }, failure)

def json (package : MapPackage σ) (map : SourceMap σ) : Json := package.json map.generator

def text (package : MapPackage σ) (map : SourceMap σ) : String := package.text map.generator

end SourceMap

end CodePrinter
