import ModuleResolution.Artifact
import ModuleResolution.BinaryVersion
import ModuleResolution.Dependency

namespace ModuleResolution

structure SourceModule where
  coordinates : Coordinates
  imports : List Dependency
  deriving DecidableEq, Repr

def Dependency.kind (d : Dependency) : DependencyKind :=
  -- no kind says both
  if d.exported then .exported else if d.optional then .optional else .normal

def SourceModule.artifact (s : SourceModule) : Artifact :=
  ⟨s.coordinates, s.imports.map fun d => ⟨d.coordinates, d.kind⟩⟩

structure PlannedArtifact where
  coordinates : Coordinates
  binaryVersion : Option BinaryVersion
  dependencies : List ArtifactDependency
  deriving DecidableEq, Repr

def PlannedArtifact.artifact (a : PlannedArtifact) : Artifact :=
  ⟨a.coordinates, a.dependencies⟩

structure Plan where
  sources : List SourceModule
  artifacts : List PlannedArtifact
  deriving DecidableEq, Repr

namespace Plan

def empty : Plan :=
  ⟨[], []⟩

def source? (p : Plan) (c : Coordinates) : Option SourceModule :=
  p.sources.find? fun s => s.coordinates == c

def artifact? (p : Plan) (c : Coordinates) : Option PlannedArtifact :=
  p.artifacts.find? fun a => a.coordinates == c

inductive Problem where
  | incompleteSource
  | duplicateSource (name : String)
  | incompleteImport (source : String)
  | incompleteArtifact
  | duplicateArtifact (c : Coordinates)
  deriving DecidableEq, Repr

def Problem.message : Problem → String
  | incompleteSource => "Source module needs a name and a version"
  | duplicateSource name => s!"Source module '{name}' declared twice"
  | incompleteImport source => s!"Source module '{source}' has an import without module or version"
  | incompleteArtifact => "Artifact needs a name and a version"
  | duplicateArtifact c => s!"Artifact '{c.render}' declared twice"

def isIncomplete (c : Coordinates) : Bool :=
  c.name.isEmpty || c.version.isEmpty

def checkSources (seen : List String) : List SourceModule → Except Problem Unit
  | [] => .ok ()
  | s :: sources =>
      if isIncomplete s.coordinates then
        .error .incompleteSource
      else if seen.contains s.coordinates.name then
        .error (.duplicateSource s.coordinates.name)
      else if s.imports.any fun d => isIncomplete d.coordinates then
        .error (.incompleteImport s.coordinates.name)
      else
        checkSources (s.coordinates.name :: seen) sources

def checkArtifacts (seen : List Coordinates) : List PlannedArtifact → Except Problem Unit
  | [] => .ok ()
  | a :: artifacts =>
      if isIncomplete a.coordinates then
        .error .incompleteArtifact
      else if seen.contains a.coordinates then
        .error (.duplicateArtifact a.coordinates)
      else
        checkArtifacts (a.coordinates :: seen) artifacts

def validate (p : Plan) : Except Problem Unit := do
  checkSources [] p.sources
  checkArtifacts [] p.artifacts

end Plan

end ModuleResolution
