import ModuleResolution.BinaryVersion.Document
import ModuleResolution.Dependency.Document
import ModuleResolution.Plan

namespace ModuleResolution

namespace ArtifactDependency

def kindOfDocument? (d : Document) : Option DependencyKind :=
  d.label?.bind DependencyKind.ofName?

def ofDocument? (d : Document) : Option ArtifactDependency := do
  let fs ← d.fields? ["name", "version", "type"]
  let name ← fs.required "name" Document.string?
  let version ← fs.required "version" Document.string?
  let kind ← fs.withDefault "type" .normal kindOfDocument?
  return ⟨⟨name, version⟩, kind⟩

def toDocument (d : ArtifactDependency) : Document :=
  .table
    [("name", .string d.coordinates.name), ("version", .string d.coordinates.version),
      ("type", .string d.kind.name)]

end ArtifactDependency

namespace SourceModule

def ofDocument? (d : Document) : Option SourceModule := do
  let fs ← d.fields? ["name", "version", "imports"]
  let name ← fs.required "name" Document.string?
  let version ← fs.required "version" Document.string?
  let imports ← fs.withDefault "imports" [] (Document.list? Dependency.ofDocument?)
  return ⟨⟨name, version⟩, imports⟩

def toDocument (s : SourceModule) : Document :=
  .table
    [("name", .string s.coordinates.name), ("version", .string s.coordinates.version),
      ("imports", .ofDependencies s.imports)]

end SourceModule

namespace PlannedArtifact

def ofDocument? (d : Document) : Option PlannedArtifact := do
  let fs ← d.fields? ["name", "version", "binary-version", "dependencies"]
  let name ← fs.required "name" Document.string?
  let version ← fs.required "version" Document.string?
  let binaryVersion ← fs.optional "binary-version" BinaryVersion.ofDocument?
  let dependencies ←
    fs.withDefault "dependencies" [] (Document.list? ArtifactDependency.ofDocument?)
  return ⟨⟨name, version⟩, binaryVersion, dependencies⟩

def toDocument (a : PlannedArtifact) : Document :=
  .table <|
    [("name", .string a.coordinates.name), ("version", .string a.coordinates.version)] ++
    Document.entry? "binary-version" BinaryVersion.toDocument a.binaryVersion ++
    [("dependencies", .array (a.dependencies.map ArtifactDependency.toDocument))]

end PlannedArtifact

namespace Plan

def ofDocument? (d : Document) : Option Plan := do
  let fs ← d.fields? ["source", "artifact"]
  let sources ← fs.withDefault "source" [] (Document.list? SourceModule.ofDocument?)
  let artifacts ← fs.withDefault "artifact" [] (Document.list? PlannedArtifact.ofDocument?)
  return ⟨sources, artifacts⟩

def toDocument (p : Plan) : Document :=
  .table
    [("source", .array (p.sources.map SourceModule.toDocument)),
      ("artifact", .array (p.artifacts.map PlannedArtifact.toDocument))]

end Plan

end ModuleResolution
