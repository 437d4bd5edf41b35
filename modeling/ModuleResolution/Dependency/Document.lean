import ModuleResolution.Dependency
import ModuleResolution.Document

namespace ModuleResolution

namespace Dependency

def ofDocument? (d : Document) : Option Dependency := do
  let fs ← d.fields? ["module", "version", "optional", "export"]
  let name ← fs.required "module" Document.string?
  let version ← fs.required "version" Document.string?
  let optional ← fs.withDefault "optional" false Document.boolean?
  let exported ← fs.withDefault "export" false Document.boolean?
  return ⟨name, version, optional, exported⟩

def toDocument (d : Dependency) : Document :=
  .table
    [("module", .string d.name), ("version", .string d.version),
      ("optional", .boolean d.optional), ("export", .boolean d.exported)]

end Dependency

def Document.ofDependencies (ds : List Dependency) : Document :=
  .array (ds.map Dependency.toDocument)

end ModuleResolution
