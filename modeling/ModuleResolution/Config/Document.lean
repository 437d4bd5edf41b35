import ModuleResolution.BinaryVersion.Document
import ModuleResolution.Config

namespace ModuleResolution.Config

structure Settings where
  binaryVersion : BinaryVersion
  loadTransitive : Bool
  extensions : List String

def Settings.default : Settings :=
  ⟨Config.default.binaryVersion, Config.default.loadTransitive, Config.default.extensions⟩

def Settings.ofDocument? (d : Document) : Option Settings := do
  let fs ← d.fields? ["binary-version", "load-transitive-dependencies", "artifact-extensions"]
  let binaryVersion ←
    fs.withDefault "binary-version" default.binaryVersion BinaryVersion.ofDocument?
  let loadTransitive ←
    fs.withDefault "load-transitive-dependencies" default.loadTransitive Document.boolean?
  let extensions ←
    fs.withDefault "artifact-extensions" default.extensions (Document.list? Document.string?)
  return ⟨binaryVersion, loadTransitive, extensions⟩

def foundationalOfDocument? (d : Document) : Option Coordinates := do
  let fs ← d.fields? ["name", "version"]
  let name ← fs.withDefault "name" Config.default.foundational.name Document.string?
  let version ← fs.withDefault "version" Config.default.foundational.version Document.string?
  return ⟨name, version⟩

def platformOfDocument? (d : Document) : Option Platform := do
  let fs ← d.fields? ["version", "oldest-provided", "modules"]
  let version ← fs.withDefault "version" Config.default.platform.version Document.string?
  let oldest ← fs.withDefault "oldest-provided" Config.default.platform.oldest Document.string?
  let modules ← fs.withDefault "modules" Config.default.platform.modules
    (Document.list? Document.string?)
  return ⟨version, oldest, modules⟩

def ofDocument? (d : Document) : Option Config := do
  let fs ← d.fields? ["toolchain", "foundational", "platform"]
  let settings ← fs.withDefault "toolchain" Settings.default Settings.ofDocument?
  let foundational ←
    fs.withDefault "foundational" Config.default.foundational foundationalOfDocument?
  let platform ← fs.withDefault "platform" Config.default.platform platformOfDocument?
  return ⟨settings.binaryVersion, settings.loadTransitive, settings.extensions, foundational,
    platform⟩

def toDocument (c : Config) : Document :=
  .table
    [("toolchain", .table
      [("binary-version", c.binaryVersion.toDocument),
        ("load-transitive-dependencies", .boolean c.loadTransitive),
        ("artifact-extensions", .ofStrings c.extensions)]),
      ("foundational", .table
        [("name", .string c.foundational.name),
          ("version", .string c.foundational.version)]),
      ("platform", .table
        [("version", .string c.platform.version),
          ("oldest-provided", .string c.platform.oldest),
          ("modules", .ofStrings c.platform.modules)])]

end ModuleResolution.Config
