import ModuleResolution.Dependency.Document
import ModuleResolution.Overrides

namespace ModuleResolution

namespace OverrideRule

def ofDocument? (d : Document) : Option OverrideRule := do
  let fs ← d.fields? ["module", "version", "dependencies", "add", "remove"]
  let module ← fs.required "module" Document.string?
  let version ← fs.optional "version" Document.string?
  let replacement ← fs.optional "dependencies" (Document.list? Dependency.ofDocument?)
  let additions ← fs.withDefault "add" [] (Document.list? Dependency.ofDocument?)
  let removals ← fs.withDefault "remove" [] (Document.list? Document.string?)
  return ⟨module, version, replacement, additions, removals⟩

def toDocument (r : OverrideRule) : Document :=
  .table <|
    [("module", .string r.module)] ++
    Document.entry? "version" .string r.version ++
    Document.entry? "dependencies" Document.ofDependencies r.replacement ++
    [("add", .ofDependencies r.additions), ("remove", .ofStrings r.removals)]

end OverrideRule

namespace Pins

def ofDocument? (d : Document) : Option Pins := do
  let entries ← d.entries?
  let pins ← entries.mapM fun entry => entry.2.string?.map fun version => (entry.1, version)
  return .ofList pins

def toDocument (pins : Pins) : Document :=
  .table (pins.toList.map fun pin => (pin.1, .string pin.2))

end Pins

namespace Overrides

def ofDocument? (d : Document) : Option Overrides := do
  let fs ← d.fields? ["artifact", "set"]
  let rules ← fs.withDefault "artifact" [] (Document.list? OverrideRule.ofDocument?)
  let pins ← fs.withDefault "set" .empty Pins.ofDocument?
  return ⟨rules, pins⟩

def toDocument (o : Overrides) : Document :=
  .table
    [("artifact", .array (o.rules.map OverrideRule.toDocument)), ("set", Pins.toDocument o.pins)]

end Overrides

end ModuleResolution
