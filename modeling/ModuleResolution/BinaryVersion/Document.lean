import ModuleResolution.BinaryVersion
import ModuleResolution.Document

namespace ModuleResolution.BinaryVersion

def ofDocument? (d : Document) : Option BinaryVersion := do
  let fs ← d.fields? ["major", "minor"]
  let major ← fs.required "major" Document.word?
  let minor ← fs.required "minor" Document.word?
  return ⟨major, minor⟩

def toDocument (v : BinaryVersion) : Document :=
  .table [("major", .integer v.major.toNat), ("minor", .integer v.minor.toNat)]

end ModuleResolution.BinaryVersion
