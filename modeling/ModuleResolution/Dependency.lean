import ModuleResolution.Ascending
import ModuleResolution.Coordinates

namespace ModuleResolution

structure Dependency where
  name : String
  version : String
  optional : Bool
  exported : Bool
  deriving DecidableEq, Repr

namespace Dependency

def coordinates (d : Dependency) : Coordinates :=
  ⟨d.name, d.version⟩

def compare : Dependency → Dependency → Ordering :=
  compareLex (compareOn name)
    (compareLex (compareOn version) (compareLex (compareOn optional) (compareOn exported)))

instance : Std.TransCmp compare :=
  inferInstanceAs (Std.TransCmp (compareLex _ _))

end Dependency

abbrev DependencySet := Ascending Dependency.compare

end ModuleResolution
