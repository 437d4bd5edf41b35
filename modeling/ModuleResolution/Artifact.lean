import ModuleResolution.Coordinates

namespace ModuleResolution

inductive DependencyKind where
  | normal
  | optional
  | exported
  deriving DecidableEq, Repr

namespace DependencyKind

def name : DependencyKind → String
  | .normal => "normal"
  | .optional => "optional"
  | .exported => "export"

def ofName? : String → Option DependencyKind
  | "normal" => some .normal
  | "optional" => some .optional
  | "export" => some .exported
  | _ => none

theorem ofName?_name (k : DependencyKind) : ofName? k.name = some k := by
  cases k <;> rfl

def isOptional (k : DependencyKind) : Bool := k == .optional

def isExported (k : DependencyKind) : Bool := k == .exported

end DependencyKind

structure ArtifactDependency where
  coordinates : Coordinates
  kind : DependencyKind
  deriving DecidableEq, Repr

structure Artifact where
  coordinates : Coordinates
  dependencies : List ArtifactDependency
  deriving DecidableEq, Repr

def Artifact.bare (c : Coordinates) : Artifact :=
  ⟨c, []⟩

end ModuleResolution
