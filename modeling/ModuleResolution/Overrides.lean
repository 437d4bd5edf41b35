import ModuleResolution.Dependency

namespace ModuleResolution

structure OverrideRule where
  module : String
  version : Option String
  replacement : Option (List Dependency)
  additions : List Dependency
  removals : List String
  deriving DecidableEq, Repr

namespace OverrideRule

def entries (rule : OverrideRule) : List Dependency :=
  rule.replacement.getD [] ++ rule.additions

def apply (rule : OverrideRule) (current : DependencySet) : DependencySet :=
  let base := match rule.replacement with
    | some ds => Ascending.ofList ds
    | none => current
  (base.filter fun d => !rule.removals.contains d.name).insertAll rule.additions

end OverrideRule

def Pins.compare : String × String → String × String → Ordering :=
  compareOn Prod.fst

instance : Std.TransCmp Pins.compare :=
  inferInstanceAs (Std.TransCmp (compareOn _))

abbrev Pins := Ascending Pins.compare

namespace Pins

def version? (pins : Pins) (name : String) : Option String :=
  (pins.toList.find? fun pin => pin.1 == name).map (·.2)

def apply (pins : Pins) (d : Dependency) : Dependency :=
  match pins.version? d.name with
  | some version => { d with version }
  | none => d

end Pins

structure Overrides where
  rules : List OverrideRule
  pins : Pins
  deriving DecidableEq, Repr

namespace Overrides

def empty : Overrides :=
  ⟨[], .empty⟩

def rule? (o : Overrides) (c : Coordinates) : Option OverrideRule :=
  (o.rules.find? fun r => r.module == c.name && r.version == some c.version).or
    (o.rules.find? fun r => r.module == c.name && r.version == none)

def hasRule (o : Overrides) (c : Coordinates) : Bool :=
  (o.rule? c).isSome

def apply (o : Overrides) (c : Coordinates) (current : DependencySet) : DependencySet :=
  let ruled := match o.rule? c with
    | some rule => rule.apply current
    | none => current
  ruled.map o.pins.apply

inductive Problem where
  | emptyModule
  | duplicateRule (module : String) (version : Option String)
  | incompleteDependency (module : String)
  | emptyPin (module : String)
  deriving DecidableEq, Repr

def Problem.message : Problem → String
  | emptyModule => "Override module name cannot be empty"
  | duplicateRule module none => s!"Duplicate override for '{module}'"
  | duplicateRule module (some version) =>
      s!"Duplicate override for '{module}' version '{version}'"
  | incompleteDependency module =>
      s!"Override for '{module}' has a dependency without module or version"
  | emptyPin module => s!"Version pin for '{module}' is empty"

def checkRules (seen : List (String × Option String)) : List OverrideRule → Except Problem Unit
  | [] => .ok ()
  | rule :: rules =>
      if rule.module.isEmpty then
        .error .emptyModule
      else if seen.contains (rule.module, rule.version) then
        .error (.duplicateRule rule.module rule.version)
      else if rule.entries.any fun d => d.name.isEmpty || d.version.isEmpty then
        .error (.incompleteDependency rule.module)
      else
        checkRules ((rule.module, rule.version) :: seen) rules

def checkPins (pins : Pins) : Except Problem Unit :=
  match pins.toList.find? fun pin => pin.2.isEmpty with
  | some pin => .error (.emptyPin pin.1)
  | none => .ok ()

def validate (o : Overrides) : Except Problem Unit := do
  checkRules [] o.rules
  checkPins o.pins

end Overrides

end ModuleResolution
