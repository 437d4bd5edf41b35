import ModuleResolution.Config.Document
import ModuleResolution.Overrides.Document
import ModuleResolution.Plan.Document
import ModuleResolution.Toml

namespace ModuleResolution

inductive LoadError (ε : Type) where
  | notToml
  | wrongShape
  | invalid (problem : ε)
  deriving DecidableEq, Repr

structure Format (α ε : Type) where
  title : String
  ofDocument? : Document → Option α
  validate : α → Except ε Unit
  describe : ε → String

namespace Format

variable {α ε : Type}

def accept (f : Format α ε) (a : α) : Except (LoadError ε) α :=
  match f.validate a with
  | .ok () => .ok a
  | .error problem => .error (.invalid problem)

def read (f : Format α ε) (d : Document) : Except (LoadError ε) α :=
  match f.ofDocument? d with
  | some a => .ok a
  | none => .error .wrongShape

def load (f : Format α ε) (d : Document) : Except (LoadError ε) α :=
  f.read d >>= f.accept

def parse (f : Format α ε) (text : String) : Except (LoadError ε) α :=
  match Toml.parse? text with
  | some d => f.load d
  | none => .error .notToml

def malformed (f : Format α ε) (reason : String) : List String :=
  [s!"Failed to parse {f.title}: {reason}", reason]

def causes (f : Format α ε) : LoadError ε → List String
  | .notToml => f.malformed "the text is not well-formed TOML"
  | .wrongShape => f.malformed "a value is missing or of the wrong type"
  | .invalid problem => [s!"Invalid {f.title}: {f.describe problem}"]

end Format

def Config.format : Format Config Config.Problem :=
  ⟨"config", Config.ofDocument?, Config.validate, Config.Problem.message⟩

def Overrides.format : Format Overrides Overrides.Problem :=
  ⟨"overrides", Overrides.ofDocument?, Overrides.validate, Overrides.Problem.message⟩

def Plan.format : Format Plan Plan.Problem :=
  ⟨"plan", Plan.ofDocument?, Plan.validate, Plan.Problem.message⟩

end ModuleResolution
