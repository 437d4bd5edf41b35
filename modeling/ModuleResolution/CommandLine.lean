import ModuleResolution.CommandLine.Arguments
import ModuleResolution.CommandLine.Report
import ModuleResolution.Format

namespace ModuleResolution.CommandLine

inductive FileError where
  | notFound
  | isDirectory
  | notDirectory
  | nameTooLong
  | permissionDenied
  | notText
  | other (message : String)

def FileError.message : FileError → String
  | notFound => "No such file or directory (os error 2)"
  | isDirectory => "Is a directory (os error 21)"
  | notDirectory => "Not a directory (os error 20)"
  | nameTooLong => "File name too long (os error 36)"
  | permissionDenied => "Permission denied (os error 13)"
  | notText => "stream did not contain valid UTF-8"
  | other message => message

abbrev Reader (m : Type → Type) := String → m (Except FileError String)

structure Failure where
  message : String
  causes : List String

namespace Failure

def indented (first rest cause : String) : String :=
  first ++ rest.intercalate (cause.splitOn "\n")

def causeLines : List String → List String
  | [cause] => [indented "    " "\n    " cause]
  | causes => causes.zipIdx.map fun (cause, n) => indented s!"    {n}: " "\n       " cause

def render (f : Failure) : String :=
  let head := "Error: " ++ f.message ++ "\n"
  if f.causes.isEmpty then head
  else head ++ "\nCaused by:\n" ++ String.join ((causeLines f.causes).map (· ++ "\n"))

end Failure

structure Exit where
  code : UInt32
  stdout : String
  stderr : String

variable {m : Type → Type} [Monad m]

def loadFile {α ε : Type} (read : Reader m) (f : Format α ε) (path : String) :
    ExceptT Failure m α := do
  let failure (causes : List String) : Failure := ⟨"loading " ++ path, causes⟩
  match ← (read path : m _) with
  | .error e =>
      throw (failure [s!"Failed to read {f.title} file: {e.message}", e.message])
  | .ok text =>
      match f.parse text with
      | .ok a => return a
      | .error e => throw (failure (f.causes e))

def check (read : Reader m) (args : CheckArguments) : ExceptT Failure m SessionReport := do
  let config ← match args.config with
    | some path => loadFile read Config.format path
    | none => pure Config.default
  let overrides ← match args.overrides with
    | some path => some <$> loadFile read Overrides.format path
    | none => pure none
  let plan ← loadFile read Plan.format args.plan
  match plan.run config overrides with
  | .ok report => return report
  | .error e => throw ⟨e.message, []⟩

def versionText : String := "velamod 0.2.0\n"

def helpText : String :=
  "Vela module resolver\n\n" ++
  "Usage: velamod check [OPTIONS] <PLAN>\n\n" ++
  "Options:\n" ++
  "      --config <CONFIG>        Toolchain configuration\n" ++
  "      --overrides <OVERRIDES>  Dependency overrides\n" ++
  "  -h, --help                   Print help\n" ++
  "  -V, --version                Print version\n"

def run (read : Reader m) (args : List String) : m Exit := do
  match Command.ofArguments? args with
  | none => return ⟨2, "", ""⟩
  | some .version => return ⟨0, versionText, ""⟩
  | some .help => return ⟨0, helpText, ""⟩
  | some (.check args) =>
      match ← (check read args).run with
      | .ok report => return ⟨if report.hasErrors then 1 else 0, report.render, ""⟩
      | .error failure => return ⟨1, "", failure.render⟩

end ModuleResolution.CommandLine
