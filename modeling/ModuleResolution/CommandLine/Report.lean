import ModuleResolution.Plan.Run

namespace ModuleResolution

def Registry.label (r : Registry) (id : ModuleId) : String :=
  (r.module id).coordinates.render

def Target.render (r : Registry) : Target → String
  | module id => r.label id
  | declaration root dependency => s!"{r.label root} (import of {r.label dependency})"
  | importOf importer dependency => s!"{r.label importer} -> {r.label dependency}"

namespace SessionReport

def diagnosticLines (r : SessionReport) (d : Diagnostic) : List String :=
  [d.render, "  --> " ++ d.target.render r.registry]

def importLine (r : SessionReport) (i : Import) : String :=
  "    -> " ++ r.registry.label i.target ++
    (if i.optional then " optional" else "") ++ (if i.exported then " export" else "")

def flags (m : Module) : List String :=
  (if m.available then ["available"] else []) ++ (if m.fromPlatform then ["platform"] else []) ++
    (if m.fromBinary then ["binary"] else [])

def moduleLines (r : SessionReport) (m : Module) : List String :=
  ("  " ++ m.coordinates.render ++ " [" ++ ", ".intercalate (flags m) ++ "]") ::
    m.imports.map r.importLine

def summary (r : SessionReport) : String :=
  let errors := (Diagnostic.errors r.diagnostics).length
  let warnings := (Diagnostic.warnings r.diagnostics).length
  s!"{errors} error(s), {warnings} warning(s)"

def lines (r : SessionReport) : List String :=
  r.diagnostics.flatMap r.diagnosticLines ++ (if r.diagnostics.isEmpty then [] else [""]) ++
    "Modules:" :: r.registry.modules.flatMap r.moduleLines ++ ["", r.summary]

def render (r : SessionReport) : String :=
  String.join (r.lines.map (· ++ "\n"))

end SessionReport

end ModuleResolution
