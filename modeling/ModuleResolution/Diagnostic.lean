import ModuleResolution.BinaryVersion
import ModuleResolution.Module

namespace ModuleResolution

inductive Issue where
  | versionConflict (name first second : String)
  | similarVersionConflict (first second : String)
  | binaryFormat (found supported : BinaryVersion)
  | platformVersionLower (requested current : String)
  | platformVersionUnavailable (name version current : String)
  | moduleNotFound (name version : String)
  deriving DecidableEq, Repr

namespace Issue

def message : Issue → String
  | versionConflict name first second =>
      s!"source code imports two different versions of module '{name}': " ++
        s!"version '{first}' and version '{second}'"
  | similarVersionConflict first second =>
      s!"source code imports two different versions of similar modules '{first}' and '{second}'"
  | binaryFormat found supported =>
      s!"This module was compiled for an incompatible version of the Vela compiler " ++
        s!"({found.render}).\nThis compiler supports {supported.render}.\n" ++
        "Please try to recompile your module using a compatible compiler."
  | platformVersionLower requested current =>
      s!"You import platform version '{requested}', which is provided by the platform version " ++
        s!"'{current}' you are running on, but we cannot check that you are not using any APIs " ++
        s!"newer than '{requested}'. Upgrade your import to '{current}' if you depend on them."
  | platformVersionUnavailable name version current =>
      s!"imported module '{name}' depends on platform version '{version}' " ++
        s!"and you are running platform {current}"
  | moduleNotFound name version =>
      s!"cannot find module artifact '{name}/{version}'"

def ofBinaryVersion? (found : Option BinaryVersion) (supported : BinaryVersion) : Option Issue :=
  match found with
  | none => none
  | some v => if v.isSupportedBy supported then none else some (.binaryFormat v supported)

end Issue

inductive WarningKind where
  | similarModule
  | importsOtherPlatform
  deriving DecidableEq, Repr

def WarningKind.name : WarningKind → String
  | .similarModule => "similar-module"
  | .importsOtherPlatform => "imports-other-platform"

inductive Severity where
  | error
  | warning (kind : WarningKind)
  deriving DecidableEq, Repr

inductive Target where
  | module (id : ModuleId)
  | declaration (root dependency : ModuleId)
  | importOf (importer dependency : ModuleId)
  deriving DecidableEq, Repr

structure Diagnostic where
  severity : Severity
  target : Target
  issue : Issue
  deriving DecidableEq, Repr

namespace Diagnostic

def isError (d : Diagnostic) : Bool :=
  d.severity == .error

def render (d : Diagnostic) : String :=
  match d.severity with
  | .error => "error: " ++ d.issue.message
  | .warning kind => "warning[" ++ kind.name ++ "]: " ++ d.issue.message

def errors (ds : List Diagnostic) : List Diagnostic :=
  ds.filter isError

def warnings (ds : List Diagnostic) : List Diagnostic :=
  ds.filter (!·.isError)

def anyError (ds : List Diagnostic) : Bool :=
  ds.any isError

end Diagnostic

end ModuleResolution
