import ModuleResolution.Platform

namespace ModuleResolution

structure Config where
  binaryVersion : BinaryVersion
  loadTransitive : Bool
  extensions : List String
  foundational : Coordinates
  platform : Platform
  deriving DecidableEq, Repr

namespace Config

def default : Config where
  binaryVersion := ⟨3, 2⟩
  loadTransitive := false
  extensions := ["vmod", "nar"]
  foundational := ⟨"vela.lang", "1.0.0"⟩
  platform := ⟨"11", "8", []⟩

inductive Problem where
  | emptyFoundationalName
  | emptyFoundationalVersion (name : String)
  | emptyPlatformVersion
  | noExtension
  deriving DecidableEq, Repr

def Problem.message : Problem → String
  | emptyFoundationalName => "Foundational module name cannot be empty"
  | emptyFoundationalVersion name => s!"Foundational module '{name}' has empty version"
  | emptyPlatformVersion => "Platform version cannot be empty"
  | noExtension => "At least one artifact extension is required"

def validate (c : Config) : Except Problem Unit :=
  if Text.isBlank c.foundational.name then
    .error .emptyFoundationalName
  else if Text.isBlank c.foundational.version then
    .error (.emptyFoundationalVersion c.foundational.name)
  else if Text.isBlank c.platform.version then
    .error .emptyPlatformVersion
  else if c.extensions.isEmpty then
    .error .noExtension
  else
    .ok ()

end Config

end ModuleResolution
