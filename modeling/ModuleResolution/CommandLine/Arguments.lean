namespace ModuleResolution.CommandLine

structure CheckArguments where
  plan : String
  config : Option String
  overrides : Option String

inductive Command where
  | check (args : CheckArguments)
  | version
  | help

structure Pending where
  plan : Option String
  config : Option String
  overrides : Option String

namespace Pending

def empty : Pending := ⟨none, none, none⟩

def fill (place : Option String) (path : String) : Option (Option String) :=
  if place.isSome || path.isEmpty then none else some (some path)

def withPlan (p : Pending) (path : String) : Option Pending := do
  return { p with plan := ← fill p.plan path }

def withConfig (p : Pending) (path : String) : Option Pending := do
  return { p with config := ← fill p.config path }

def withOverrides (p : Pending) (path : String) : Option Pending := do
  return { p with overrides := ← fill p.overrides path }

def finish (p : Pending) : Option Command := do
  return .check ⟨← p.plan, p.config, p.overrides⟩

end Pending

def looksLikeOption (arg : String) : Bool :=
  arg.startsWith "-" && arg != "-"

def isShort (letter : Char) (arg : String) : Bool :=
  ['-', letter].isPrefixOf arg.toList

def isHelp (arg : String) : Bool :=
  arg == "--help" || isShort 'h' arg

def isVersion (arg : String) : Bool :=
  arg == "--version" || isShort 'V' arg

def attached? (option arg : String) : Option String :=
  let start := option.toList ++ ['=']
  if start.isPrefixOf arg.toList then some (String.ofList (arg.toList.drop start.length)) else none

def readPaths (p : Pending) : List String → Option Command
  | [] => p.finish
  | path :: rest => do readPaths (← p.withPlan path) rest

def readCheck (p : Pending) : List String → Option Command
  | [] => p.finish
  | ["--config"] => none
  | ["--overrides"] => none
  | "--" :: rest => readPaths p rest
  | "--config" :: path :: rest =>
      if looksLikeOption path then none else do readCheck (← p.withConfig path) rest
  | "--overrides" :: path :: rest =>
      if looksLikeOption path then none else do readCheck (← p.withOverrides path) rest
  | arg :: rest =>
      if isHelp arg then
        some .help
      else if let some path := attached? "--config" arg then do
        readCheck (← p.withConfig path) rest
      else if let some path := attached? "--overrides" arg then do
        readCheck (← p.withOverrides path) rest
      else if looksLikeOption arg then
        none
      else do
        readCheck (← p.withPlan arg) rest

def Command.ofArguments? : List String → Option Command
  | "check" :: rest => readCheck .empty rest
  | "help" :: [] | "help" :: ["check"] | "help" :: ["help"] => some .help
  | arg :: _ => if isHelp arg then some .help else if isVersion arg then some .version else none
  | [] => none

end ModuleResolution.CommandLine
