import ModuleResolution.CommandLine

open ModuleResolution.CommandLine

def nameTooLongCode : UInt32 := 0 - 36

/-- A directory can be opened, only its content cannot be read, and so its error names no file. -/
def fileError : IO.Error → FileError
  | .noFileOrDirectory .. => .notFound
  | .permissionDenied .. => .permissionDenied
  | .inappropriateType none .. => .isDirectory
  | .inappropriateType (some _) .. => .notDirectory
  | e@(.invalidArgument _ code _) =>
      if code == nameTooLongCode then .nameTooLong else .other (toString e)
  | e => .other (toString e)

def readText (path : String) : IO (Except FileError String) := do
  try
    let bytes ← IO.FS.readBinFile path
    match String.fromUTF8? bytes with
    | some text => return .ok text
    | none => return .error .notText
  catch e =>
    return .error (fileError e)

def main (args : List String) : IO UInt32 := do
  let exit ← run readText args
  (← IO.getStdout).putStr exit.stdout
  (← IO.getStderr).putStr exit.stderr
  return exit.code
