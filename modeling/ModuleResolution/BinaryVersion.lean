namespace ModuleResolution

structure BinaryVersion where
  major : UInt32
  minor : UInt32
  deriving DecidableEq, Repr, Inhabited

namespace BinaryVersion

def render (v : BinaryVersion) : String :=
  toString v.major.toNat ++ "." ++ toString v.minor.toNat

def isSupportedBy (found supported : BinaryVersion) : Bool :=
  found.major == supported.major && found.minor == supported.minor

end BinaryVersion

end ModuleResolution
