import ModuleResolution.Module

namespace ModuleResolution

structure Trail where
  root : ModuleId
  below : List ModuleId
  deriving DecidableEq, Repr

namespace Trail

def start (root : ModuleId) : Trail :=
  ⟨root, []⟩

def path (t : Trail) : List ModuleId :=
  t.root :: t.below

def last (t : Trail) : ModuleId :=
  t.below.getLastD t.root

def push (t : Trail) (m : ModuleId) : Trail :=
  { t with below := t.below ++ [m] }

def pop? (t : Trail) : Option (ModuleId × Trail) :=
  t.below.getLast?.map fun m => (m, { t with below := t.below.dropLast })

def extend (t : Trail) (m : ModuleId) : Trail :=
  if t.last == m then t else t.push m

def contains (t : Trail) (m : ModuleId) : Bool :=
  t.path.contains m

def length (t : Trail) : Nat :=
  t.path.length

end Trail

end ModuleResolution
