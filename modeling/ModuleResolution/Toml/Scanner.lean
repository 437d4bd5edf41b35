namespace ModuleResolution.Toml

structure Rest where
  chars : List Char
  length : Nat
  length_eq : length = chars.length

namespace Rest

def ofString (s : String) : Rest :=
  ⟨s.toList, s.toList.length, rfl⟩

def drop (n : Nat) (r : Rest) : Rest :=
  ⟨r.chars.drop n, r.length - n, by rw [List.length_drop, r.length_eq]⟩

end Rest

abbrev Scanner := StateT Rest Option

namespace Scanner

variable {α : Type}

def satisfy (p : Char → Bool) : Scanner Char := fun r =>
  match r.chars with
  | [] => none
  | c :: _ => if p c then some (c, r.drop 1) else none

def char (c : Char) : Scanner Unit :=
  discard (satisfy (· == c))

def token (t : List Char) : Scanner Unit := fun r =>
  if t.isPrefixOf r.chars then some ((), r.drop t.length) else none

def span (p : Char → Bool) : Scanner (List Char) := fun r =>
  let cs := r.chars.takeWhile p
  some (cs, r.drop cs.length)

def spanNonempty (p : Char → Bool) : Scanner (List Char) := do
  return (← satisfy p) :: (← span p)

def atEnd : Scanner Unit := fun r =>
  if r.chars.isEmpty then some ((), r) else none

def readAll (p : Scanner α) (r : Rest) : List α × Rest :=
  match p r with
  | some (a, next) =>
      if next.length < r.length then
        let (as, end_) := readAll p next
        (a :: as, end_)
      else ([], r)
  | none => ([], r)
termination_by r.length

def repeated (p : Scanner α) : Scanner (List α) := fun r =>
  some (readAll p r)

def separated (sep : Char) (p : Scanner α) : Scanner (List α) := do
  return (← p) :: (← repeated (char sep *> p))

def exactly (p : Char → Bool) : (n : Nat) → Scanner (List Char)
  | 0 => return []
  | n + 1 => return (← satisfy p) :: (← exactly p n)

def withText (p : Scanner α) : Scanner (α × String) := fun r =>
  (p r).map fun (a, next) => ((a, String.ofList (r.chars.take (r.length - next.length))), next)

def blank : Scanner Unit :=
  discard (span fun c => c == ' ' || c == '\t')

def newline : Scanner Unit :=
  char '\n' <|> token ['\r', '\n']

def isPrintable (c : Char) : Bool :=
  c == '\t' || (0x20 ≤ c.toNat && c.toNat != 0x7F)

def comment : Scanner Unit :=
  char '#' *> discard (span isPrintable)

def filler : Scanner Unit :=
  discard <| repeated <|
    discard (satisfy fun c => c == ' ' || c == '\t') <|> newline <|> (comment *> newline)

end Scanner

end ModuleResolution.Toml
