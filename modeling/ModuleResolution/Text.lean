namespace ModuleResolution.Text

def consHead (c : Char) : List (List Char) → List (List Char)
  | [] => [[c]]
  | w :: ws => (c :: w) :: ws

def pieces (isSep : Char → Bool) : List Char → List (List Char)
  | [] => [[]]
  | c :: cs => if isSep c then [] :: pieces isSep cs else consHead c (pieces isSep cs)

def split (isSep : Char → Bool) (s : String) : List String :=
  (pieces isSep s.toList).map String.ofList

def join (sep : Char) (parts : List String) : String :=
  String.ofList ([sep].intercalate (parts.map String.toList))

theorem consHead_ne_nil (c : Char) (ws : List (List Char)) : consHead c ws ≠ [] := by
  cases ws <;> simp [consHead]

theorem pieces_ne_nil (isSep : Char → Bool) (s : List Char) : pieces isSep s ≠ [] := by
  cases s with
  | nil => simp [pieces]
  | cons c cs =>
      simp only [pieces]
      split
      · simp
      · exact consHead_ne_nil c _

theorem intercalate_consHead (sep c : Char) {ws : List (List Char)} (h : ws ≠ []) :
    [sep].intercalate (consHead c ws) = c :: [sep].intercalate ws := by
  cases ws with
  | nil => exact absurd rfl h
  | cons w ws => cases ws <;> simp [consHead, List.intercalate, List.intersperse]

theorem intercalate_pieces (sep : Char) (s : List Char) :
    [sep].intercalate (pieces (· == sep) s) = s := by
  induction s with
  | nil => simp [pieces, List.intercalate]
  | cons c cs ih =>
      simp only [pieces]
      split
      · rename_i h
        obtain ⟨w, ws, hw⟩ := List.exists_cons_of_ne_nil (pieces_ne_nil (· == sep) cs)
        rw [hw] at ih ⊢
        simp only [List.intercalate, List.intersperse, List.flatten] at ih ⊢
        simp_all
      · rw [intercalate_consHead sep c (pieces_ne_nil _ cs), ih]

theorem join_split (sep : Char) (s : String) : join sep (split (· == sep) s) = s := by
  simp [join, split, Function.comp_def, intercalate_pieces]

def isHexDigit (c : Char) : Bool :=
  c.isDigit || ('a' ≤ c.toLower && c.toLower ≤ 'f')

def digitValue (c : Char) : Nat :=
  if c.isDigit then c.toNat - '0'.toNat else c.toLower.toNat - 'a'.toNat + 10

def ofDigits (radix : Nat) (digits : List Char) : Nat :=
  digits.foldl (fun n c => radix * n + digitValue c) 0

def decimal (digits : List Char) : Nat :=
  ofDigits 10 digits

def isBlankChar (c : Char) : Bool :=
  let n := c.toNat
  (0x09 ≤ n && n ≤ 0x0D) || n == 0x20 || n == 0x85 || n == 0xA0 || n == 0x1680 ||
    (0x2000 ≤ n && n ≤ 0x200A) || n == 0x2028 || n == 0x2029 || n == 0x202F || n == 0x205F ||
    n == 0x3000

def isBlank (s : String) : Bool :=
  s.toList.all isBlankChar

end ModuleResolution.Text
