import ModuleResolution.Text
import ModuleResolution.Toml.Scanner

namespace ModuleResolution.Toml.Quoted

open Scanner

def codePoint (digits : Nat) : Scanner Char := do
  let n := Text.ofDigits 16 (← exactly Text.isHexDigit digits)
  if n.isValidChar then return Char.ofNat n else failure

def escape : Scanner Char := do
  char '\\'
  match ← satisfy fun _ => true with
  | 'b' => return '\x08'
  | 't' => return '\t'
  | 'n' => return '\n'
  | 'f' => return '\x0c'
  | 'r' => return '\r'
  | '"' => return '"'
  | '\\' => return '\\'
  | 'u' => codePoint 4
  | 'U' => codePoint 8
  | _ => failure

def basicChar : Scanner Char :=
  satisfy (fun c => isPrintable c && c != '"' && c != '\\') <|> escape

def literalChar : Scanner Char :=
  satisfy fun c => isPrintable c && c != '\''

def line (quote : Char) (content : Scanner Char) : Scanner String := do
  char quote
  let cs ← repeated content
  char quote
  return String.ofList cs

def continuation : Scanner (List Char) := do
  char '\\'
  blank
  newline
  discard <| repeated (discard (satisfy fun c => c == ' ' || c == '\t') <|> newline)
  return []

def innerQuotes (quote : Char) : Scanner (List Char) := do
  let quotes ← spanNonempty (· == quote)
  if quotes.length < 3 then return quotes else failure

def closingQuotes (quote : Char) : Scanner (List Char) := do
  let quotes ← span (· == quote)
  -- up to two quotes in front of the closing ones belong to the text
  if 3 ≤ quotes.length && quotes.length ≤ 5 then return quotes.drop 3 else failure

def lines (quote : Char) (content : Scanner (List Char)) : Scanner String := do
  token [quote, quote, quote]
  discard (optional newline)
  let parts ← repeated (content <|> (newline *> return ['\n']) <|> innerQuotes quote)
  let last ← closingQuotes quote
  return String.ofList (parts.flatten ++ last)

def basic : Scanner String := line '"' basicChar

def literal : Scanner String := line '\'' literalChar

def basicLines : Scanner String :=
  lines '"' (continuation <|> (return [← basicChar]))

def literalLines : Scanner String :=
  lines '\'' (return [← literalChar])

def string : Scanner String :=
  basicLines <|> basic <|> literalLines <|> literal

end ModuleResolution.Toml.Quoted
