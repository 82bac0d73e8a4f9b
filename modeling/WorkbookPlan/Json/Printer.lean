import WorkbookPlan.Json.Basic
import WorkbookPlan.Decimal.Shortest

/-! The compact text of a value: no blanks, keys in their order, text beyond ASCII as it is. -/
namespace WorkbookPlan.Json

def hexDigit (n : Nat) : Char :=
  if n < 10 then Char.ofNat (48 + n) else Char.ofNat (87 + n)

def escaped (c : Char) : List Char :=
  match c.toNat with
  | 0x22 => ['\\', c]
  | 0x5C => ['\\', c]
  | 0x08 => ['\\', 'b']
  | 0x09 => ['\\', 't']
  | 0x0A => ['\\', 'n']
  | 0x0C => ['\\', 'f']
  | 0x0D => ['\\', 'r']
  | n => if n < 0x20 then ['\\', 'u', '0', '0', hexDigit (n / 16), hexDigit (n % 16)] else [c]

def quoted (s : String) : List Char :=
  '\x22' :: s.toList.flatMap escaped ++ ['\x22']

/-- An infinity or a NaN has no text of its own. -/
def floatChars (x : Decimal.Binary64) : List Char :=
  if x.isFinite then x.text else "null".toList

mutual

def chars : Json → List Char
  | null => "null".toList
  | bool true => "true".toList
  | bool false => "false".toList
  | int i => (toString i).toList
  | float x => floatChars x
  | str s => quoted s
  | arr items => '[' :: itemChars items ++ [']']
  | obj fields => '\x7b' :: fieldChars fields ++ ['\x7d']

def itemChars : List Json → List Char
  | [] => []
  | [j] => j.chars
  | j :: js => j.chars ++ ',' :: itemChars js

def fieldChars : List (String × Json) → List Char
  | [] => []
  | [(k, j)] => quoted k ++ ':' :: j.chars
  | (k, j) :: fs => quoted k ++ ':' :: j.chars ++ ',' :: fieldChars fs

end

def text (j : Json) : String :=
  String.ofList j.chars

end WorkbookPlan.Json
