/-! Column letters: bijective base 26, A to XFD. -/
namespace WorkbookPlan.Sheet

def maxColumns : Nat := 16384

def maxRows : Nat := 1048576

inductive ReferenceError where
  | empty
  | invalidColumn (text : String)
  | invalidRow (text : String)
  | malformed (text : String)
  deriving DecidableEq, Repr

def ReferenceError.message : ReferenceError → String
  | empty => "Empty reference"
  | invalidColumn text => "Invalid column '" ++ text ++ "'"
  | invalidRow text => "Invalid row in '" ++ text ++ "'"
  | malformed text => "Malformed reference '" ++ text ++ "'"

namespace Column

/-- The letters of a column number counted from one; zero has none. -/
def letters (n : Nat) : List Char :=
  if _h : n = 0 then []
  else letters ((n - 1) / 26) ++ [Char.ofNat (65 + (n - 1) % 26)]
termination_by n
decreasing_by omega

/-- The name of a column counted from zero. Its number, counted from one, has 32 bits. -/
def name (col : Nat) : String :=
  String.ofList (letters ((col + 1) % UInt32.size))

/-- A is 1 and Z is 26, in either letter case. -/
def letterValue? (c : Char) : Option Nat :=
  if c.isAlpha then some (c.toUpper.toNat - 64) else none

/-- The number of the letters, counted from one, as long as every leading part of them stays within
the sheet. -/
def number? (cs : List Char) : Option Nat :=
  cs.foldlM (fun n c => do
    let v ← letterValue? c
    if n * 26 + v ≤ maxColumns then some (n * 26 + v) else none) 0

def read (cs : List Char) : Except ReferenceError Nat :=
  match cs, number? cs with
  | _ :: _, some n => .ok (n - 1)
  | _, _ => .error (.invalidColumn (String.ofList cs))

def ofName (s : String) : Except ReferenceError Nat :=
  read s.toList

@[simp] theorem letters_zero : letters 0 = [] := by
  rw [letters, dif_pos rfl]

theorem letters_succ (n : Nat) :
    letters (n + 1) = letters (n / 26) ++ [Char.ofNat (65 + n % 26)] := by
  rw [letters, dif_neg (Nat.succ_ne_zero n), Nat.add_sub_cancel]

end Column

end WorkbookPlan.Sheet
