import WorkbookPlan.Yaml.Gap

/-! Text in quotes. -/
namespace WorkbookPlan.Yaml

/-- The value of the digits in a base, if there is one digit at least and no other character. -/
def digits? (base : Nat) (cs : List Char) : Option Nat :=
  if cs.isEmpty then none
  else cs.foldlM (fun n c =>
    let d :=
      if c.isDigit then c.toNat - 48
      else if 'a' ≤ c ∧ c ≤ 'f' then c.toNat - 87
      else if 'A' ≤ c ∧ c ≤ 'F' then c.toNat - 55
      else base
    if d < base then some (n * base + d) else none) 0

namespace Quoted

def escapeChar? (c : Char) : Option Char :=
  match c with
  | '0' => some (Char.ofNat 0)
  | 'a' => some (Char.ofNat 7)
  | 'b' => some (Char.ofNat 8)
  | 't' => some '\t'
  | 'n' => some '\n'
  | 'v' => some (Char.ofNat 11)
  | 'f' => some (Char.ofNat 12)
  | 'r' => some '\r'
  | 'e' => some (Char.ofNat 27)
  | 'N' => some (Char.ofNat 0x85)
  | '_' => some (Char.ofNat 0xA0)
  | 'L' => some (Char.ofNat 0x2028)
  | 'P' => some (Char.ofNat 0x2029)
  | c => if c = ' ' ∨ c = '\t' ∨ c = '\x22' ∨ c = '/' ∨ c = '\\' then some c else none

def hexChar? (n : Nat) (cs : List Char) : Option Char :=
  let ds := cs.take n
  if ds.length < n then none
  else (digits? 16 ds).bind fun v =>
    if v < 0x110000 ∧ ¬ (0xD800 ≤ v ∧ v < 0xE000) then some (Char.ofNat v) else none

/-- The character of an escape behind its backslash, and how many characters spell it. -/
def readEscape? : List Char → Option (Char × Nat)
  | [] => none
  | 'x' :: cs => (hexChar? 2 cs).map (·, 3)
  | 'u' :: cs => (hexChar? 4 cs).map (·, 5)
  | 'U' :: cs => (hexChar? 8 cs).map (·, 9)
  | c :: _ => (escapeChar? c).map (·, 1)

/-- Characters up to a gap, an escaped line break or the closing quote, put behind text that is kept
backwards. Two single quotes stand for one. -/
def readWord? (quote : Char) : Nat → List Char → Cursor → Option (List Char × Gap × Cursor)
  | 0, _, _ => none
  | fuel + 1, text, c =>
    match c.rest with
    | [] => some (text, .blanks [], c)
    | d :: r =>
      if isGap d || isBreak d then some (text, .blanks [], c)
      else if d = quote then
        if quote = '\x27' ∧ r.head? = some quote then readWord? quote fuel (d :: text) (c.skip 2)
        else some (text, .blanks [], c)
      else if quote = '\x22' ∧ d = '\\' then
        match (c.move [d] r).lineBreak? with
        | some (_, c) => some (text, .breaks none [], c)
        | none => do
          let (e, n) ← readEscape? r
          readWord? quote fuel (e :: text) (c.skip (n + 1))
      else readWord? quote fuel (d :: text) (c.move [d] r)

/-- The rest of a text behind its first quote, with the fuel of the text's length. It must not run
into a mark of a document's start or end. -/
def readFrom? (quote : Char) : Nat → List Char → Cursor → Option (List Char × Cursor)
  | 0, _, _ => none
  | fuel + 1, text, c =>
    if c.atDocumentMark || c.rest.isEmpty then none
    else do
      let (text, gap, c) ← readWord? quote (fuel + 1) text c
      match c.rest with
      | d :: r =>
        if d = quote then some (text, c.move [d] r)
        else
          let (gap, c) ← gap.read? 0 (fuel + 1) c
          readFrom? quote fuel (gap.onto text) c
      | [] => none

def read? (quote : Char) (fuel : Nat) (c : Cursor) : Option (List Char × Cursor) :=
  (readFrom? quote fuel [] (c.skip 1)).map fun (text, c) => (text.reverse, c)

end Quoted

end WorkbookPlan.Yaml
