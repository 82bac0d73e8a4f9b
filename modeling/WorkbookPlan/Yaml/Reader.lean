import WorkbookPlan.Yaml.Layout

/-! From the tokens of a text to the one document in it. -/
namespace WorkbookPlan.Yaml

/-- The tokens still to be read, the anchors seen with their numbers, how many they were, and the
nodes that have one. -/
structure Reading where
  tokens : List Token
  numbers : List (List Char × Nat) := []
  places : Nat := 0
  anchored : List (Nat × Nat × Yaml) := []
  deriving Inhabited

abbrev Reads := StateT Reading Option

namespace Reads

def next? : Reads (Option Token) :=
  return (← get).tokens.head?

def skip : Reads Unit :=
  modify fun r => { r with tokens := r.tokens.tail }

def followedBy (ts : List Token) : Reads Bool :=
  return (← next?).any (ts.contains ·)

def expect (t : Token) : Reads Unit := do
  if (← next?) == some t then skip else failure

/-- The number of an anchor: how many different names there have been before. -/
def number? (name : List Char) : Reads Nat := do
  match (← get).numbers.lookup name with
  | some n => return n
  | none => failure

def enter (name : List Char) : Reads (Nat × Nat) :=
  modifyGet fun r =>
    let n := r.numbers.length
    ((n, r.places),
      { r with
        numbers := (name, n) :: r.numbers.filter (·.1 != name)
        places := r.places + 1 })

def record (seat : Option (Nat × Nat)) (y : Yaml) : Reads Unit :=
  match seat with
  | some (n, place) => modify fun r => { r with anchored := (n, place, y) :: r.anchored }
  | none => pure ()

def tagOf? (handles : List (List Char × List Char)) (handle text : List Char) : Option String :=
  if handle.isEmpty then some (String.ofList text)
  else (handles.lookup handle).map fun lead => String.ofList (lead ++ text)

/-- An anchor and a tag in front of a node, in either order. -/
def properties (handles : List (List Char × List Char)) :
    Reads (Option (List Char) × Option String) := do
  let anchor? : Reads (Option (List Char)) := do
    match ← next? with
    | some (.anchor name) => skip; return some name
    | _ => return none
  let tag? : Reads (Option String) := do
    match ← next? with
    | some (.tag handle text) => skip; return some (← tagOf? handles handle text)
    | _ => return none
  match ← anchor? with
  | some name => return (some name, ← tag?)
  | none =>
    let tag ← tag?
    return (← anchor?, tag)

mutual

/-- A node, with the fuel of the number of tokens. Only where `block` is set may it be laid out by
indentation, and only in a block's map may a list stand without being indented. -/
def node (handles : List (List Char × List Char)) : Nat → (block inMap : Bool) → Reads Yaml
  | 0, _, _ => failure
  | fuel + 1, block, inMap => do
    match ← next? with
    | some (.aliasOf name) => skip; return .aliasOf (← number? name)
    | _ => do
      let (anchor, tag) ← properties handles
      let seat ← anchor.mapM enter
      let t ← next?
      let y ←
        match t, block with
        | some (.scalar style text), _ => skip; pure (.scalar style tag text)
        | some .openList, _ => skip; .list <$> flowItems handles fuel true []
        | some .openMap, _ => skip; .map <$> flowEntries handles fuel true []
        | some .openBlockList, true => skip; .list <$> blockItems handles fuel []
        | some .openBlockMap, true => skip; .map <$> blockEntries handles fuel []
        | _, _ =>
          if inMap && t == some .dash then .list <$> looseItems handles fuel []
          else if anchor.isNone && tag.isNone then failure
          else pure (.scalar .plain tag [])
      record seat y
      return y

def nodeUnless (handles : List (List Char × List Char)) :
    Nat → List Token → (block inMap : Bool) → Reads Yaml
  | 0, _, _, _ => failure
  | fuel + 1, ends, block, inMap => do
    if ← followedBy ends then return nothing else node handles fuel block inMap

/-- A node behind a token, or none if the token does not stand here. -/
def nodeBehind (handles : List (List Char × List Char)) :
    Nat → Token → List Token → (block inMap : Bool) → Reads Yaml
  | 0, _, _, _, _ => failure
  | fuel + 1, t, ends, block, inMap => do
    if (← next?) == some t then
      skip
      nodeUnless handles fuel ends block inMap
    else return nothing

def blockItems (handles : List (List Char × List Char)) : Nat → List Yaml → Reads (List Yaml)
  | 0, _ => failure
  | fuel + 1, items => do
    if ← followedBy [.closeBlock] then
      skip
      return items.reverse
    else
      expect .dash
      let y ← nodeUnless handles fuel [.dash, .closeBlock] true false
      blockItems handles fuel (y :: items)

/-- The items of a list that is not indented under its key. -/
def looseItems (handles : List (List Char × List Char)) : Nat → List Yaml → Reads (List Yaml)
  | 0, _ => failure
  | fuel + 1, items => do
    if ← followedBy [.dash] then
      skip
      let y ← nodeUnless handles fuel [.dash, .key, .value, .closeBlock] true false
      looseItems handles fuel (y :: items)
    else return items.reverse

def blockEntries (handles : List (List Char × List Char)) :
    Nat → List (Yaml × Yaml) → Reads (List (Yaml × Yaml))
  | 0, _ => failure
  | fuel + 1, entries => do
    if ← followedBy [.closeBlock] then
      skip
      return entries.reverse
    else
      expect .key
      let k ← nodeUnless handles fuel [.key, .value, .closeBlock] true true
      let v ← nodeBehind handles fuel .value [.key, .value, .closeBlock] true true
      blockEntries handles fuel ((k, v) :: entries)

/-- The items of a list in brackets; a comma may stand behind the last one. An item may be a map of
one entry without braces. -/
def flowItems (handles : List (List Char × List Char)) :
    Nat → (first : Bool) → List Yaml → Reads (List Yaml)
  | 0, _, _ => failure
  | fuel + 1, first, items => do
    if !first && !(← followedBy [.closeList]) then expect .comma
    match ← next? with
    | some .closeList => skip; return items.reverse
    | some .key =>
      skip
      let ends := [.comma, .closeList]
      -- A key that is missing takes the sign behind its mark with it.
      let k ←
        if ← followedBy (.value :: ends) then skip; pure nothing
        else node handles fuel false false
      let v ← nodeBehind handles fuel .value ends false false
      flowItems handles fuel false (.map [(k, v)] :: items)
    | _ =>
      let y ← node handles fuel false false
      flowItems handles fuel false (y :: items)

/-- The entries of a map in braces; a comma may stand behind the last one. A key may stand without a
value. -/
def flowEntries (handles : List (List Char × List Char)) :
    Nat → (first : Bool) → List (Yaml × Yaml) → Reads (List (Yaml × Yaml))
  | 0, _, _ => failure
  | fuel + 1, first, entries => do
    if !first && !(← followedBy [.closeMap]) then expect .comma
    match ← next? with
    | some .closeMap => skip; return entries.reverse
    | some .key =>
      skip
      let ends := [.comma, .closeMap]
      let k ← nodeUnless handles fuel (.value :: ends) false false
      let v ← nodeBehind handles fuel .value ends false false
      flowEntries handles fuel false ((k, v) :: entries)
    | _ =>
      let k ← node handles fuel false false
      flowEntries handles fuel false ((k, nothing) :: entries)

end

end Reads

/-- The handles that a document's directives declare. A handle is declared once, and the version,
which is 1.1 or 1.2, is given once. -/
def handlesOf? (versionGiven : Bool) (handles : List (List Char × List Char)) :
    List Directive → Option (List (List Char × List Char))
  | [] => some (handles ++ [(['!'], ['!']), (['!', '!'], (coreTag "").toList)])
  | .version major minor :: ds =>
    if versionGiven || major != 1 || !(minor == 1 || minor == 2) then none
    else handlesOf? true handles ds
  | .tag handle lead :: ds =>
    if (handles.lookup handle).isSome then none
    else handlesOf? versionGiven (handles ++ [(handle, lead)]) ds

def splitDirectives : List Token → List Directive × List Token
  | .directive d :: ts =>
    let (ds, ts) := splitDirectives ts
    (d :: ds, ts)
  | ts => ([], ts)

/-- Nothing of a document follows: what stands here ends it or starts another one. -/
def endsDocument : List Token → Bool
  | [] => true
  | .directive _ :: _ => true
  | t :: _ => t == .documentStart || t == .documentEnd

/-- The document that tokens make, if they make one and no more. Directives need a mark of its
start. -/
def Document.ofTokens? (tokens : List Token) : Option Document := do
  let (directives, ts) := splitDirectives tokens
  let handles ← handlesOf? false [] directives
  let read (ts : List Token) : Option (Yaml × Reading) :=
    (Reads.node handles (4 * ts.length + 4) true false).run { tokens := ts }
  let (root, r) ← match ts with
    | .documentStart :: ts => if endsDocument ts then some (nothing, { tokens := ts }) else read ts
    | [] => if directives.isEmpty then some (nothing, { tokens := [] }) else none
    | ts => if directives.isEmpty then read ts else none
  if (r.tokens.dropWhile (· == .documentEnd)).isEmpty then some ⟨root, r.anchored⟩ else none

def Document.read? (s : String) : Option Document :=
  (Token.ofChars? s.toList).bind ofTokens?

end WorkbookPlan.Yaml
