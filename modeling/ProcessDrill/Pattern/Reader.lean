import ProcessDrill.Pattern.Room
import ProcessDrill.Text.Blank
import ProcessDrill.Text.Letter
/-!
# Reading patterns

A pattern is written in the usual way: alternatives divided by `|`, groups in parentheses, sets in
brackets, repetitions behind what they repeat, and escapes behind a backslash. Flags in a group, or
standing alone, hold from where they stand to the end of the group.

No tables of the properties of characters are at hand for matching. So all that asks for them is
refused: named properties, and, as long as the flag `u` is on, the classes `\d`, `\s` and `\w`,
characters in either case, and word boundaries that are not repeated no times. With the flag `u` off
these stand for ASCII, and what could then match half a character is refused in turn. Main
definition: `ofString?`.
-/

namespace ProcessDrill.Pattern

set_option autoImplicit false

/-! ## What is left to read -/

structure Flags where
  ignoreCase : Bool := false
  multiLine : Bool := false
  dotAll : Bool := false
  returns : Bool := false
  unicode : Bool := true
  verbose : Bool := false
  deriving DecidableEq, Repr

structure Reading where
  rest : List Char
  flags : Flags := {}
  names : List (List Char) := []
  groups : Nat := 0
  deriving DecidableEq, Repr

abbrev Reader : Type → Type :=
  StateT Reading Option

def peek : Reader (Option Char) := do
  pure (← get).rest.head?

def advance (n : Nat) : Reader Unit :=
  modify fun r => { r with rest := r.rest.drop n }

def goesOn (text : String) : Reader Bool := do
  pure (text.toList.isPrefixOf (← get).rest)

def accept (text : String) : Reader Bool := do
  let hit ← goesOn text
  if hit then advance text.toList.length
  pure hit

/-- What is left behind white space and remarks, which begin with `#` and end with their line. -/
def dropRemarks (inRemark : Bool) : List Char → List Char
  | [] => []
  | c :: rest =>
    if inRemark then dropRemarks (c != '\n') rest
    else if Text.isSpace c then dropRemarks false rest
    else if c = '#' then dropRemarks true rest
    else c :: rest

def skip : Reader Unit :=
  modify fun r => if r.flags.verbose then { r with rest := dropRemarks false r.rest } else r

def step : Reader Unit := do
  advance 1
  skip

def char : Reader Char := do
  match ← peek with
  | some c => pure c
  | none => failure

def expect (c : Char) : Reader Unit := do
  if (← char) = c then advance 1 else failure

/-! ## Numbers -/

def hexValue? (c : Char) : Option Nat :=
  if '0' ≤ c ∧ c ≤ '9' then some (c.toNat - '0'.toNat)
  else if 'a' ≤ c ∧ c ≤ 'f' then some (c.toNat - 'a'.toNat + 10)
  else if 'A' ≤ c ∧ c ≤ 'F' then some (c.toNat - 'A'.toNat + 10)
  else none

def charOf? (n : Nat) : Option Char :=
  if h : n.isValidChar then some (Char.ofNatAux n h) else none

def hexDigits : Nat → Nat → Reader Nat
  | 0, value => pure value
  | n + 1, value => do
    let digit ← hexValue? (← char)
    step
    hexDigits n (value * 16 + digit)

def hexBraced : Nat → Option Nat → Reader Nat
  | 0, _ => failure
  | fuel + 1, value? => do
    let c ← char
    if c = '\x7d' then
      step
      value?
    else
      let digit ← hexValue? c
      step
      hexBraced fuel (some (value?.getD 0 * 16 + digit))

/-- A character by its number; the mark `x`, `u` or `U` stands first. The flag tells of a number of
two digits, which may mean a byte. -/
def hexChar : Reader (Char × Bool) := do
  let mark ← char
  step
  if (← peek) = some '\x7b' then
    step
    let c ← charOf? (← hexBraced ((← get).rest.length + 1) none)
    pure (c, false)
  else
    let count := if mark = 'x' then 2 else if mark = 'u' then 4 else 8
    let c ← charOf? (← hexDigits count 0)
    pure (c, mark == 'x')

def skipSpaces : Reader Unit :=
  modify fun r => { r with rest := r.rest.dropWhile Text.isSpace }

def decimalDigits : Nat → Option Nat → Reader (Option Nat)
  | 0, value? => pure value?
  | fuel + 1, value? => do
    match ← peek with
    | some c =>
      if '0' ≤ c ∧ c ≤ '9' then
        step
        decimalDigits fuel (some (value?.getD 0 * 10 + (c.toNat - '0'.toNat)))
      else pure value?
    | none => pure value?

/-- A decimal number of 32 bits with white space around it; none if there are no digits. -/
def decimal : Reader (Option Nat) := do
  skipSpaces
  let value? ← decimalDigits (← get).rest.length none
  skipSpaces
  skip
  match value? with
  | some value => if value < 4294967296 then pure value? else failure
  | none => pure none

/-! ## Single signs -/

inductive Sign where
  /-- A character; the flag tells of one that may mean a byte. -/
  | literal (c : Char) (byte : Bool)
  | members (set : CharSet) (negated : Bool)
  | look (look : Look)

def isMeta (c : Char) : Bool :=
  "\\.+*?()|[]\x7b\x7d^$#&-~".toList.contains c

def isEscapable (c : Char) : Bool :=
  c.toNat < 0x80 && !c.isAlphanum && c != '<' && c != '>'

def boundaryName : Nat → List Char → Reader (List Char)
  | 0, name => pure name
  | fuel + 1, name => do
    match ← peek with
    | some c =>
      if c.isAlpha || c = '-' then
        step
        boundaryName fuel (name ++ [c])
      else pure name
    | none => pure name

/-- A word boundary behind its backslash and letter. A name in braces may follow; braces that hold
no name are left for a repetition. -/
def boundary : Reader Look := do
  if (← peek) = some '\x7b' then
    let start ← get
    step
    let c ← char
    if c.isAlpha || c = '-' then
      let name ← boundaryName (← get).rest.length []
      expect '\x7d'
      match String.ofList name with
      | "start" => pure .wordStart
      | "end" => pure .wordEnd
      | "start-half" => pure .wordStartHalf
      | "end-half" => pure .wordEndHalf
      | _ => failure
    else
      set start
      pure .boundary
  else pure .boundary

def escape : Reader Sign := do
  advance 1
  let c ← char
  match c with
  | 'x' | 'u' | 'U' =>
    let (c, byte) ← hexChar
    pure (.literal c byte)
  | 'd' => advance 1; pure (.members CharSet.digit false)
  | 's' => advance 1; pure (.members CharSet.space false)
  | 'w' => advance 1; pure (.members CharSet.word false)
  | 'D' => advance 1; pure (.members CharSet.digit true)
  | 'S' => advance 1; pure (.members CharSet.space true)
  | 'W' => advance 1; pure (.members CharSet.word true)
  | 'a' => advance 1; pure (.literal '\x07' false)
  | 'f' => advance 1; pure (.literal '\x0c' false)
  | 't' => advance 1; pure (.literal '\t' false)
  | 'n' => advance 1; pure (.literal '\n' false)
  | 'r' => advance 1; pure (.literal '\r' false)
  | 'v' => advance 1; pure (.literal '\x0b' false)
  | 'A' => advance 1; pure (.look .textStart)
  | 'z' => advance 1; pure (.look .textEnd)
  | 'b' => advance 1; pure (.look (← boundary))
  | 'B' => advance 1; pure (.look .noBoundary)
  | '<' => advance 1; pure (.look .wordStart)
  | '>' => advance 1; pure (.look .wordEnd)
  | _ =>
    if isMeta c || isEscapable c then
      advance 1
      pure (.literal c false)
    else failure

/-! ## Sets under flags -/

def caseKnown : Reader Unit := do
  let flags := (← get).flags
  if flags.unicode && flags.ignoreCase then failure

/-- A set as the flags have it, or all characters but these. Characters have got past `caseKnown`
before. -/
def flagged (negated : Bool) (set : CharSet) : Reader CharSet := do
  let flags := (← get).flags
  if flags.unicode then pure (if negated then set.compl else set)
  else if negated then failure
  else pure (if flags.ignoreCase then set.foldCase else set)

def classSet (set : CharSet) (negated : Bool) : Reader CharSet := do
  if (← get).flags.unicode || negated then failure else pure set

def setLiteral (c : Char) : Reader Char := do
  if (← get).flags.unicode || c.toNat < 0x80 then pure c else failure

def namedSet? : Reader (Option (CharSet × Bool)) := do
  let start ← get
  let name := (start.rest.drop 2).takeWhile (· != ':')
  let after := (start.rest.drop 2).dropWhile (· != ':')
  if start.rest.take 2 = ['[', ':'] && after.take 2 = [':', ']'] then
    let (negated, name) := match name with
      | '^' :: name => (true, name)
      | name => (false, name)
    match CharSet.named? (String.ofList name) with
    | some set =>
      modify fun r => { r with rest := after.drop 2 }
      pure (some (set, negated))
    | none => pure none
  else pure none

def setSign : Reader Sign := do
  let c ← char
  if c = '\\' then escape
  else
    advance 1
    pure (.literal c false)

def bound : Sign → Reader Char
  | .literal c _ => setLiteral c
  | _ => failure

/-- The next character but one, with white space left out between where it is left out. The text of a
remark counts as characters here. -/
def peekPast : Reader (Option Char) := do
  let r ← get
  let rest := r.rest.drop 1
  if r.flags.verbose then
    match rest.dropWhile Text.isSpace with
    | '#' :: rest => pure (rest.dropWhile Text.isSpace).head?
    | rest => pure rest.head?
  else pure rest.head?

def setRange : Reader CharSet := do
  caseKnown
  let first ← setSign
  skip
  let c ← char
  let next ← peekPast
  if c ≠ '-' || next = some ']' || next = some '-' then
    match first with
    | .literal c _ => pure (CharSet.single (← setLiteral c))
    | .members set negated => classSet set negated
    | .look _ => failure
  else
    step
    let last ← setSign
    let lowest ← bound first
    let highest ← bound last
    if lowest ≤ highest then pure [(lowest.toNat, highest.toNat)] else failure

inductive SetOperation where
  | inter | difference | symmetricDifference

/-- A set together with how deeply its parts are nested. -/
abbrev DeepSet : Type :=
  CharSet × Nat

def unite (parts : List DeepSet) : DeepSet :=
  match parts with
  | [part] => part
  | [] => ([], 0)
  | parts => (parts.flatMap (·.1), parts.foldl (fun depth part => max depth part.2) 0 + 1)

def join (left : Option (SetOperation × DeepSet)) (right : DeepSet) : Reader DeepSet :=
  match left with
  | none => pure right
  | some (operation, left) => do
    let a ← flagged false left.1
    let b ← flagged false right.1
    let set := match operation with
      | .inter => CharSet.inter a b
      | .difference => CharSet.difference a b
      | .symmetricDifference => CharSet.symmetricDifference a b
    pure (set, max left.2 right.2 + 1)

def leadingDashes : Nat → List DeepSet → Reader (List DeepSet)
  | 0, parts => pure parts
  | fuel + 1, parts => do
    if (← char) = '-' then
      caseKnown
      step
      leadingDashes fuel (parts ++ [(CharSet.single '-', 0)])
    else pure parts

/-- The beginning of a set: its bracket, whether it is negated, and literals that may stand only
there. -/
def openSet : Reader (Bool × List DeepSet) := do
  step
  let negated := (← char) = '^'
  if negated then step
  let parts ← leadingDashes ((← get).rest.length + 1) []
  if parts.isEmpty && (← char) = ']' then
    caseKnown
    step
    discard char
    pure (negated, [(CharSet.single ']', 0)])
  else pure (negated, parts)

def setBody : Nat → Option (SetOperation × DeepSet) → List DeepSet → Reader DeepSet
  | 0, _, _ => failure
  | fuel + 1, left, parts => do
    skip
    let c ← char
    if c = '[' then
      match ← namedSet? with
      | some (set, negated) =>
        caseKnown
        setBody fuel left (parts ++ [(← flagged negated set, 0)])
      | none =>
        let (negated, inner) ← openSet
        let set ← setBody fuel none inner
        setBody fuel left (parts ++ [(← flagged negated set.1, set.2 + 1)])
    else if c = ']' then
      advance 1
      join left (unite parts)
    else if ← accept "&&" then
      setBody fuel (some (.inter, ← join left (unite parts))) []
    else if ← accept "--" then
      setBody fuel (some (.difference, ← join left (unite parts))) []
    else if ← accept "~~" then
      setBody fuel (some (.symmetricDifference, ← join left (unite parts))) []
    else
      setBody fuel left (parts ++ [(← setRange, 0)])

/-! ## Parts of a pattern -/

/-- A part together with how deeply it is nested, or a change of flags that holds from here on. -/
inductive Part where
  | expr (e : Expr) (depth : Nat)
  | change

def Part.ofSet (set : CharSet) : Part :=
  .expr (.char set.normal) 0

/-- A literal outside of sets. Of characters beyond ASCII both cases are the same where the flag `u` is
off, and unknown where it is on. -/
def literal (c : Char) (byte : Bool) : Reader Part := do
  caseKnown
  let flags := (← get).flags
  if flags.unicode then pure (.ofSet (CharSet.single c))
  else if byte && 0x80 ≤ c.toNat then failure
  else if flags.ignoreCase then pure (.ofSet (CharSet.single c).foldCase)
  else pure (.ofSet (CharSet.single c))

/-- A question about words: without tables it can be answered for ASCII alone. That it has no answer
makes no difference where it is repeated no times. -/
def lookAt (look : Look) : Reader Part := do
  if look = .textStart || look = .textEnd || !(← get).flags.unicode then pure (.expr (.look look) 0)
  else pure (.expr .unanswered 0)

def dot : Reader Part := do
  let flags := (← get).flags
  if !flags.unicode then failure
  else if flags.dotAll then pure (.ofSet CharSet.every)
  else if flags.returns then
    pure (.ofSet (CharSet.compl (CharSet.single '\n' ++ CharSet.single '\r')))
  else pure (.ofSet (CharSet.compl (CharSet.single '\n')))

def primitive : Reader Part := do
  let c ← char
  let flags := (← get).flags
  match c with
  | '\\' =>
    match ← escape with
    | .literal c byte => literal c byte
    | .members set negated => pure (.ofSet (← classSet set negated))
    | .look look => lookAt look
  | '.' =>
    advance 1
    dot
  | '^' =>
    advance 1
    let look : Look := if !flags.multiLine then .textStart
      else if flags.returns then .returnLineStart else .lineStart
    pure (.expr (.look look) 0)
  | '$' =>
    advance 1
    let look : Look := if !flags.multiLine then .textEnd
      else if flags.returns then .returnLineEnd else .lineEnd
    pure (.expr (.look look) 0)
  | c =>
    advance 1
    literal c false

def maxDepth : Nat := 250

/-- The parts of an alternative, the last one first, as one. -/
def concat (parts : List Part) : Expr × Nat :=
  let exprs := parts.reverse.filterMap fun part =>
    match part with
    | .expr e _ => some e
    | .change => none
  let depth := parts.foldl (fun depth part =>
    match part with
    | .expr _ d => max depth d
    | .change => depth) 0
  (.concat exprs, if parts.length < 2 then depth else depth + 1)

def alternatives (branches : List (Expr × Nat)) : Expr × Nat :=
  match branches with
  | [branch] => branch
  | branches =>
    (.oneOf maxDepth (branches.reverse.map (·.1)),
      branches.foldl (fun depth branch => max depth branch.2) 0 + 1)

def lazyMark : Reader Unit := do
  if (← peek) = some '?' then advance 1

def repeated (least : Nat) (most : Option Nat) : List Part → Reader (List Part)
  | .expr e depth :: parts => pure (.expr (e.repeated least most) (depth + 1) :: parts)
  | _ => failure

def counts : Reader (Nat × Option Nat) := do
  step
  let first ← decimal
  let bounds ← if (← char) = ',' then do
      step
      let least ← first
      if (← char) = '\x7d' then pure (least, none)
      else
        let most ← (← decimal)
        pure (least, some most)
    else do
      let count ← first
      pure (count, some count)
  if (← char) = '\x7d' then step else failure
  match bounds with
  | (least, some most) => if least ≤ most then pure bounds else failure
  | _ => pure bounds

/-! ## Groups -/

def setFlag (flags : Flags) (letter : Char) (on : Bool) : Option Flags :=
  match letter with
  | 'i' => some { flags with ignoreCase := on }
  | 'm' => some { flags with multiLine := on }
  | 's' => some { flags with dotAll := on }
  | 'R' => some { flags with returns := on }
  | 'u' => some { flags with unicode := on }
  | 'x' => some { flags with verbose := on }
  | 'U' => some flags
  | _ => none

/-- Flags up to a colon or a closing parenthesis, which is passed and tells whether a group follows.
No flag may stand twice, one minus sign may, and not at the end. -/
def flagLetters : Nat → Flags → List Char → Reader (Flags × Bool × Bool)
  | 0, _, _ => failure
  | fuel + 1, flags, seen => do
    let c ← char
    if c = ':' || c = ')' then
      advance 1
      if seen.head? = some '-' then failure else pure (flags, c = ':', !seen.isEmpty)
    else if seen.contains c then failure
    else if c = '-' then
      advance 1
      flagLetters fuel flags (c :: seen)
    else
      let flags ← setFlag flags c (!seen.contains '-')
      advance 1
      flagLetters fuel flags (c :: seen)

def isNameChar (first : Bool) (c : Char) : Bool :=
  c = '_' || Text.isLetter c || (!first && (Text.isNumber c || c = '.' || c = '[' || c = ']'))

def groupName : Reader Unit := do
  let r ← get
  let name := r.rest.takeWhile (· != '>')
  match name with
  | [] => failure
  | c :: more =>
    if isNameChar true c && more.all (isNameChar false) && !r.names.contains name then
      set { r with rest := r.rest.drop name.length, names := name :: r.names }
      expect '>'
    else failure

inductive Opening where
  | group (flags : Flags) (number : Option Nat)
  /-- A change of flags up to the end of the group around it. -/
  | change (flags : Flags)

def nextNumber : Reader Nat :=
  modifyGet fun r => (r.groups + 1, { r with groups := r.groups + 1 })

def openGroup : Reader Opening := do
  advance 1
  skip
  let flags := (← get).flags
  if (← goesOn "?=") || (← goesOn "?!") || (← goesOn "?<=") || (← goesOn "?<!") then failure
  else if (← accept "?P<") || (← accept "?<") then
    groupName
    pure (.group flags (some (← nextNumber)))
  else if ← accept "?" then
    let (flags, isGroup, changed) ← flagLetters ((← get).rest.length + 1) flags []
    if isGroup then pure (.group flags none)
    else if changed then pure (.change flags)
    else failure
  else pure (.group flags (some (← nextNumber)))

/-- Alternatives up to the end of the group or of the pattern. `branches` are those that are done,
and `parts` the parts of the present one, the last one first. -/
def body : Nat → List (Expr × Nat) → List Part → Reader (Expr × Nat)
  | 0, _, _ => failure
  | fuel + 1, branches, parts => do
    skip
    match ← peek with
    | none => pure (alternatives (concat parts :: branches))
    | some ')' => pure (alternatives (concat parts :: branches))
    | some '|' =>
      advance 1
      body fuel (concat parts :: branches) []
    | some '(' =>
      let outer := (← get).flags
      match ← openGroup with
      | .change flags =>
        modify fun r => { r with flags }
        body fuel branches (.change :: parts)
      | .group flags number =>
        modify fun r => { r with flags }
        let (e, depth) ← body fuel [] []
        expect ')'
        modify fun r => { r with flags := outer }
        let e := match number with
          | some number => .group number e
          | none => e
        body fuel branches (.expr e (depth + 1) :: parts)
    | some '[' =>
      let (negated, inner) ← openSet
      let (set, depth) ← setBody fuel none inner
      let set ← flagged negated set
      body fuel branches (.expr (.char set.normal) (depth + 1) :: parts)
    | some '?' =>
      advance 1
      lazyMark
      body fuel branches (← repeated 0 (some 1) parts)
    | some '*' =>
      advance 1
      lazyMark
      body fuel branches (← repeated 0 none parts)
    | some '+' =>
      advance 1
      lazyMark
      body fuel branches (← repeated 1 none parts)
    | some '\x7b' =>
      let (least, most) ← counts
      lazyMark
      body fuel branches (← repeated least most parts)
    | some _ =>
      let part ← primitive
      body fuel branches (part :: parts)

/-! ## Whole patterns -/

/-- The pattern that a text describes, if it is well formed, neither too deep nor too large, and not
refused. -/
def ofString? (text : String) : Option Expr := do
  let ((e, depth), r) ← (body (text.toList.length + 1) [] []).run { rest := text.toList }
  if r.rest.isEmpty && depth ≤ maxDepth && e.isAnswered && e.fits then some e else none

end ProcessDrill.Pattern
