import ProcessDrill.Pattern.CharSet
/-!
# Patterns

A pattern describes pieces of text. `Expr.reach` says where in a text a piece may end that begins at
marked places; `Expr.occursIn` says whether a text has a piece that the pattern describes. The places
of a text are the gaps between its characters, both ends included. `Expr.concat`, `Expr.oneOf` and
`Expr.repeated` build patterns in a simple form.
-/

namespace ProcessDrill.Pattern

set_option autoImplicit false

inductive Look where
  | textStart
  | textEnd
  | lineStart
  | lineEnd
  | returnLineStart
  | returnLineEnd
  | boundary
  | noBoundary
  | wordStart
  | wordEnd
  | wordStartHalf
  | wordEndHalf
  deriving DecidableEq, Repr

inductive Expr where
  | empty
  | char (set : CharSet)
  | look (look : Look)
  | unanswered
  | seq (a b : Expr)
  | alt (a b : Expr)
  | group (number : Nat) (a : Expr)
  | times (a : Expr) (least : Nat) (most : Option Nat)
  deriving DecidableEq, Repr

/-- A gap: the characters before and behind it. -/
structure Gap where
  before : Option Char
  behind : Option Char
  deriving DecidableEq, Repr

def isWord : Option Char → Bool
  | some c => CharSet.word.contains c
  | none => false

def Look.holds (look : Look) (gap : Gap) : Bool :=
  match look with
  | textStart => gap.before.isNone
  | textEnd => gap.behind.isNone
  | lineStart => gap.before.isNone || gap.before == some '\n'
  | lineEnd => gap.behind.isNone || gap.behind == some '\n'
  | returnLineStart =>
    gap.before.isNone || gap.before == some '\n' ||
      (gap.before == some '\r' && gap.behind != some '\n')
  | returnLineEnd =>
    gap.behind.isNone || gap.behind == some '\r' ||
      (gap.behind == some '\n' && gap.before != some '\r')
  | boundary => isWord gap.before != isWord gap.behind
  | noBoundary => isWord gap.before == isWord gap.behind
  | wordStart => !isWord gap.before && isWord gap.behind
  | wordEnd => isWord gap.before && !isWord gap.behind
  | wordStartHalf => !isWord gap.before
  | wordEndHalf => !isWord gap.behind

def gaps (before : Option Char) : List Char → List Gap
  | [] => [⟨before, none⟩]
  | c :: rest => ⟨before, some c⟩ :: gaps (some c) rest

/-! ## Where pieces end -/

abbrev Marks : Type :=
  List Bool

def iterate (step : Marks → Marks) : Nat → Marks → Marks
  | 0, marks => marks
  | n + 1, marks =>
    let next := step marks
    if next = marks then marks else iterate step n next

/-- Where a piece that `e` describes may end if it begins at a mark. A count beyond the number of gaps
makes no difference, since only empty pieces can be repeated that often. -/
def Expr.reach (text : List Char) : Expr → Marks → Marks
  | empty, marks => marks
  | char set, marks => false :: List.zipWith (fun m c => m && set.contains c) marks text
  | look l, marks => List.zipWith (fun m gap => m && l.holds gap) marks (gaps none text)
  | unanswered, marks => marks.map fun _ => false
  | seq a b, marks => b.reach text (a.reach text marks)
  | alt a b, marks => List.zipWith (· || ·) (a.reach text marks) (b.reach text marks)
  | group _ a, marks => a.reach text marks
  | times a least most, marks =>
    let limit := text.length + 1
    let first := iterate (a.reach text) (min least limit) marks
    let more := match most with
      | none => limit
      | some most => min (most - least) limit
    iterate (fun marks => List.zipWith (· || ·) marks (a.reach text marks)) more first

def Expr.occursIn (e : Expr) (text : String) : Bool :=
  (e.reach text.toList (List.replicate (text.toList.length + 1) true)).any id

/-! ## Properties -/

namespace Expr

def isAnswered : Expr → Bool
  | empty => true
  | char _ => true
  | look _ => true
  | unanswered => false
  | seq a b => a.isAnswered && b.isAnswered
  | alt a b => a.isAnswered && b.isAnswered
  | group _ a => a.isAnswered
  | times a _ _ => a.isAnswered

def isWidthless : Expr → Bool
  | empty => true
  | char _ => false
  | look _ => true
  | unanswered => true
  | seq a b => a.isWidthless && b.isWidthless
  | alt a b => a.isWidthless && b.isWidthless
  | group _ a => a.isWidthless
  | times a _ _ => a.isWidthless

/-- A length that no piece falls short of; none if a part is certain to have no pieces. -/
def leastLength? : Expr → Option Nat
  | empty => some 0
  | char set => if set.isEmpty then none else some 1
  | look _ => some 0
  | unanswered => some 0
  | seq a b => do pure ((← a.leastLength?) + (← b.leastLength?))
  | alt a b => do pure (min (← a.leastLength?) (← b.leastLength?))
  | group _ a => a.leastLength?
  | times a least _ => do pure ((← a.leastLength?) * least)

/-! ## Simple forms -/

def items : Expr → List Expr
  | empty => []
  | seq a b => a.items ++ b.items
  | e => [e]

def ofItems : List Expr → Expr
  | [] => empty
  | [a] => a
  | a :: rest => seq a (ofItems rest)

def concat (parts : List Expr) : Expr :=
  ofItems (parts.flatMap items)

def branches : Expr → List Expr
  | alt a b => a.branches ++ b.branches
  | e => [e]

def ofBranches : List Expr → Expr
  | [] => char []
  | [a] => a
  | a :: rest => alt a (ofBranches rest)

def only? : Expr → Option Char
  | char set => set.only?
  | _ => none

def members? : Expr → Option CharSet
  | char set => some set
  | _ => none

def runs : List Expr → List (List Expr)
  | [] => []
  | a :: rest =>
    match runs rest with
    | (b :: run) :: more =>
      if a.only?.isSome && b.only?.isSome then (a :: b :: run) :: more else [a] :: (b :: run) :: more
    | more => [a] :: more

def agreement : List (List Expr) → List (List Expr) → Nat
  | a :: as, b :: bs => if a = b then agreement as bs + 1 else 0
  | _, _ => 0

def oneSet? (parts : List Expr) : Option CharSet :=
  if parts.all (·.only?.isSome) || parts.all (·.only?.isNone) then
    (parts.mapM members?).map fun sets => CharSet.normal sets.flatten
  else none

/-- A choice between sequences as runs: what they share at their beginning, and what is left of
each. There have to be several sequences of several runs, and something shared. -/
def shared? (branches : List (List (List Expr))) : Option (List Expr × List (List Expr)) :=
  match branches with
  | first :: others =>
    let n := others.foldl (fun n other => min n (agreement first other)) first.length
    if others.isEmpty || branches.any (·.length < 2) || n = 0 then none
    else some ((first.take n).flatten, branches.map fun branch => (branch.drop n).flatten)
  | [] => none

/-- A choice. Characters become a set; and what all branches share at their beginning is taken out, at
most `fuel` times. -/
def oneOf (fuel : Nat) (parts : List Expr) : Expr :=
  let parts := parts.flatMap branches
  match oneSet? parts with
  | some set => char set
  | none =>
    match fuel with
    | 0 => ofBranches parts
    | fuel + 1 =>
      match shared? (parts.map fun part => runs part.items) with
      | some (beginning, rests) => concat (beginning ++ [oneOf fuel (rests.map concat)])
      | none => ofBranches parts

/-- A repetition. What has no width need not be repeated, and once is no repetition. -/
def repeated (a : Expr) (least : Nat) (most : Option Nat) : Expr :=
  let (least, most) :=
    if a.isWidthless then (min least 1, some (min (most.getD 1) 1)) else (least, most)
  if most = some 0 then empty
  else if least = 1 ∧ most = some 1 then a
  else times a least most

end Expr

end ProcessDrill.Pattern
