import ProcessDrill.Pattern.Expr
/-!
# The room that a pattern takes

A pattern in use is a network of states that reads the bytes of a text, once from front to back and
once from back to front, with every repetition written out. `Expr.fits` says whether both networks
are small enough. A state takes 32 bytes, four more for each state that it may turn to without
reading, and eight more for each range of bytes where it has several to tell apart.
-/

namespace ProcessDrill.Pattern

set_option autoImplicit false

inductive Direction where
  | forward
  | backward
  deriving DecidableEq, Repr

def stateRoom : Nat := 32

def switchRoom (ranges : Nat) : Nat :=
  stateRoom + 8 * ranges

def forkRoom (ways : Nat) : Nat :=
  stateRoom + 4 * ways

def total (rooms : List Nat) : Nat :=
  rooms.foldr (· + ·) 0

/-! ## Sets of characters -/

abbrev Path : Type :=
  List (Nat × Nat)

/-- Where a range of code points has to be divided so that the encodings of its first part are all of
one length and, but for a beginning that they share, of independent bytes: the last code point of a
part. -/
def division? (lowest highest : Nat) : Option Nat :=
  match [0x7f, 0x7ff, 0xffff].find? (fun limit => lowest ≤ limit && limit < highest) with
  | some limit => some limit
  | none =>
    if highest ≤ 0x7f then none
    else
      [0x40, 0x1000, 0x40000].findSome? fun size =>
        if lowest / size = highest / size then none
        else if lowest % size ≠ 0 then some (lowest - lowest % size + size - 1)
        else if highest % size ≠ size - 1 then some (highest - highest % size - 1)
        else none

def divided : Nat → Nat → Nat → List (Nat × Nat)
  | 0, lowest, highest => [(lowest, highest)]
  | fuel + 1, lowest, highest =>
    match division? lowest highest with
    | none => [(lowest, highest)]
    | some last => divided fuel lowest last ++ divided fuel (last + 1) highest

def pathOf (part : Nat × Nat) : Path :=
  List.zipWith (fun a b => (a.toNat, b.toNat)) (String.utf8EncodeChar (Char.ofNat part.1))
    (String.utf8EncodeChar (Char.ofNat part.2))

def CharSet.paths (set : CharSet) : List Path :=
  let parts := set.flatMap fun range => CharSet.every.flatMap fun part => CharSet.overlap part range
  parts.flatMap fun (lowest, highest) => (divided 32 lowest highest).map pathOf

def byFirst : List Path → List ((Nat × Nat) × List Path)
  | [] => []
  | [] :: rest => byFirst rest
  | (range :: path) :: rest =>
    match byFirst rest with
    | (range', paths) :: more =>
      if range = range' then (range, path :: paths) :: more
      else (range, [path]) :: (range', paths) :: more
    | [] => [(range, [path])]

/-- The sets of paths that are left on the way through, given the most bytes of a path. Where the same
paths are left, one state does. -/
def remainders : Nat → List Path → List (List Path)
  | 0, _ => []
  | length + 1, paths =>
    if paths.all (·.isEmpty) then []
    else paths :: (byFirst paths).flatMap fun (_, rest) => remainders length rest

def beginnings : Path → List Path
  | [] => []
  | range :: path => [range] :: (beginnings path).map (range :: ·)

/-- The room of a set of characters. Paths share states where the same is left to read: an end of a
path from front to back, a beginning of it from back to front. -/
def CharSet.room (direction : Direction) (set : CharSet) : Nat :=
  match set.only? with
  | some c => stateRoom * (String.utf8EncodeChar c).length
  | none =>
    if set.isAscii then stateRoom + switchRoom set.length
    else
      let paths := CharSet.paths set
      match direction with
      | .forward =>
        stateRoom +
          total ((remainders 4 paths).eraseDups.map fun p => switchRoom (byFirst p).length)
      | .backward =>
        forkRoom paths.length + stateRoom + stateRoom * (paths.flatMap beginnings).eraseDups.length

/-! ## Choices between words -/

abbrev Word : Type :=
  List UInt8

/-- Words in sections that end where a word is complete. `any` tells whether there have been incomplete words so far,
and `closed` whether there has been the end of a section. -/
def sections (any closed : Bool) : List Word → List (List Word)
  | [] => [[]]
  | [] :: rest =>
    -- Where the first section is empty, a word that is complete at once makes no further one.
    if !any && closed then sections any closed rest else [] :: sections any true rest
  | word :: rest =>
    match sections true closed rest with
    | words :: more => (word :: words) :: more
    | [] => [[word]]

def byByte (words : List Word) : List (List Word) :=
  (words.filterMap (·.head?)).eraseDups.map fun byte =>
    words.filterMap fun word => if word.head? = some byte then some word.tail else none

/-- The room of a choice between words of less than `fuel` bytes, the state at the end apart. -/
def wordsRoom : Nat → List Word → Nat
  | 0, _ => 0
  | fuel + 1, words =>
    let parts := sections false false words
    let full := parts.filter (!·.isEmpty)
    forkRoom (full.length + parts.length - 1) +
      total (full.map fun part =>
        let groups := byByte part
        (if groups.length = 1 then stateRoom else switchRoom groups.length) +
          total (groups.map fun rest =>
            if rest.all (·.isEmpty) then 0 else wordsRoom fuel rest))

def Expr.word? (direction : Direction) (e : Expr) : Option Word := do
  let chars ← e.items.mapM Expr.only?
  if chars.isEmpty then none
  else
    let bytes := chars.flatMap String.utf8EncodeChar
    match direction with
    | .forward => pure bytes
    | .backward => pure bytes.reverse

/-! ## Patterns -/

/-- The room of a part. A branch takes four bytes more, since a choice has to turn to it. -/
def partRoom (isBranch : Bool) (room : Nat) : Nat :=
  if isBranch then room + 4 else room

/-- The room of a repetition of what takes `room`; `isEmptiable` tells whether it may be empty. -/
def timesRoom (room : Nat) (isEmptiable : Bool) (least : Nat) (most : Option Nat) : Nat :=
  match least, most with
  | 0, some 1 => forkRoom 2 + room + stateRoom
  | 0, none => if isEmptiable then room + 2 * forkRoom 2 + stateRoom else forkRoom 2 + room
  | least, none => least * room + forkRoom 2
  | least, some most =>
    if least = most then least * room
    else
      (if least = 0 then stateRoom else least * room) + stateRoom +
        (most - least) * (forkRoom 2 + room)

def Expr.room (direction : Direction) : Bool → Expr → Nat
  | isBranch, empty => partRoom isBranch stateRoom
  | isBranch, char set => partRoom isBranch (set.room direction)
  | isBranch, look _ => partRoom isBranch stateRoom
  | isBranch, unanswered => partRoom isBranch stateRoom
  | isBranch, seq a b => partRoom isBranch (a.room direction false + b.room direction false)
  | true, alt a b => a.room direction true + b.room direction true
  | false, alt a b =>
    match (Expr.branches (alt a b)).mapM (Expr.word? direction) with
    | some words => stateRoom + wordsRoom (words.foldl (fun n word => max n word.length) 0 + 1) words
    | none => forkRoom 0 + stateRoom + a.room direction true + b.room direction true
  | isBranch, group _ a =>
    partRoom isBranch
      ((if direction = .forward then 2 * stateRoom else 0) + a.room direction false)
  | isBranch, times a least most =>
    partRoom isBranch
      (timesRoom (a.room direction false) (!a.leastLength?.any (0 < ·)) least most)

def Expr.isAnchored (direction : Direction) : Expr → Bool
  | empty => false
  | char _ => false
  | look question => question == if direction = .forward then Look.textStart else Look.textEnd
  | unanswered => false
  | seq a b =>
    match direction with
    | .forward => a.isAnchored direction || (a.isWidthless && b.isAnchored direction)
    | .backward => b.isAnchored direction || (b.isWidthless && a.isAnchored direction)
  | alt a b => a.isAnchored direction && b.isAnchored direction
  | group _ a => a.isAnchored direction
  | times a least _ => 0 < least && a.isAnchored direction

/-- The room of a whole network: a loop over the bytes before a piece unless the piece is anchored,
the pattern, as a group of its own where groups count, and the end. -/
def Expr.networkRoom (direction : Direction) (e : Expr) : Nat :=
  (if e.isAnchored direction then stateRoom else forkRoom 2 + stateRoom + switchRoom 1) +
    (group 0 e).room direction false + stateRoom

def maxRoom : Nat := 10485760

def Expr.fits (e : Expr) : Bool :=
  e.networkRoom .forward ≤ maxRoom && e.networkRoom .backward ≤ maxRoom

end ProcessDrill.Pattern
