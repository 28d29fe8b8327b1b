/-! Patterns in files that list what to ignore.

They are matched byte by byte against a path below the directory of the file. A `*` and a `?` do
not go beyond a separator, `**` as a whole segment stands for any number of segments, and
`{a,b}` for either of its parts. -/

namespace ArityCheck.Ignore

inductive Token where
  | byte (b : UInt8)
  /-- One byte that is no separator. -/
  | any
  /-- Any number of bytes that are no separators. -/
  | run
  /-- Nothing, or whole segments with the separator after them. -/
  | folders
  /-- A separator with anything after it. -/
  | beneath
  /-- A separator, or whole segments between two of them. -/
  | between
  | oneOf (negated : Bool) (ranges : List (UInt8 × UInt8))
  /-- One of several branches. Empty branches do not count. -/
  | either (branches : List (List Token))

abbrev Bytes := List UInt8

def slash : UInt8 := 0x2f

/-! ### Matching -/

/-- What is left after any number of bytes. -/
def tails : Bytes → List Bytes
  | [] => [[]]
  | b :: bs => (b :: bs) :: tails bs

/-- What is left after any number of bytes that are no separators. -/
def runTails : Bytes → List Bytes
  | [] => [[]]
  | b :: bs => (b :: bs) :: if b = slash then [] else runTails bs

/-- What is left after some separator. -/
def afterSlashes : Bytes → List Bytes
  | [] => []
  | b :: bs => if b = slash then bs :: afterSlashes bs else afterSlashes bs

mutual

/-- What is left of a text after a token, in every way in which it matches. -/
def rests : Token → Bytes → List Bytes
  | .byte b, c :: text => if b = c then [text] else []
  | .any, c :: text => if c = slash then [] else [text]
  | .run, text => runTails text
  | .folders, text => text :: afterSlashes text
  | .beneath, c :: text => if c = slash then tails text else []
  | .between, c :: text => if c = slash then text :: afterSlashes text else []
  | .oneOf negated ranges, c :: text =>
    if (ranges.any fun (low, high) => low ≤ c && c ≤ high) != negated then [text] else []
  | .either branches, text =>
    match branchRests branches text with
    | none => [text]
    | some rests => rests
  | _, [] => []

/-- What is left after a list of tokens. -/
def allRests : List Token → Bytes → List Bytes
  | [], text => [text]
  | t :: ts, text => (rests t text).flatMap (allRests ts)

/-- What is left after one of the branches, none if all of them are empty. -/
def branchRests : List (List Token) → Bytes → Option (List Bytes)
  | [], _ => none
  | [] :: branches, text => branchRests branches text
  | (t :: ts) :: branches, text =>
    some ((rests t text).flatMap (allRests ts) ++ ((branchRests branches text).getD []))

end

/-- The whole of a text is matched. A lone `**` matches everything. -/
def accepts (ts : List Token) (text : Bytes) : Bool :=
  match ts with
  | [.folders] => true
  | ts => (allRests ts text).any List.isEmpty

/-! ### Reading -/

/-- The group that is open: the branches before it, and its own tokens. All come latest first. -/
structure Branch where
  finished : List (List Token)
  tokens : List Token

/-- A class whose end has not been reached, with its ranges latest first. -/
structure OpenClass where
  negated : Bool
  ranges : List (Char × Char)
  isRange : Bool

structure State where
  /-- The branch being read, inside of those that hold it. -/
  current : Branch
  outer : List Branch
  inside : Option OpenClass

namespace State

def start : State := ⟨⟨[], []⟩, [], none⟩

def isGrouped (s : State) : Bool := !s.outer.isEmpty

def push (s : State) (t : Token) : State :=
  { s with current := { s.current with tokens := t :: s.current.tokens } }

def pushChar (s : State) (c : Char) : State :=
  (String.singleton c).toUTF8.toList.foldl (fun s b => s.push (.byte b)) s

def openGroup (s : State) : State := { s with current := ⟨[], []⟩, outer := s.current :: s.outer }

def nextBranch (s : State) : State :=
  { s with current := ⟨s.current.tokens.reverse :: s.current.finished, []⟩ }

def closeGroup? (s : State) : Option State :=
  match s.outer with
  | [] => none
  | holder :: outer =>
    let branches := (s.current.tokens.reverse :: s.current.finished).reverse
    some ({ s with current := holder, outer }.push (.either branches))

/-- Two stars that are no whole segment are no more than one. -/
def pushRuns (s : State) : State := (s.push .run).push .run

/-- Puts a token for whole segments in place of the separator before it. -/
def pushFolders (s : State) (isLast : Bool) : State :=
  match s.current.tokens with
  | .folders :: _ | .beneath :: _ => s
  | _ :: tokens =>
    { s with current := { s.current with tokens := (if isLast then .beneath else .between) :: tokens } }
  | [] => s

end State

/-- The bytes of a range of characters, each end with its own bytes. -/
def byteRanges (range : Char × Char) : List (UInt8 × UInt8) :=
  let low := (String.singleton range.1).toUTF8.toList
  let high := (String.singleton range.2).toUTF8.toList
  let alone (bs : List UInt8) : List (UInt8 × UInt8) := bs.map fun b => (b, b)
  if range.1 = range.2 then alone low
  else
    match low.getLast?, high.head? with
    | some last, some first => alone low.dropLast ++ [(last, first)] ++ alone high.tail
    | _, _ => []

/-- Another character of a class. None if it would end a range before its beginning. -/
def OpenClass.add? (k : OpenClass) (c : Char) : Option OpenClass :=
  match k.isRange, k.ranges with
  | true, (low, _) :: ranges => if low ≤ c then some ⟨k.negated, (low, c) :: ranges, false⟩ else none
  | _, ranges =>
    if c = '-' && !ranges.isEmpty then some { k with isRange := true }
    else some ⟨k.negated, (c, c) :: ranges, false⟩

def OpenClass.token (k : OpenClass) : Token :=
  let ranges := if k.isRange then ('-', '-') :: k.ranges else k.ranges
  .oneOf k.negated (ranges.reverse.flatMap byteRanges)

/-- A class that begins here has an end. Its first character never is the end. -/
def closes : List Char → Bool
  | '!' :: cs | '^' :: cs => (cs.drop 1).contains ']'
  | cs => (cs.drop 1).contains ']'

/-- The state after two stars, and whether they take the separator after them along. -/
def twoStars (s : State) (last : Option Char) (cs : List Char) : State × Bool :=
  let follows := cs.head?
  if s.current.tokens.isEmpty then
    match follows with
    | none => (s.push .folders, false)
    | some '/' => (s.push .folders, true)
    | some _ => (s.pushRuns, false)
  else if last = some '/' then
    match follows with
    | none => (s.pushFolders true, false)
    | some '/' => (s.pushFolders false, true)
    | some c =>
      if s.isGrouped && (c = ',' || c = '\x7d') then (s.pushFolders true, false)
      else (s.pushRuns, false)
  else (s.pushRuns, false)

/-- Reads a pattern on from a state, where `last` is the character before. None if the pattern is
malformed. -/
def read (s : State) (last : Option Char) : List Char → Option State
  | [] => if s.isGrouped then none else some s
  | c :: cs =>
    match s.inside with
    | some k =>
      if c = ']' && !k.ranges.isEmpty then
        read ({ s with inside := none }.push k.token) (some c) cs
      else if (c = '!' || c = '^') && k.ranges.isEmpty && !k.negated && last = some '[' then
        read { s with inside := some { k with negated := true } } (some c) cs
      else
        match k.add? c with
        | some k => read { s with inside := some k } (some c) cs
        | none => none
    | none =>
      match c, cs with
      | '*', '*' :: '/' :: cs =>
        let (s, taken) := twoStars s last ('/' :: cs)
        if taken then read s (some '/') cs else read s (some '*') ('/' :: cs)
      | '*', '*' :: cs => read (twoStars s last cs).1 (some '*') cs
      | '*', cs => read (s.push .run) (some c) cs
      | '?', cs => read (s.push .any) (some c) cs
      | '[', cs =>
        if closes cs then read { s with inside := some ⟨false, [], false⟩ } (some c) cs
        else read (s.pushChar c) (some c) cs
      | '\x7b', cs => read s.openGroup (some c) cs
      | '\x7d', cs =>
        match s.closeGroup? with
        | some s => read s (some c) cs
        | none => none
      | ',', cs => read (if s.isGrouped then s.nextBranch else s.pushChar c) (some c) cs
      | '\\', c :: cs => read (s.pushChar c) (some c) cs
      | '\\', [] => none
      | c, cs => read (s.pushChar c) (some c) cs

/-- The tokens of a pattern, if it is well formed. -/
def parse? (pattern : List Char) : Option (List Token) :=
  (read .start none pattern).map (·.current.tokens.reverse)

end ArityCheck.Ignore
