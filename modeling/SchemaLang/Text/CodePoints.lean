/-!
# Sets of code points

A character property is a set of code points, held as a list of runs. A run is
an arithmetic progression, since in the scripts with two letter cases the
capital and small letters alternate.

Property tables are written as text, in one of two forms. In the first an item is a
run: `first`, `first-last` or `first-last/stride`, with the code points in hexadecimal.
A code point leaves out the leading digits that it shares with the one before it on the
line. Reading such a table never fails; a character that is no hexadecimal digit counts
as zero.

The second form is for large tables, and its runs have one stride. It says by turns how
many code points lie between two runs and how many steps a run makes. Its numerals need
no blanks between them: the digits are the letters, and the last of a numeral is small.
-/

namespace SchemaLang.Text

/-- Every `stride`-th code point from `first` up to `last`. -/
structure Run where
  first : Nat
  last : Nat
  stride : Nat
deriving DecidableEq, Repr

namespace Run

/-- Whether the progression passes through `code`. -/
def contains (run : Run) (code : Nat) : Bool :=
  run.first ≤ code && code ≤ run.last && (code - run.first) % run.stride == 0

end Run

/-- The value of one hexadecimal digit. -/
def hexDigit (c : Char) : Nat :=
  if '0' ≤ c && c ≤ '9' then c.toNat - '0'.toNat
  else if 'a' ≤ c && c ≤ 'f' then c.toNat - 'a'.toNat + 10
  else if 'A' ≤ c && c ≤ 'F' then c.toNat - 'A'.toNat + 10
  else 0

/-- Whether a character is a hexadecimal digit. -/
def isHexDigit (c : Char) : Bool :=
  c.isDigit || ('a' ≤ c && c ≤ 'f') || ('A' ≤ c && c ≤ 'F')

/-- The number a hexadecimal numeral denotes, most significant digit first. -/
def hexNumber (digits : List Char) : Nat :=
  digits.foldl (fun value digit => 16 * value + hexDigit digit) 0

/-- The number a numeral denotes after another number, whose leading digits it may leave
out. -/
def hexNumberAfter (earlier : Nat) (digits : List Char) : Nat :=
  let size := digits.foldl (fun size _ => 16 * size) 1
  earlier / size * size + hexNumber digits

namespace Run

/-- Read one item of a table after an earlier code point. -/
def ofItem (earlier : Nat) (item : List Char) : Run :=
  let digits := item.takeWhile (· ≠ '-')
  let first := hexNumberAfter earlier digits
  match item.drop digits.length with
  | [] => ⟨first, first, 1⟩
  | _ :: rest =>
    let last := rest.takeWhile (· ≠ '/')
    match rest.drop last.length with
    | [] => ⟨first, hexNumberAfter first last, 1⟩
    | _ :: stride => ⟨first, hexNumberAfter first last, hexNumber stride⟩

/-- Read the items of a line, each after the last code point of the one before. -/
def ofItems (earlier : Nat) : List String → List Run
  | [] => []
  | item :: items =>
    let run := ofItem earlier item.toList
    run :: ofItems run.last items

/-- Read runs from the code points between them and their steps, where `next` is the
code point after the last run. -/
def ofSteps (stride next : Nat) : List Nat → List Run
  | skipped :: steps :: numbers =>
    let first := next + skipped
    let last := first + stride * steps
    ⟨first, last, stride⟩ :: ofSteps stride (last + 1) numbers
  | _ => []

end Run

/-- The numbers of a text whose digits are letters, where `value` is what the digits of
the first number before the text amount to. -/
def letterNumbers (value : Nat) : List Char → List Nat
  | [] => []
  | c :: text =>
    if c.isLower then (26 * value + (c.toNat - 'a'.toNat)) :: letterNumbers 0 text
    else letterNumbers (26 * value + (c.toNat - 'A'.toNat)) text

/-- The runs of a property. A code point belongs to it when some run passes
through it. -/
structure CodePoints where
  runs : List Run
deriving DecidableEq, Repr

namespace CodePoints

/-- Membership of a code point. -/
def contains (points : CodePoints) (code : Nat) : Bool :=
  points.runs.any (·.contains code)

/-- Membership of a character. -/
def holds (points : CodePoints) (c : Char) : Bool := points.contains c.toNat

/-- The code points of at least one of some properties. -/
def union (properties : List CodePoints) : CodePoints := ⟨properties.flatMap (·.runs)⟩

/-- Read a table: items stand between blanks, on any number of lines. -/
def ofLines (lines : List String) : CodePoints :=
  ⟨lines.flatMap fun line => Run.ofItems 0 (line.splitOn " ")⟩

/-- Read a table of steps, which may be broken into lines anywhere. -/
def ofSteps (stride : Nat) (lines : List String) : CodePoints :=
  ⟨Run.ofSteps stride 0 (letterNumbers 0 (lines.flatMap String.toList))⟩

end CodePoints

end SchemaLang.Text
