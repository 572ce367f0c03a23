import SchemaLang.Text.GeneralCategory

/-!
# Letter case

Whether a character is a capital or a small letter, and what it becomes in the
other case. The answer for an ASCII character is the usual one and needs no
table. A character may become several (the sharp s becomes two letters), so
the conversions give lists.

The small form of a capital sigma depends on where it stands: at the end of a
word it is the final form. A word is judged by its cased letters, past any
character that case conversion ignores.
-/

namespace SchemaLang.Text

/-- A run of characters whose counterparts in the other case lie at one fixed
distance; `image` is the counterpart of the first. -/
structure Shift where
  run : Run
  image : Nat
deriving DecidableEq, Repr

namespace Shift

/-- The counterpart of `code`, if the run passes through it. -/
def counterpart? (shift : Shift) (code : Nat) : Option Nat :=
  if shift.run.contains code then some (shift.image + (code - shift.run.first)) else none

/-- The code point whose counterpart is `image`, if it lies in the run. -/
def source? (shift : Shift) (image : Nat) : Option Nat :=
  let code := shift.run.first + (image - shift.image)
  if shift.image ≤ image && shift.run.contains code then some code else none

/-- Read one item of a table, a run and the image of its first after `>`. -/
def ofItem (earlier : Nat) (item : List Char) : Shift :=
  let text := item.takeWhile (· ≠ '>')
  let run := Run.ofItem earlier text
  ⟨run, hexNumberAfter run.first (item.drop (text.length + 1))⟩

/-- Read the items of a line, each after the last code point of the run before. -/
def ofItems (earlier : Nat) : List String → List Shift
  | [] => []
  | item :: items =>
    let shift := ofItem earlier item.toList
    shift :: ofItems shift.run.last items

/-- Read a table of shifts. -/
def ofLines (lines : List String) : List Shift :=
  lines.flatMap fun line => ofItems 0 (line.splitOn " ")

end Shift

/-- A character that becomes several in the other case. -/
structure Expansion where
  code : Nat
  images : List Nat
deriving DecidableEq, Repr

namespace Expansion

/-- Read a table of expansions: the code point, then `>`, then its images with
`+` between them. -/
def ofLines (lines : List String) : List Expansion :=
  lines.flatMap fun line =>
    (line.splitOn " ").filterMap fun item =>
      if item.isEmpty then none
      else
        let code := item.toList.takeWhile (· ≠ '>')
        let images := String.ofList (item.toList.drop (code.length + 1))
        some ⟨hexNumber code, (images.splitOn "+").map (hexNumber ·.toList)⟩

end Expansion

/-- Capital forms that are no letters: numerals and circled letters. -/
def otherUppercasePoints : CodePoints := .ofLines ["2160-f 4b6-cf 1f130-49 50-69 70-89"]

/-- Small forms that are no small letters: ordinals, superscripts and the like. -/
def otherLowercasePoints : CodePoints := .ofLines [
  "aa ba 2b0-8 c0-1 e0-4 345 7a 10fc d2c-6a 78 9b-bf 2071 f 90-c 170-f 4d0-e9 c7c-d a69c-d 770",
  "a7f2-4 8-9 b5c-f 69 10780 3-5 7-b0 2-a e030-6d"]

/-- Small counterparts, where there is exactly one. -/
def lowerShifts : List Shift := Shift.ofLines [
  "c0-d6>e0 8-e>f8 100-2e/2>1 32-6/2>3 9-47/2>a a-76/2>b 8>0ff 9-d/2>a 81>253 2-4/2>3 6>254 7>8",
  "189-a>256 b>c e>dd f>259 90>25b 1>2 3>260 4>263 6>269 7>268 8>9 c>26f d>272 f>275 a0-4/2>1",
  "1a6>280 7>8 9>283 c>d e>288 f>b0 b1-2>28a 3-5/2>4 7>292 8>9 c>d c4>6 5>6 7>9 8>9 a>c",
  "1cb-db/2>c e-ee/2>f f1>3 2-4/2>3 6>95 7>bf 8-21e/2>9 20>19e 2-32/2>3 a>2c65 b>c d>19a e>2c66",
  "241>2 3>180 4>89 5>8c 6-e/2>7 370-2/2>1 6>7 f>f3 86>ac 8-a>ad c>cc e-f>cd 91-a1>b1 3-b>c3",
  "3cf>d7 d8-ee/2>9 f4>b8 7>8 9>2 a>b d-f>7b 400-f>50 10-2f>30 60-80/2>1 a-be/2>b c0>f 1-d/2>2",
  "4d0-52e/2>1 31-56>61 10a0-c5>2d00 7>2d27 d>2d2d 3a0-ef>ab70 f0-5>8 c89>a 90-ba>0d0 d-f>0fd",
  "1e00-94/2>1 e>00df a0-fe/2>1 f08-f>0 18-d>0 28-f>0 38-f>0 48-d>0 59-f/2>1 68-f>0 88-f>0",
  "1f98-f>0 a8-f>0 b8-9>0 a-b>70 c>3 c8-b>72 c>3 d8-9>0 a-b>76 e8-9>0 a-b>7a c>5 f8-9>78 a-b>7c",
  "1ffc>3 2126>03c9 a>006b b>00e5 32>4e 60-f>70 83>4 4b6-cf>d0 c00-2f>30 60>1 2>026b 3>1d7d",
  "2c64>027d 7-b/2>8 d>0251 e>0271 f>0250 70>0252 2>3 5>6 e-f>023f 80-e2/2>1 b-d/2>c f2>3",
  "a640-6c/2>1 80-9a/2>1 722-e/2>3 32-6e/2>3 79-b/2>a d>1d79 e-86/2>f b>c d>0265 90-2/2>1",
  "a796-a8/2>7 a>0266 b>025c c>0261 d>026c e>026a b0>029e 1>0287 2>029d 3>b53 4-c2/2>5 4>94",
  "a7c5>0282 6>1d8e 7-9/2>8 b>0264 c>d d0>1 6-a/2>7 c>019b f5>6 ff21-3a>41 10400-27>28 b0-d3>d8",
  "10570-a>97 c-8a>a3 c-92>b3 4-5>bb c80-b2>c0 d50-65>70 18a0-bf>c0 6e40-5f>60 e900-21>22"]

/-- Capital counterparts, where there is exactly one. -/
def upperShifts : List Shift := Shift.ofLines [
  "b5>39c e0-f6>c0 8-e>d8 f>178 101-2f/2>0 31>049 3-7/2>2 a-48/2>9 b-77/2>a a-e/2>9 f>053",
  "180>243 3-5/2>2 8>7 c>b 92>1 5>f6 9>8 a>23d b>a7dc e>220 a1-5/2>0 8>7 d>c b0>af 4-6/2>3 9>8",
  "1bd>c f>f7 c5>4 6>4 8>7 9>7 b>a c>a e-dc/2>d d>8e f-ef/2>e f2>1 3>1 5>4 9-21f/2>8 23-33/2>2",
  "23c>b f-40>2c7e 2>1 7-f/2>6 50>2c6f 1>2c6d 2>2c70 3>181 4>186 6-7>189 9>18f b>190 c>a7ab",
  "260>193 1>a7ac 3>194 4>a7cb 5>a78d 6>a7aa 8>197 9>196 a>a7ae b>2c62 c>a7ad f>19c 71>2c6e",
  "272>19d 5>19f d>2c64 80>1a6 2>a7c5 3>1a9 7>a7b1 8>1ae 9>44 a-b>1b1 c>45 92>1b7 d>a7b2 e>a7b0",
  "345>99 71-3/2>0 7>6 b-d>fd ac>86 d-f>88 b1-c1>91 2>a3 3-b>a3 c>8c d-e>8e d0>92 1>98 5>a6",
  "3d6>a0 7>cf 9-ef/2>8 f0>9a 1>a1 2>9 3>7f 5>95 8>7 b>a 430-4f>10 50-f>00 61-81/2>0 b-bf/2>a",
  "4c2-e/2>1 f>0 d1-52f/2>0 61-86>31 10d0-fa>c90 d-f>cbd 3f8-d>0 c80>0412 1>0414 2>041e",
  "1c83-4>0421 5>0422 6>042a 7>0462 8>a64a a>9 d79>a77d d>2c63 8e>a7c6 e01-95/2>0 b>60",
  "1ea1-ff/2>0 f00-7>8 10-5>8 20-7>8 30-7>8 40-5>8 51-7/2>9 60-7>8 70-1>ba 2-5>c8 6-7>da 8-9>f8",
  "1f7a-b>ea c-d>fa b0-1>8 e>0399 d0-1>8 e0-1>8 5>c 214e>32 70-f>60 84>3 4d0-e9>b6 c30-5f>00",
  "2c61>0 5>023a 6>023e 8-c/2>7 73>2 6>5 81-e3/2>0 c-e/2>b f3>2 d00-25>10a0 7>10c7 d>10cd",
  "a641-6d/2>0 81-9b/2>0 723-f/2>2 33-6f/2>2 7a-c/2>9 f-87/2>e c>b 91-3/2>0 4>c4 7-a9/2>6",
  "a7b5-c3/2>4 8-a/2>7 d>c d1>0 7-b/2>6 f6>5 b53>7b3 70-bf>13a0 ff41-5a>21 10428-4f>00 d8-fb>b0",
  "10597-a1>70 3-b1>7c 3-9>8c b-c>94 cc0-f2>80 d70-85>50 18c0-df>a0 6e60-7f>40 e922-43>00"]

/-- Characters whose capital form takes several characters. -/
def upperExpansions : List Expansion := Expansion.ofLines [
  "df>53+53 149>2bc+4e 1f0>4a+30c 390>399+308+301 3b0>3a5+308+301 587>535+552 1e96>48+331",
  "1e97>54+308 1e98>57+30a 1e99>59+30a 1e9a>41+2be 1f50>3a5+313 1f52>3a5+313+300",
  "1f54>3a5+313+301 1f56>3a5+313+342 1f80>1f08+399 1f81>1f09+399 1f82>1f0a+399",
  "1f83>1f0b+399 1f84>1f0c+399 1f85>1f0d+399 1f86>1f0e+399 1f87>1f0f+399 1f88>1f08+399",
  "1f89>1f09+399 1f8a>1f0a+399 1f8b>1f0b+399 1f8c>1f0c+399 1f8d>1f0d+399 1f8e>1f0e+399",
  "1f8f>1f0f+399 1f90>1f28+399 1f91>1f29+399 1f92>1f2a+399 1f93>1f2b+399 1f94>1f2c+399",
  "1f95>1f2d+399 1f96>1f2e+399 1f97>1f2f+399 1f98>1f28+399 1f99>1f29+399 1f9a>1f2a+399",
  "1f9b>1f2b+399 1f9c>1f2c+399 1f9d>1f2d+399 1f9e>1f2e+399 1f9f>1f2f+399 1fa0>1f68+399",
  "1fa1>1f69+399 1fa2>1f6a+399 1fa3>1f6b+399 1fa4>1f6c+399 1fa5>1f6d+399 1fa6>1f6e+399",
  "1fa7>1f6f+399 1fa8>1f68+399 1fa9>1f69+399 1faa>1f6a+399 1fab>1f6b+399 1fac>1f6c+399",
  "1fad>1f6d+399 1fae>1f6e+399 1faf>1f6f+399 1fb2>1fba+399 1fb3>391+399 1fb4>386+399",
  "1fb6>391+342 1fb7>391+342+399 1fbc>391+399 1fc2>1fca+399 1fc3>397+399 1fc4>389+399",
  "1fc6>397+342 1fc7>397+342+399 1fcc>397+399 1fd2>399+308+300 1fd3>399+308+301",
  "1fd6>399+342 1fd7>399+308+342 1fe2>3a5+308+300 1fe3>3a5+308+301 1fe4>3a1+313",
  "1fe6>3a5+342 1fe7>3a5+308+342 1ff2>1ffa+399 1ff3>3a9+399 1ff4>38f+399 1ff6>3a9+342",
  "1ff7>3a9+342+399 1ffc>3a9+399 fb00>46+46 fb01>46+49 fb02>46+4c fb03>46+46+49",
  "fb04>46+46+4c fb05>53+54 fb06>53+54 fb13>544+546 fb14>544+535 fb15>544+53b fb16>54e+546",
  "fb17>544+53d"]

/-- Whether a character is of capital form. -/
def isUppercase (c : Char) : Bool :=
  if c.toNat < 128 then c.isUpper
  else GeneralCategory.ofChar c == .uppercaseLetter || otherUppercasePoints.contains c.toNat

/-- Whether a character is of small form. -/
def isLowercase (c : Char) : Bool :=
  if c.toNat < 128 then c.isLower
  else GeneralCategory.ofChar c == .lowercaseLetter || otherLowercasePoints.contains c.toNat

/-- The small form of a character on its own. Only the dotted capital i becomes
more than one character. -/
def lower (c : Char) : List Char :=
  if c.toNat < 128 then [c.toLower]
  else if c.toNat = 0x130 then ['i', Char.ofNat 0x307]
  else match lowerShifts.findSome? (·.counterpart? c.toNat) with
    | some code => [Char.ofNat code]
    | none => [c]

/-- The capital form of a character on its own. -/
def upper (c : Char) : List Char :=
  if c.toNat < 128 then [c.toUpper]
  else match upperExpansions.find? (·.code == c.toNat) with
    | some expansion => expansion.images.map Char.ofNat
    | none => match upperShifts.findSome? (·.counterpart? c.toNat) with
      | some code => [Char.ofNat code]
      | none => [c]

/-- Whether a character takes part in case at all. -/
def isCased (c : Char) : Bool :=
  isUppercase c || isLowercase c || GeneralCategory.ofChar c == .titlecaseLetter

/-- Punctuation inside words that case conversion looks past. -/
def wordPunctuation : List Nat :=
  [0x27, 0x2e, 0x3a, 0xb7, 0x387, 0x55f, 0x5f4, 0x2018, 0x2019, 0x2024, 0x2027,
   0xfe13, 0xfe52, 0xfe55, 0xff07, 0xff0e, 0xff1a]

/-- Whether case conversion looks past a character. -/
def isCaseIgnorable (c : Char) : Bool :=
  match GeneralCategory.ofChar c with
  | .nonspacingMark | .enclosingMark | .format | .modifierLetter | .modifierSymbol => true
  | _ => wordPunctuation.contains c.toNat

/-- Whether the nearest character that counts is cased. -/
def meetsCased (text : List Char) : Bool :=
  match text.dropWhile isCaseIgnorable with
  | [] => false
  | c :: _ => isCased c

/-- The small letter sigma and its form at the end of a word. -/
def lowerSigma (before after : List Char) : Char :=
  Char.ofNat (if meetsCased before && !meetsCased after then 0x3c2 else 0x3c3)

/-- Small form of a text, given the characters before it, nearest first. -/
def lowerAfter (before : List Char) : List Char → List Char
  | [] => []
  | c :: rest =>
    (if c.toNat = 0x3a3 then [lowerSigma before rest] else lower c) ++ lowerAfter (c :: before) rest

/-- The small form of a text. -/
def lowerText (text : List Char) : List Char := lowerAfter [] text

end SchemaLang.Text
