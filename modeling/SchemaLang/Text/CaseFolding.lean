import SchemaLang.Text.LetterCase

/-!
# Case folding

Two characters are equal up to case when folding takes them to the same character.
Folding takes each character to exactly one, so the sharp s and a pair of letters
differ. Most characters fold to themselves; the table lists the others.
-/

namespace SchemaLang.Text

/-- What the characters fold to that do not fold to themselves. -/
def foldShifts : List Shift := Shift.ofLines [
  "41-5a>61 b5>3bc c0-d6>e0 8-e>f8 100-2e/2>1 32-6/2>3 9-47/2>a a-76/2>b 8>0ff 9-d/2>a f>073",
  "181>253 2-4/2>3 6>254 7>8 9-a>256 b>c e>dd f>259 90>25b 1>2 3>260 4>263 6>269 7>268 8>9",
  "19c>26f d>272 f>275 a0-4/2>1 6>280 7>8 9>283 c>d e>288 f>b0 b1-2>28a 3-5/2>4 7>292 8>9 c>d",
  "1c4>6 5>6 7>9 8>9 a>c b-db/2>c e-ee/2>f f1>3 2-4/2>3 6>95 7>bf 8-21e/2>9 20>19e 2-32/2>3",
  "23a>2c65 b>c d>19a e>2c66 41>2 3>180 4>89 5>8c 6-e/2>7 345>b9 70-2/2>1 6>7 f>f3 86>ac 8-a>ad",
  "38c>cc e-f>cd 91-a1>b1 3-b>c3 c2>3 f>d7 d0>b2 1>b8 5>c6 6>c0 8-ee/2>9 f0>ba 1>c1 4>b8 5>b5",
  "3f7>8 9>2 a>b d-f>7b 400-f>50 10-2f>30 60-80/2>1 a-be/2>b c0>f 1-d/2>2 d0-52e/2>1 31-56>61",
  "10a0-c5>2d00 7>2d27 d>2d2d 3f8-d>0 c80>0432 1>0434 2>043e 3-4>0441 5>0442 6>044a 7>0463",
  "1c88>a64b 9>a 90-ba>0d0 d-f>0fd e00-94/2>1 b>61 e>00df a0-fe/2>1 f08-f>0 18-d>0 28-f>0",
  "1f38-f>0 48-d>0 59-f/2>1 68-f>0 88-f>0 98-f>0 a8-f>0 b8-9>0 a-b>70 c>3 e>03b9 c8-b>72 c>3",
  "1fd3>0390 8-9>0 a-b>76 e3>03b0 8-9>0 a-b>7a c>5 f8-9>78 a-b>7c c>3 2126>03c9 a>006b b>00e5",
  "2132>4e 60-f>70 83>4 4b6-cf>d0 c00-2f>30 60>1 2>026b 3>1d7d 4>027d 7-b/2>8 d>0251 e>0271",
  "2c6f>0250 70>0252 2>3 5>6 e-f>023f 80-e2/2>1 b-d/2>c f2>3 a640-6c/2>1 80-9a/2>1 722-e/2>3",
  "a732-6e/2>3 79-b/2>a d>1d79 e-86/2>f b>c d>0265 90-2/2>1 6-a8/2>7 a>0266 b>025c c>0261",
  "a7ad>026c e>026a b0>029e 1>0287 2>029d 3>b53 4-c2/2>5 4>94 5>0282 6>1d8e 7-9/2>8 b>0264 c>d",
  "a7d0>1 6-a/2>7 c>019b f5>6 b70-bf>13a0 fb05>6 f21-3a>41 10400-27>28 b0-d3>d8 570-a>97",
  "1057c-8a>a3 c-92>b3 4-5>bb c80-b2>c0 d50-65>70 18a0-bf>c0 6e40-5f>60 e900-21>22"]

/-- The code point that a character folds to. -/
def folded (c : Char) : Nat := (foldShifts.findSome? (·.counterpart? c.toNat)).getD c.toNat

/-- The characters that are equal to a character up to case, itself included. -/
def caseVariants (c : Char) : List Char :=
  let target := folded c
  Char.ofNat target :: foldShifts.filterMap fun shift => (shift.source? target).map Char.ofNat

end SchemaLang.Text
