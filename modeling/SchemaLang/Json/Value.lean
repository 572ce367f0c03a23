import SchemaLang.Number.Rounding

/-!
# JSON values

A JSON value keeps the order of the members of its objects, since documents are
compared as text. Numbers are of two kinds, integers and binary64 numbers, and
a value of one kind is never identical to a value of the other; they may still
be equal in value.

Two comparisons are defined here. `identical` is equality of documents: the
order of members does not count, the kind of a number does. `equalValue` is
equality of instances: members stand in the same order, and the kind of a number
does not count.
-/

namespace SchemaLang

/-- A number of a JSON document: written as an integer, or not. -/
inductive JsonNumber where
  | integer (value : Int)
  | double (value : Double)
deriving DecidableEq, Repr

/-- A JSON value. Members of an object stand in the order of the document. -/
inductive Json where
  | null
  | bool (value : Bool)
  | number (value : JsonNumber)
  | string (text : String)
  | array (items : List Json)
  | object (members : List (String × Json))
deriving Repr, Inhabited

namespace JsonNumber

/-- Equality of kind and value. -/
def identical : JsonNumber → JsonNumber → Bool
  | integer a, integer b => a == b
  | double a, double b => a.same b
  | _, _ => false

/-- The order of two numbers by value; `none` when one is undefined. -/
def order : JsonNumber → JsonNumber → Option Ordering
  | integer a, integer b => some (compare a b)
  | double a, integer b => a.compareInt b
  | integer a, double b => (b.compareInt a).map Ordering.swap
  | double a, double b =>
    if a.lt b then some .lt else if b.lt a then some .gt
    else if a.same b then some .eq else none

/-- Whether the value is a whole number. -/
def isWhole : JsonNumber → Bool
  | integer _ => true
  | double value => value.isWhole

/-- The whole part toward zero. -/
def truncated : JsonNumber → Int
  | integer value => value
  | double value => value.truncated

/-- The number of a JSON document for a binary64 number: an integer where it is
whole and small enough to lie among consecutive integers. -/
def ofDouble (value : Double) : JsonNumber :=
  if value.isWhole && value.magnitudeBelow (Nat.pow 2 53) then integer value.truncated
  else double value

end JsonNumber

namespace Json

/-- The members of an object, and none of any other value. -/
def members : Json → List (String × Json)
  | object members => members
  | _ => []

/-- The value of a member of an object. -/
def get? (value : Json) (name : String) : Option Json := value.members.lookup name

/-- The value for a binary64 number; `null` when it is not finite. -/
def ofDouble (value : Double) : Json :=
  if value.isFinite then number (.ofDouble value) else null

/-- A natural number as a value. -/
def ofNat (value : Nat) : Json := number (.integer value)

/-- Set a member: in its place when the name is there, at the end otherwise. -/
def insertMember (name : String) (value : Json) : List (String × Json) → List (String × Json)
  | [] => [(name, value)]
  | member :: rest =>
    if member.1 = name then (name, value) :: rest else member :: insertMember name value rest

/-- An object from members of which a later one replaces an earlier one of the
same name. -/
def ofMembers (members : List (String × Json)) : Json :=
  object (members.foldl (fun result member => insertMember member.1 member.2 result) [])

mutual

/-- Comparison of two values up to a comparison of numbers. The order of members
does not count. -/
def agrees (numbers : JsonNumber → JsonNumber → Bool) : Json → Json → Bool
  | null, null => true
  | bool a, bool b => a == b
  | number a, number b => numbers a b
  | string a, string b => a == b
  | array as, array bs => itemsAgree numbers as bs
  | object as, object bs => as.length == bs.length && membersAgree numbers as bs
  | _, _ => false

/-- Comparison of two lists of items, place by place. -/
def itemsAgree (numbers : JsonNumber → JsonNumber → Bool) : List Json → List Json → Bool
  | [], [] => true
  | a :: as, b :: bs => agrees numbers a b && itemsAgree numbers as bs
  | _, _ => false

/-- Whether each member of the first list has a counterpart in the second. -/
def membersAgree (numbers : JsonNumber → JsonNumber → Bool) :
    List (String × Json) → List (String × Json) → Bool
  | [], _ => true
  | (name, a) :: as, bs =>
    (match bs.lookup name with
      | some b => agrees numbers a b
      | none => false) && membersAgree numbers as bs

end

/-- Equality of documents. -/
def identical : Json → Json → Bool := agrees JsonNumber.identical

mutual

/-- Equality of instances: numbers by their exact values, members one by one in
their order. -/
def equalValue : Json → Json → Bool
  | null, null => true
  | bool a, bool b => a == b
  | number a, number b => a.order b = some .eq
  | string a, string b => a == b
  | array as, array bs => equalItems as bs
  | object as, object bs => equalMembers as bs
  | _, _ => false

/-- Equality of two lists of items, place by place. -/
def equalItems : List Json → List Json → Bool
  | [], [] => true
  | a :: as, b :: bs => equalValue a b && equalItems as bs
  | _, _ => false

/-- Equality of two lists of members, place by place. -/
def equalMembers : List (String × Json) → List (String × Json) → Bool
  | [], [] => true
  | (name, a) :: as, (other, b) :: bs => name == other && equalValue a b && equalMembers as bs
  | _, _ => false

end

mutual

/-- How deep arrays and objects nest. -/
def depth : Json → Nat
  | array items => itemsDepth items + 1
  | object members => membersDepth members + 1
  | _ => 0

/-- The greatest depth of some items. -/
def itemsDepth : List Json → Nat
  | [] => 0
  | item :: rest => max (depth item) (itemsDepth rest)

/-- The greatest depth of some members. -/
def membersDepth : List (String × Json) → Nat
  | [] => 0
  | (_, value) :: rest => max (depth value) (membersDepth rest)

end

mutual

/-- The number of values in a value, itself included. -/
def size : Json → Nat
  | array items => itemsSize items + 1
  | object members => membersSize members + 1
  | _ => 1

/-- The number of values in some items. -/
def itemsSize : List Json → Nat
  | [] => 0
  | item :: rest => size item + itemsSize rest

/-- The number of values in some members. -/
def membersSize : List (String × Json) → Nat
  | [] => 0
  | (_, value) :: rest => size value + membersSize rest

end

end Json

end SchemaLang
