import DualSql.Text.Numeral

/-! # JSON values

Objects keep the order in which their keys were first written. A number is
kept as it is spelled. -/

namespace DualSql

/-- A JSON value. -/
inductive Json where
  | null
  | bool (value : Bool)
  | number (literal : String)
  | string (value : String)
  | array (items : List Json)
  | object (members : List (String × Json))
  deriving Inhabited, Repr

namespace Json

/-- Sets a member: a key that is present keeps its place, a new one comes last. -/
def insertMember (key : String) (value : Json) :
    List (String × Json) → List (String × Json)
  | [] => [(key, value)]
  | (k, v) :: rest =>
    if k = key then (k, value) :: rest else (k, v) :: insertMember key value rest

/-- The object with the given members; of equal keys the last value counts. -/
def ofMembers (members : List (String × Json)) : Json :=
  object (members.foldl (fun acc m => insertMember m.1 m.2 acc) [])

/-- The members of an object. -/
def members? : Json → Option (List (String × Json))
  | object members => some members
  | _ => none

/-- The value of a member of an object. -/
def get? (j : Json) (key : String) : Option Json :=
  j.members?.bind (·.lookup key)

/-- The text of a string. -/
def string? : Json → Option String
  | string s => some s
  | _ => none

/-- The items of an array. -/
def items? : Json → Option (List Json)
  | array items => some items
  | _ => none

/-- The value of a truth value. -/
def bool? : Json → Option Bool
  | bool b => some b
  | _ => none

/-- The number that a literal without sign, point and exponent spells. -/
def nat? : Json → Option Nat
  | number literal =>
    if literal.toList.all Char.isDigit then
      some (Text.ofDigits literal.toList)
    else none
  | _ => none

/-- A natural number. -/
def ofNat (n : Nat) : Json :=
  number (toString n)

end Json

end DualSql
