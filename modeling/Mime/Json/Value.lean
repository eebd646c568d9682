import Mime.Decimal.Binary64

/-! # JSON values

Numbers are integers of 64 bits where the document has them so, and binary64 numbers otherwise.
The members of an object are sorted by name, and the last of several with one name counts. -/

namespace Mime.Json

/-- A number: an unsigned integer, a negative integer given by its absolute value, or a finite
binary64 number. -/
inductive Number where
  | natural (n : Nat)
  | negative (n : Nat)
  | float (x : Binary64)
deriving DecidableEq, Repr

/-- A JSON value. -/
inductive Value where
  | null
  | bool (b : Bool)
  | number (n : Number)
  | string (s : String)
  | array (items : List Value)
  | object (members : List (String × Value))
deriving Repr

/-- Puts a member at its place among sorted members, instead of one of the same name. -/
def insertMember (name : String) (v : Value) : List (String × Value) → List (String × Value)
  | [] => [(name, v)]
  | e :: rest =>
    if name < e.1 then (name, v) :: e :: rest
    else if name = e.1 then (name, v) :: rest
    else e :: insertMember name v rest

/-- The object of members given one after the other. -/
def Value.ofMembers (members : List (String × Value)) : Value :=
  .object (members.foldl (fun done e => insertMember e.1 e.2 done) [])

/-- The greatest unsigned integer. -/
def maxNatural : Nat := UInt64.size - 1

/-- The greatest absolute value of a negative integer. -/
def maxNegative : Nat := UInt64.size / 2

/-- The number that an integer without fraction and exponent stands for: an integer if it fits,
otherwise, and for minus zero, a binary64 number. -/
def Number.ofInteger? (negative : Bool) (n count : Nat) : Option Number :=
  if negative then
    if 0 < n ∧ n ≤ maxNegative then some (.negative n)
    else (Binary64.ofDecimal? true n count 0).map .float
  else if n ≤ maxNatural then some (.natural n)
  else (Binary64.ofDecimal? false n count 0).map .float

end Mime.Json
