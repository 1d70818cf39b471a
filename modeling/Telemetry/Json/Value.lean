import Telemetry.Decimal.Layout
import Telemetry.Table

/-!
# JSON values

A JSON value keeps integers and doubles apart. The members of an object that has been normalized
stand in ascending order of their keys, each key once; a text that has just been read keeps its
members as they were written.
-/

namespace Telemetry

/-- A number of a JSON text. -/
inductive JsonNumber
  /-- An integer from zero up, below `2 ^ 64`. -/
  | natural (n : Nat)
  /-- The integer `-n`, with `0 < n ≤ 2 ^ 63`. -/
  | negative (n : Nat)
  /-- Every other number. -/
  | double (x : Binary64)
deriving DecidableEq, Repr

/-- A JSON value. -/
inductive Json
  | null
  | bool (b : Bool)
  | number (n : JsonNumber)
  | string (s : String)
  | array (items : List Json)
  | object (members : List (String × Json))
deriving Inhabited, Repr

namespace Json

/-- A natural number. -/
def ofNat (n : Nat) : Json := .number (.natural n)

/-- An integer. -/
def ofInt (i : Int) : Json :=
  if i < 0 then .number (.negative i.natAbs) else .number (.natural i.toNat)

/-- A double. -/
def ofBinary64 (x : Binary64) : Json := .number (.double x)

/-- The members in order of their keys; of two members with one key the later wins. -/
def ofMembers (members : List (String × Json)) : Json := .object (Table.ofList members)

/-- A text, or null. -/
def ofOption (s : Option String) : Json := s.elim .null .string

mutual

/-- Puts the members of every object inside into order. -/
def normalize : Json → Json
  | array items => .array (normalizeItems items)
  | object members => .object (normalizeMembers members [])
  | v => v

/-- Normalizes the items of an array. -/
def normalizeItems : List Json → List Json
  | [] => []
  | v :: rest => normalize v :: normalizeItems rest

/-- Normalizes the members of an object, those before them given. -/
def normalizeMembers : List (String × Json) → Table String Json → Table String Json
  | [], done => done
  | (k, v) :: rest, done => normalizeMembers rest (Table.insert k (normalize v) done)

end

/-- The member of an object with a given key. -/
def get? (key : String) : Json → Option Json
  | object members => Table.get? key members
  | _ => none

mutual

/-- Whether two normalized values are the same, doubles being compared by their bits. -/
def same : Json → Json → Bool
  | null, null => true
  | bool a, bool b => a == b
  | number a, number b => a == b
  | string a, string b => a == b
  | array as, array bs => sameItems as bs
  | object as, object bs => sameMembers as bs
  | _, _ => false

/-- Whether two lists of values are the same. -/
def sameItems : List Json → List Json → Bool
  | [], [] => true
  | a :: as, b :: bs => same a b && sameItems as bs
  | _, _ => false

/-- Whether two lists of members are the same. -/
def sameMembers : List (String × Json) → List (String × Json) → Bool
  | [], [] => true
  | (k, a) :: as, (l, b) :: bs => k == l && same a b && sameMembers as bs
  | _, _ => false

end

instance : BEq Json := ⟨same⟩

end Json

end Telemetry
