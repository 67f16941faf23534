import JsonShape.Json.Number

/-!
# JSON values

The values that are checked, rebuilt and printed. An object is a list of entries. Where an object
stands for a value its entries are sorted by key and no key occurs twice (`Json.Canonical`);
`Json.insert` keeps that form. A document that is about to be printed uses the same type with its
entries in the order in which they are to be written.
-/

namespace JsonShape

/-- A JSON value. -/
inductive Json where
  /-- The null value. -/
  | null
  /-- A truth value. -/
  | bool (b : Bool)
  /-- A number. -/
  | number (n : Number)
  /-- A string. -/
  | string (s : String)
  /-- A sequence of values. -/
  | array (items : List Json)
  /-- Keys with their values. -/
  | object (entries : List (String × Json))

namespace Json

/-- The entries with `key` set to `value`, at its place in key order. -/
def insert (key : String) (value : Json) : List (String × Json) → List (String × Json)
  | [] => [(key, value)]
  | (k, v) :: rest =>
    if key < k then (key, value) :: (k, v) :: rest
    else if key = k then (key, value) :: rest
    else (k, v) :: insert key value rest

/-- The value of a key. -/
def find? (key : String) : List (String × Json) → Option Json
  | [] => none
  | (k, v) :: rest => if k = key then some v else find? key rest

/-- The keys in the order of the entries. -/
def keys (entries : List (String × Json)) : List String := entries.map Prod.fst

/-- Entries sorted by key; of several with one key the last is kept. -/
def ofEntries (entries : List (String × Json)) : List (String × Json) :=
  entries.foldl (fun sorted (k, v) => insert k v sorted) []

mutual

/-- Whether two values are equal: numbers of the same form with the same value, and everything else
literally the same. -/
def same : Json → Json → Bool
  | .null, .null => true
  | .bool a, .bool b => a == b
  | .number a, .number b => a.identical b
  | .string a, .string b => a == b
  | .array as, .array bs => sameItems as bs
  | .object as, .object bs => sameEntries as bs
  | _, _ => false

/-- Equality of item lists. -/
def sameItems : List Json → List Json → Bool
  | [], [] => true
  | a :: as, b :: bs => same a b && sameItems as bs
  | _, _ => false

/-- Equality of entry lists. -/
def sameEntries : List (String × Json) → List (String × Json) → Bool
  | [], [] => true
  | (k, a) :: as, (l, b) :: bs => k == l && same a b && sameEntries as bs
  | _, _ => false

end

mutual

/-- How deeply arrays and objects are nested. -/
def depth : Json → Nat
  | .array items => depthItems items + 1
  | .object entries => depthEntries entries + 1
  | _ => 0

/-- The greatest depth among items. -/
def depthItems : List Json → Nat
  | [] => 0
  | item :: rest => max (depth item) (depthItems rest)

/-- The greatest depth among entries. -/
def depthEntries : List (String × Json) → Nat
  | [] => 0
  | (_, value) :: rest => max (depth value) (depthEntries rest)

end

mutual

/-- A value in canonical form: at every depth the keys of an object are sorted and distinct. -/
def Canonical : Json → Prop
  | .array items => CanonicalItems items
  | .object entries => (keys entries).Pairwise (· < ·) ∧ CanonicalEntries entries
  | _ => True

/-- Every item is canonical. -/
def CanonicalItems : List Json → Prop
  | [] => True
  | item :: rest => Canonical item ∧ CanonicalItems rest

/-- Every entry's value is canonical. -/
def CanonicalEntries : List (String × Json) → Prop
  | [] => True
  | (_, value) :: rest => Canonical value ∧ CanonicalEntries rest

end

end Json

end JsonShape
