import JsonShape.Json.Basic
import JsonShape.Json.Fault

/-!
# Document trees

A document is first read into a tree of nodes and then decoded from it. The tree keeps what a value
(`Json`) forgets: entries in the order of the text, keys that occur twice, and the place where
reading stopped. When a text turns out not to be well-formed, the tree that was read so far ends in
a `broken` node. Whoever decodes a tree walks it in the order of the text, so of a fault of content
and a fault of form the one that comes first in the text is reported.

`Interest` says which parts of a text a reader wants. A member that nobody asked for is only
skipped over: it must be well-formed, but its numbers, its characters and its depth are not looked
at.
-/

namespace JsonShape

/-- A node of a document tree. -/
inductive Node where
  /-- The null value. -/
  | null
  /-- A truth value. -/
  | bool (b : Bool)
  /-- A number. -/
  | number (n : Number)
  /-- The integer zero with a minus sign. As a value it is zero, but it numbers no field. -/
  | minusZero
  /-- An infinity or something that is no number. -/
  | nonFinite
  /-- A string. -/
  | string (s : String)
  /-- A sequence; a `broken` item can only be the last. -/
  | sequence (items : List Node)
  /-- Entries in the order of the text; a `broken` key or value can only be in the last. -/
  | mapping (entries : List (Node × Node))
  /-- Reading stopped here. -/
  | broken (fault : Fault)

/-- The part of a document that a reader asks for. -/
inductive Interest where
  /-- The whole value. -/
  | whole
  /-- A record of the named fields, which may also be written as the sequence of their values. -/
  | record (fields : List (String × Interest))
  /-- A sequence of parts. -/
  | listOf (item : Interest)

/-- The parts a reader of a sequence asks for: one for each item, or a fixed list of them. -/
inductive Supply where
  /-- Any number of items. -/
  | each (item : Interest)
  /-- As many items as there are parts left. -/
  | fixed (parts : List Interest)

/-- What the items of a sequence are read for. -/
def Interest.supply : Interest → Supply
  | .whole => .each .whole
  | .listOf item => .each item
  | .record fields => .fixed (fields.map Prod.snd)

/-- What is asked for of the member with a key; `none` if nobody asks for it. -/
def Interest.member (key : String) : Interest → Option Interest
  | .record fields => fields.lookup key
  | _ => some .whole

namespace Node

mutual

/-- The fault at which reading stopped. -/
def fault? : Node → Option Fault
  | .broken f => some f
  | .sequence items => faultItems? items
  | .mapping entries => faultEntries? entries
  | _ => none

/-- The fault inside a list of items. -/
def faultItems? : List Node → Option Fault
  | [] => none
  | item :: rest => (fault? item).or (faultItems? rest)

/-- The fault inside a list of entries. -/
def faultEntries? : List (Node × Node) → Option Fault
  | [] => none
  | (key, value) :: rest => ((fault? key).or (fault? value)).or (faultEntries? rest)

end

/-- What a node is found to be where something else was expected. -/
def found : Node → Found
  | .null => .null
  | .bool b => .boolean b
  | .number n => .ofNumber n
  | .minusZero => .integer 0
  | .nonFinite => .float (Double.zero false)
  | .string s => .string s
  | .sequence _ => .sequence
  | .mapping _ => .map
  | .broken _ => .null

/-- The refusal of a node of the wrong kind. A node at which reading stopped is refused for the
reason it stopped. -/
def refuse {α : Type} (expected : String) : Node → Except Fault α
  | .broken f => .error f
  | node => .error (.mismatch (.wrongKind node.found expected))

/-- The string a node holds. -/
def string? : Node → Except Fault String
  | .string s => .ok s
  | node => node.refuse "a string"

/-- The truth value a node holds. -/
def bool? : Node → Except Fault Bool
  | .bool b => .ok b
  | node => node.refuse "a boolean"

/-- An optional string: the null value stands for none. -/
def optionalString? : Node → Except Fault (Option String)
  | .null => .ok none
  | .string s => .ok (some s)
  | node => node.refuse "a string"

/-- Success if reading went through, and otherwise the fault at which it stopped. -/
def whole (node : Node) : Except Fault Unit :=
  match node.fault? with
  | some f => .error f
  | none => .ok ()

mutual

/-- The part of a value that a reader asks for, as a tree. A record written as a sequence must not
have more items than fields. -/
def ofJson (interest : Interest) : Json → Node
  | .null => .null
  | .bool b => .bool b
  | .number n => .number n
  | .string s => .string s
  | .array items => .sequence (ofItems items.length interest.supply items)
  | .object entries => .mapping (ofEntries interest entries)

/-- The trees of items, of which there are `total` in all. -/
def ofItems (total : Nat) (supply : Supply) : List Json → List Node
  | [] => []
  | item :: rest =>
    match supply with
    | .each part => ofJson part item :: ofItems total supply rest
    | .fixed [] => [.broken (.mismatch (.wrongLength total "fewer elements in array"))]
    | .fixed (part :: parts) => ofJson part item :: ofItems total (.fixed parts) rest

/-- The trees of the entries that are asked for. -/
def ofEntries (interest : Interest) : List (String × Json) → List (Node × Node)
  | [] => []
  | (key, value) :: rest =>
    match interest.member key with
    | some part => (.string key, ofJson part value) :: ofEntries interest rest
    | none => ofEntries interest rest

end

mutual

/-- The value of a tree: entries sorted by key, the last of several with one key kept. -/
def toJson : Node → Except Fault Json
  | .null => .ok .null
  | .bool b => .ok (.bool b)
  | .number n => .ok (.number n)
  | .minusZero => .ok (.number .zero)
  | .nonFinite => .ok .null
  | .string s => .ok (.string s)
  | .sequence items => do .ok (.array (← toItems items))
  | .mapping entries => do .ok (.object (Json.ofEntries (← toEntries entries)))
  | .broken f => .error f

/-- The values of items. -/
def toItems : List Node → Except Fault (List Json)
  | [] => .ok []
  | item :: rest => do
    let value ← toJson item
    .ok (value :: (← toItems rest))

/-- The entries of a tree; every key is a string. -/
def toEntries : List (Node × Node) → Except Fault (List (String × Json))
  | [] => .ok []
  | (key, value) :: rest => do
    let k ← key.string?
    let v ← toJson value
    .ok ((k, v) :: (← toEntries rest))

end

end Node

end JsonShape
