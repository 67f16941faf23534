import JsonShape.Yaml.Layout
import JsonShape.Yaml.Scalar
import JsonShape.Yaml.Tree

/-!
# Reading a YAML document for what is expected

What a scalar stands for depends on what is expected. Where a text is expected, `true` and `1.0` are
texts like any other; where anything may stand they are a truth value and a number. A `Form` says
what is expected, and `read?` gives the document as the tree that a JSON text of the same content
would be read into. So everything that is decoded from JSON can be decoded from YAML too, by the
same decoder, as soon as it has a form.

Collections may be nested 128 deep, and an alias may be followed a hundred times for every node of
the document. Parts that the form does not mention are not looked at.
-/

namespace JsonShape.Yaml

/-- What is expected of a document or a part of it. -/
inductive Form where
  /-- A text: any scalar, as it is written. -/
  | text
  /-- A text or nothing. -/
  | optionalText
  /-- A truth value. -/
  | flag
  /-- One of several words, which may also be given as a local tag of nothing. -/
  | choice
  /-- A sequence, which may also be left empty. -/
  | listOf (item : Form)
  /-- A mapping with the named keys, which may also be left empty. -/
  | record (fields : List (String × Form))
  /-- Anything, in which a word stands under the key of the tag, or in front of a sequence. -/
  | tagged (tag : String)

/-- Reading with a number of aliases that may still be followed. -/
abbrev Unfolding := StateT Nat Option

/-- The nodes that aliases refer to; of a number the last node stands first. -/
abbrev Targets := List (Nat × Tree)

/-- The node itself, or the node that an alias refers to. -/
def Targets.follow (targets : Targets) : Tree → Unfolding Tree
  | .alias id => do
    match ← get, targets.lookup id with
    | n + 1, some tree =>
      set n
      return tree
    | _, _ => failure
  | tree => return tree

/-- The text of a scalar. -/
def Targets.text (targets : Targets) (tree : Tree) : Unfolding String := do
  match ← targets.follow tree with
  | .scalar _ _ text => return text
  | _ => failure

/-- Any content. A collection with a local tag is something else than a value. -/
def Targets.content (targets : Targets) (depth : Nat) (tree : Tree) : Unfolding Node := do
  match ← targets.follow tree, depth with
  | .scalar label style text, _ => scalarNode? label.tag style text
  | .sequence label items, depth + 1 =>
    if (localName? label.tag).isSome then failure
    return .sequence (← items.mapM (targets.content depth))
  | .mapping label entries, depth + 1 =>
    if (localName? label.tag).isSome then failure
    return .mapping (← entries.mapM fun (key, value) => do
      return (← targets.content depth key, ← targets.content depth value))
  | _, _ => failure

/-- A text or nothing. Nothing is a plain scalar that is empty or spells null; with the tag of null
it has to be spelled out, and with another tag it is a text. -/
def optionalText? (tag : Option Tag) (style : Style) (text : String) : Option Node :=
  if style ≠ .plain then some (.string text)
  else if tag = some (standardTag "null") then if isNullWord text then some .null else none
  else if tag.isNone ∧ (text.isEmpty ∨ isNullWord text) then some .null
  else some (.string text)

/-- A truth value: it is plain, or it has the tag of truth values and stands on a line of its
own. -/
def flag? (tag : Option Tag) (style : Style) (text : String) : Option Node :=
  if style = .plain ∨ (style = .literal ∧ tag = some (standardTag "bool")) then
    (truth? text).map .bool
  else none

/-- A word, or the name of a local tag of nothing. -/
def choice? (tag : Option Tag) (style : Style) (text : String) : Option Node :=
  match localName? tag with
  | none => some (.string text)
  | some name =>
    if style = .plain ∧ (text.isEmpty ∨ isNullWord text) then some (.string name) else none

/-- Whether a node is a plain scalar without content. -/
def Tree.isEmpty : Tree → Bool
  | .scalar _ .plain text => text.isEmpty
  | _ => false

/-- A part of a document as the form expects it. -/
def Targets.read (targets : Targets) (depth : Nat) (form : Form) (tree : Tree) :
    Unfolding Node := do
  let tree ← targets.follow tree
  match form, tree, depth with
  | .text, .scalar _ _ text, _ => return .string text
  | .optionalText, .scalar label style text, _ => optionalText? label.tag style text
  | .flag, .scalar label style text, _ => flag? label.tag style text
  | .choice, .scalar label style text, _ => choice? label.tag style text
  | .listOf item, .sequence _ items, depth + 1 =>
    return .sequence (← items.mapM (targets.read depth item))
  | .record fields, .mapping _ entries, depth + 1 =>
    let known ← entries.filterMapM fun (key, value) => do
      let name ← targets.text key
      match fields.lookup name with
      | some part => return some (Node.string name, ← targets.read depth part value)
      | none => return none
    return .mapping known
  | .tagged tag, .mapping label entries, depth + 1 =>
    if (localName? label.tag).isSome then failure
    return .mapping (← entries.mapM fun (key, value) => do
      match ← targets.content depth key with
      | .string word =>
        if word = tag then return (.string word, .string (← targets.text value))
        else return (.string word, ← targets.content depth value)
      | key => return (key, ← targets.content depth value))
  | .tagged _, .sequence label (first :: rest), depth + 1 =>
    if (localName? label.tag).isSome then failure
    let word ← targets.text first
    return .sequence (.string word :: (← rest.mapM (targets.content depth)))
  | .listOf _, tree, _ => if tree.isEmpty then return .sequence [] else failure
  | .record _, tree, _ => if tree.isEmpty then return .mapping [] else failure
  | _, _, _ => failure

/-- How deeply collections may be nested. -/
def maxDepth : Nat := 128

/-- The document of a text as the form expects it. -/
def read? (form : Form) (text : List Symbol) : Option Node := do
  let chars ← Symbol.chars? text
  let root ← root? (← tokens? chars)
  let reading := Targets.read root.targets.reverse maxDepth form root
  return (← reading.run (100 * root.size)).1

end JsonShape.Yaml
