import CMakeSense.Yaml.Resolution
import CMakeSense.Yaml.Token

/-! The nodes of a document. Every node has a tag in its short form, and begins at a place. An alias
stands for the node of an anchor, which can be a node around it, so a document lists the nodes of
its anchors apart. -/

namespace CMakeSense.Yaml

inductive Node where
  | scalar (start : Mark) (tag value : Text)
  | sequence (start : Mark) (tag : Text) (items : List Node)
  | mapping (start : Mark) (tag : Text) (entries : List (Node × Node))
  /-- Stands for the node of the anchor with a number. -/
  | alias (start : Mark) (name : Text) (anchor : Nat)

namespace Node

def start : Node → Mark
  | .scalar start .. | .sequence start .. | .mapping start .. | .alias start .. => start

/-- The line of a node, counted from one. -/
def line (node : Node) : Nat := node.start.line + 1

def sequenceTag : Text := shortTag "seq"

def mappingTag : Text := shortTag "map"

def textTag : Text := shortTag "str"

def mergeTag : Text := shortTag "merge"

def binaryTag : Text := shortTag "binary"

/-- The key that merges mappings into the one around it. -/
def mergeKey : Text := utf8 "<<"

/-- What the tags of the language begin with in their long form. -/
def longTagStart : Text := utf8 "tag:yaml.org,2002:"

/-- A tag in its short form. -/
def shorten (tag : Text) : Text :=
  match Text.dropPrefix? longTagStart tag with
  | some name => utf8 "!!" ++ name
  | none => tag

/-- The tag of a node: the one that is written, unless it is missing or a lone exclamation mark. -/
def tagOr (written default : Text) : Text :=
  if written.isEmpty || written = utf8 "!" then default else shorten written

/-- A scalar with the tag that is written at it. -/
def ofScalar (start : Mark) (written value : Text) (style : Style) : Node :=
  let default :=
    if style ≠ .plain then textTag
    else if value = mergeKey then mergeTag
    else (Kind.ofText true value).tag
  .scalar start (tagOr written default) value

/-- The node where nothing is written. -/
def absent (start : Mark) : Node := ofScalar start [] [] .plain

/-- Whether a node is a key that merges mappings. -/
def isMerge : Node → Bool
  | .scalar _ tag value => value = mergeKey && tag = mergeTag
  | _ => false

def isMapping : Node → Bool
  | .mapping .. => true
  | _ => false

/-- Whether two nodes are the same key: scalars of the same text, aliases of the same name, or any
two collections of a kind. -/
def sameKey : Node → Node → Bool
  | .scalar _ _ a, .scalar _ _ b => a = b
  | .alias _ a _, .alias _ b _ => a = b
  | .sequence .., .sequence .. | .mapping .., .mapping .. => true
  | _, _ => false

/-- The text of a scalar or the name of an alias. -/
def text : Node → Text
  | .scalar _ _ value => value
  | .alias _ name _ => name
  | _ => []

end Node

structure Document where
  root : Node
  /-- The nodes that have anchors, with the numbers of these. -/
  anchored : List (Nat × Node)

/-- The node of an anchor. -/
def Document.find (document : Document) (anchor : Nat) : Node :=
  (document.anchored.lookup anchor).getD (Node.absent ⟨0, 0, 0⟩)

end CMakeSense.Yaml
