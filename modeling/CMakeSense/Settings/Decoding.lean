import CMakeSense.Settings.Config
import CMakeSense.Settings.Duration
import CMakeSense.Text.Base64
import CMakeSense.Text.Quoted
import CMakeSense.Yaml.Document

/-! The configuration that a settings document gives. Its root is a mapping from the names of fields
to their values; other keys are ignored, and a field without a value keeps what it has. A mapping
can merge others into itself, and then its own entries win over theirs, and those of the first of
them over the rest. What does not fit a field is complained of, and the reading goes on, so that one
error names all complaints. -/

namespace CMakeSense.Settings

open Yaml (Node Document Kind)

/-- What a node can be decoded into. -/
inductive Target where
  | text | interval | config
  deriving DecidableEq, Repr

def Target.name : Target → Text
  | .text => utf8 "string"
  | .interval => utf8 "time.Duration"
  | .config => utf8 "codebase.Config"

/-- What is wrong with a node of a well-formed document. -/
inductive Complaint where
  /-- A key of a mapping is there twice: where, its text, and where it is for the first time. -/
  | repeatedKey (line : Nat) (key : Text) (first : Nat)
  /-- Two keys name the same field. -/
  | repeatedField (line : Nat) (name : Text)
  /-- A node is no value of a target. The value of a collection is empty. -/
  | wrongType (line : Nat) (tag value : Text) (target : Target)
  deriving DecidableEq, Repr

/-- How many bytes of a value are shown in full, and how many of a longer one. -/
def shownLimit : Nat × Nat := (10, 7)

/-- The value of a node as complaints show it after the tag. After the tag of a collection nothing
is expected, and a value is not set off from it. -/
def shownValue (tag value : Text) : Text :=
  if tag = Node.sequenceTag || tag = Node.mappingTag then value
  else
    let shown :=
      if value.length ≤ shownLimit.1 then value else value.take shownLimit.2 ++ utf8 "..."
    utf8 " \x60" ++ shown ++ utf8 "\x60"

def Complaint.message : Complaint → Text
  | .repeatedKey line key first =>
    utf8 "line " ++ Numeral.decimal line ++ utf8 ": mapping key " ++ key.quoted ++
      utf8 " already defined at line " ++ Numeral.decimal first
  | .repeatedField line name =>
    utf8 "line " ++ Numeral.decimal line ++ utf8 ": field " ++ name ++
      utf8 " already set in type " ++ Target.config.name
  | .wrongType line tag value target =>
    utf8 "line " ++ Numeral.decimal line ++ utf8 ": cannot unmarshal " ++ tag ++
      shownValue tag value ++ utf8 " into " ++ target.name

/-- Why a text gives no configuration. -/
inductive Fault where
  | malformed (error : Yaml.Error)
  | selfContained (name : Text)
  | excessiveAliases
  | badMerge
  | badBinary
  /-- The tag of a scalar asks for another kind. -/
  | otherKind (found : Kind) (value tag : Text)
  | complaints (all : List Complaint)

/-- What is wrong with a text that is no document. -/
def problemOf : Yaml.Error → Text
  | .unreadable fault => fault.message
  | .malformed problem .. => problem.message
  | .misplaced problem .. => problem.message
  | .unknownAnchor name => utf8 "unknown anchor '" ++ name ++ utf8 "' referenced"

def Fault.message (fault : Fault) : Text :=
  utf8 "yaml: " ++ match fault with
    | .malformed error =>
      match error.line? with
      | some line => utf8 "line " ++ Numeral.decimal line ++ utf8 ": " ++ problemOf error
      | none => problemOf error
    | .selfContained name => utf8 "anchor '" ++ name ++ utf8 "' value contains itself"
    | .excessiveAliases => utf8 "document contains excessive aliasing"
    | .badMerge => utf8 "map merge requires map or sequence of maps as the value"
    | .badBinary => utf8 "!!binary value contains invalid base64 data"
    | .otherKind found value tag =>
      utf8 "cannot decode " ++ found.tag ++ utf8 " \x60" ++ value ++ utf8 "\x60 as a " ++ tag
    | .complaints all =>
      utf8 "unmarshal errors:\n  " ++ Text.join (utf8 "\n  ") (all.map Complaint.message)

/-! ### Counting -/

/-- How far decoding has come. -/
structure Progress where
  /-- The complaints so far, the last one first. -/
  complaints : List Complaint
  /-- The number of nodes that have been decoded. -/
  decoded : Nat
  /-- How many of them were reached through aliases. -/
  aliased : Nat
  /-- The aliases that are being followed. -/
  active : List Yaml.Mark

abbrev Decode := StateT Progress (Except Fault)

/-- Whether too large a part of the nodes was reached through aliases: more than 99 percent of up to
400,000 nodes, and from there on less and less down to 10 percent of 4,000,000 nodes. -/
def isExcessive (decoded aliased : Nat) : Bool :=
  100 < aliased && 1000 < decoded &&
    if decoded ≤ 400000 then 99 * decoded < 100 * aliased
    else if 4000000 ≤ decoded then decoded < 10 * aliased
    else
      (99 * 3600000 - 89 * (decoded - 400000)) * decoded < 100 * 3600000 * aliased

/-- Counts a node. -/
def count : Decode Unit := do
  let p ← get
  let p := { p with
    decoded := p.decoded + 1
    aliased := if p.active.isEmpty then p.aliased else p.aliased + 1 }
  if isExcessive p.decoded p.aliased then throw .excessiveAliases
  set p

def complain (complaint : Complaint) : Decode Unit :=
  modify fun p => { p with complaints := complaint :: p.complaints }

/-- Decodes a node, or the node that it is an alias of. -/
def visit {α : Type} (document : Document) (node : Node) (decode : Node → Decode α) :
    Decode α := do
  count
  match node with
  | .alias start name anchor =>
    if (← get).active.contains start then throw (.selfContained name)
    modify fun p => { p with active := start :: p.active }
    count
    let result ← decode (document.find anchor)
    modify fun p => { p with active := p.active.erase start }
    return result
  | _ => decode node

/-! ### Scalars -/

/-- What a scalar gives. -/
inductive Value where
  | null
  | text (value : Text)
  /-- A truth value, a number or a point in time, as it is written. -/
  | other (written : Text)

/-- The value of a scalar with a tag. A tag that no kind has makes a text. -/
def valueOf (tag value : Text) : Except Fault Value :=
  if tag = Node.binaryTag then
    match Base64.decode? value with
    | some bytes => .ok (.text bytes)
    | none => .error .badBinary
  else match Kind.tagged.lookup tag with
    | none => .ok (.text value)
    | some wanted =>
      let found := Kind.ofText (wanted = .timestamp) value
      if !found.serves wanted then .error (.otherKind found value tag)
      else .ok (if found = .null then .null else .other value)

/-- Complains that a node is no value of a target. -/
def complainOf (node : Node) (target : Target) : Decode Unit :=
  match node with
  | .scalar _ tag value => complain (.wrongType node.line tag value target)
  | .sequence _ tag _ | .mapping _ tag _ => complain (.wrongType node.line tag [] target)
  | .alias .. => pure ()

/-! ### Mappings -/

/-- The complaints of the keys that are there more than once. -/
def repeatedKeys : List (Node × Node) → List Complaint
  | [] => []
  | (key, _) :: entries =>
    (entries.filter fun entry => key.sameKey entry.1).map
        (fun entry => Complaint.repeatedKey entry.1.line entry.1.text key.line) ++
      repeatedKeys entries

/-- Complains of a node that is no scalar, where a scalar is needed. -/
def refuseCollection (node : Node) (target : Target) : Decode Unit :=
  match node with
  | .mapping _ _ entries =>
    match repeatedKeys entries with
    | [] => complainOf node target
    | repeated => repeated.forM complain
  | _ => complainOf node target

/-- Decodes a text. -/
def decodeText (node : Node) : Decode (Option Text) := do
  match node with
  | .scalar _ tag value =>
    match ← (valueOf tag value : Except Fault Value) with
    | .null => return none
    | .text value | .other value => return some value
  | _ =>
    refuseCollection node .text
    return none

/-- Decodes a length of time. A number alone is none. -/
def decodeInterval (node : Node) : Decode (Option Int) := do
  match node with
  | .scalar _ tag value =>
    match ← (valueOf tag value : Except Fault Value) with
    | .null => return none
    | .text value =>
      match Duration.parse value with
      | .ok interval => return some interval
      | .error _ =>
        complainOf node .interval
        return none
    | .other _ =>
      complainOf node .interval
      return none
  | _ =>
    refuseCollection node .interval
    return none

/-- The fields of a configuration. -/
inductive Field where
  | modulesDir | subdirectories | watchInterval
  deriving DecidableEq, Repr

/-- The fields with their names. -/
def fields : List (Text × Field) :=
  [(utf8 "modules_dir", .modulesDir), (utf8 "subdirectories", .subdirectories),
    (utf8 "watch_interval", .watchInterval)]

/-- Decodes a value into a field. -/
def Field.set (field : Field) (document : Document) (config : Config) (value : Node) :
    Decode Config := do
  match field with
  | .modulesDir =>
    let text? ← visit document value decodeText
    return { config with modulesDir := text?.getD config.modulesDir }
  | .subdirectories =>
    let text? ← visit document value decodeText
    return { config with subdirectories := text?.getD config.subdirectories }
  | .watchInterval =>
    let interval? ← visit document value decodeInterval
    return { config with watchInterval := interval?.getD config.watchInterval }

/-- A configuration while the entries of a mapping are decoded into it. -/
structure Draft where
  config : Config
  /-- The keys that have been met, when mappings are merged; those of later mappings are ignored. -/
  met? : Option (List Text)
  /-- The fields of this mapping that are set. -/
  done : List Field
  /-- What is to be merged. -/
  merge? : Option Node

/-- Decodes an entry of a mapping. -/
def Draft.add (document : Document) (draft : Draft) (entry : Node × Node) : Decode Draft := do
  let (key, value) := entry
  if key.isMerge then return { draft with merge? := some value }
  let some name ← visit document key decodeText | return draft
  if draft.met?.any (·.contains name) then return draft
  let draft := { draft with met? := draft.met?.map (name :: ·) }
  let some field := fields.lookup name | return draft
  if draft.done.contains field then
    complain (.repeatedField key.line name)
    return draft
  let config ← field.set document draft.config value
  return { draft with config, done := field :: draft.done }

/-- The keys of a mapping that are texts. -/
def textKeys (document : Document) (entries : List (Node × Node)) : Decode (List Text) :=
  entries.filterMapM fun (key, _) => visit document key fun node => do
    match node with
    | .scalar _ tag value =>
      match ← (valueOf tag value : Except Fault Value) with
      | .text name => return some name
      | _ => return none
    | _ => return none

/-- Whether a node is a mapping or an alias of one. -/
def isMapping (document : Document) (node : Node) : Bool :=
  match node with
  | .alias _ _ anchor => (document.find anchor).isMapping
  | _ => node.isMapping

/-- The nodes that are merged one after the other. -/
def mergedNodes (node : Node) : List Node :=
  match node with
  | .sequence _ _ items => items
  | _ => [node]

/-- Decodes a node that is no alias into a configuration. `met?` holds the keys that have been met,
when mappings are merged, and is given back with those of this one. `fuel` bounds how deep mappings
are merged. -/
def decodeConfig (document : Document) :
    Nat → Config → Option (List Text) → Node → Decode (Config × Option (List Text))
  | 0, config, met?, _ => return (config, met?)
  | fuel + 1, config, met?, node => do
    match node with
    | .mapping _ _ entries =>
      let repeated := repeatedKeys entries
      if !repeated.isEmpty then
        repeated.forM complain
        return (config, met?)
      let draft ← entries.foldlM (Draft.add document) ⟨config, met?, [], none⟩
      match draft.merge? with
      | none => return (draft.config, draft.met?)
      | some merge =>
        let met ← match draft.met? with
          | some met => pure met
          | none => textKeys document entries
        let (config, met) ← (mergedNodes merge).foldlM (fun (config, met) node => do
          if !isMapping document node then throw .badMerge
          let (config, met?) ← visit document node (decodeConfig document fuel config (some met))
          return (config, met?.getD met)) (draft.config, met)
        return (config, draft.met?.map fun _ => met)
    | .scalar _ tag value =>
      match ← (valueOf tag value : Except Fault Value) with
      | .null => return (config, met?)
      | _ =>
        complainOf node .config
        return (config, met?)
    | _ =>
      complainOf node .config
      return (config, met?)

/-- Decodes the root of a document. -/
def decodeRoot (document : Document) (fuel : Nat) (config : Config) : Decode Config := do
  count
  let (config, _) ← visit document document.root (decodeConfig document fuel config none)
  return config

/-- The configuration that a text makes of another one. A text without a document changes nothing.
-/
def decode (config : Config) (t : Text) : Except Fault Config := do
  match ← (Document.read? t).mapError Fault.malformed with
  | none => return config
  | some document =>
    let depth := t.length + 1
    let (config, progress) ← (decodeRoot document (depth * depth) config).run ⟨[], 0, 0, []⟩
    if progress.complaints.isEmpty then return config
    else throw (.complaints progress.complaints.reverse)

end CMakeSense.Settings
