import CMakeSense.Yaml.Node
import CMakeSense.Yaml.Stream.Fetch

/-! Reading a document from the tokens of a file. The first document of a file is read, and what
follows it is looked at only as far as its tokens go. -/

namespace CMakeSense.Yaml

/-- How far the reading of a document has come. -/
structure Reader where
  stream : Stream
  /-- What the handles of tags stand for. -/
  handles : List (Text × Text)
  /-- The names of the anchors so far with their numbers, the last one first. -/
  anchors : List (Text × Nat)
  /-- The nodes that have anchors and are complete. -/
  anchored : List (Nat × Node)

abbrev Read := StateT Reader (Except Error)

namespace Read

/-- The next token, which stays. -/
def peek : Read Token := do
  let reader ← get
  let (token, stream) ← reader.stream.peek
  set { reader with stream }
  return token

/-- Takes the token that was looked at. -/
def skip : Read Unit := modify fun reader => { reader with stream := reader.stream.tail }

/-- Takes the token that was looked at, and looks at the next one. -/
def advance : Read Token := do
  skip
  peek

/-- Fails at a token. -/
def misplaced {α : Type} (problem : Problem) (context? : Option Mark) (token : Token) : Read α :=
  throw (.misplaced problem context? token.start)

/-! ### Properties -/

/-- The anchor and the tag of a node, where it begins, and the token of its content. -/
structure Properties where
  start : Mark
  anchor? : Option Text
  /-- The handle and the suffix of the tag, and where it is. -/
  tag? : Option (Text × Text × Mark)
  content : Token

/-- Reads an anchor and a tag in either order, both of which may be missing. -/
def properties : Read Properties := do
  let first ← peek
  match first.kind with
  | .anchor name =>
    let second ← advance
    match second.kind with
    | .tag handle suffix =>
      return ⟨first.start, some name, some (handle, suffix, second.start), ← advance⟩
    | _ => return ⟨first.start, some name, none, second⟩
  | .tag handle suffix =>
    let second ← advance
    match second.kind with
    | .anchor name =>
      return ⟨first.start, some name, some (handle, suffix, first.start), ← advance⟩
    | _ => return ⟨first.start, none, some (handle, suffix, first.start), second⟩
  | _ => return ⟨first.start, none, none, first⟩

/-- The tag of a node in full; empty when none is written. -/
def tagOf (p : Properties) : Read Text := do
  match p.tag? with
  | none => return []
  | some (handle, suffix, mark) =>
    if handle.isEmpty then return suffix
    match (← get).handles.lookup handle with
    | some start => return start ++ suffix
    | none => throw (.misplaced .unknownHandle (some p.start) mark)

/-- Numbers the anchor of a node, if it has one. -/
def openAnchor (anchor? : Option Text) : Read (Option Nat) := do
  match anchor? with
  | none => return none
  | some name =>
    let reader ← get
    let number := reader.anchors.length
    set { reader with anchors := (name, number) :: reader.anchors }
    return some number

/-- Lists a node that is complete under the number of its anchor. -/
def closeAnchor (number? : Option Nat) (node : Node) : Read Node := do
  match number? with
  | none => return node
  | some number =>
    modify fun reader => { reader with anchored := (number, node) :: reader.anchored }
    return node

/-- The alias of a name. -/
def findAlias (start : Mark) (name : Text) : Read Node := do
  match (← get).anchors.lookup name with
  | some number => return .alias start name number
  | none => throw (.unknownAnchor name)

/-! ### Nodes

Collections are read up to their ends. `items` and `entries` hold what has been read of them, the
last one first, and `fuel` bounds the number of steps. -/

/-- Fails where the steps have run out. -/
def outOfFuel {α : Type} : Read α := do
  misplaced .tooDeep none (← peek)

mutual

/-- Reads a node. In a block it may be a block collection, and below a key a sequence that is not
indented further. -/
def node (block indentless : Bool) : Nat → Read Node
  | 0 => outOfFuel
  | fuel + 1 => do
    let first ← peek
    match first.kind with
    | .alias name =>
      let node ← findAlias first.start name
      skip
      return node
    | _ =>
      let p ← properties
      let tag ← tagOf p
      let number? ← openAnchor p.anchor?
      let node ← content block indentless p tag fuel
      closeAnchor number? node

/-- Reads the content of a node after its properties. -/
def content (block indentless : Bool) (p : Properties) (tag : Text) : Nat → Read Node
  | 0 => outOfFuel
  | fuel + 1 => do
    let start := p.content.start
    let sequence := Node.sequence p.start (Node.tagOr tag Node.sequenceTag)
    let mapping := Node.mapping p.start (Node.tagOr tag Node.mappingTag)
    match p.content.kind, block, indentless with
    | .blockEntry, _, true => return sequence (← indentlessItems [] fuel)
    | .scalar value style, _, _ =>
      skip
      return Node.ofScalar p.start tag value style
    | .flowSequenceStart, _, _ =>
      skip
      return sequence (← flowItems start true [] fuel)
    | .flowMappingStart, _, _ =>
      skip
      return mapping (← flowEntries start true [] fuel)
    | .blockSequenceStart, true, _ =>
      skip
      return sequence (← blockItems start [] fuel)
    | .blockMappingStart, true, _ =>
      skip
      return mapping (← blockEntries start [] fuel)
    | _, _, _ =>
      if p.anchor?.isSome || !tag.isEmpty then return Node.ofScalar p.start tag [] .plain
      else misplaced .missingContent (some p.start) p.content

/-- Reads the items of a block sequence that begins at `start`. -/
def blockItems (start : Mark) (items : List Node) : Nat → Read (List Node)
  | 0 => outOfFuel
  | fuel + 1 => do
    let token ← peek
    match token.kind with
    | .blockEntry =>
      let item ← match (← advance).kind with
        | .blockEntry | .blockEnd => pure (Node.absent token.start)
        | _ => node true false fuel
      blockItems start (item :: items) fuel
    | .blockEnd =>
      skip
      return items.reverse
    | _ => misplaced .missingHyphen (some start) token

/-- Reads the items of a sequence that is not indented further than its key. -/
def indentlessItems (items : List Node) : Nat → Read (List Node)
  | 0 => outOfFuel
  | fuel + 1 => do
    let token ← peek
    match token.kind with
    | .blockEntry =>
      let item ← match (← advance).kind with
        | .blockEntry | .key | .value | .blockEnd => pure (Node.absent token.start)
        | _ => node true false fuel
      indentlessItems (item :: items) fuel
    | _ => return items.reverse

/-- Reads the entries of a block mapping that begins at `start`. -/
def blockEntries (start : Mark) (entries : List (Node × Node)) : Nat → Read (List (Node × Node))
  | 0 => outOfFuel
  | fuel + 1 => do
    let token ← peek
    match token.kind with
    | .key =>
      let key ← match (← advance).kind with
        | .key | .value | .blockEnd => pure (Node.absent token.start)
        | _ => node true true fuel
      let value ← blockValue fuel
      blockEntries start ((key, value) :: entries) fuel
    | .blockEnd =>
      skip
      return entries.reverse
    | _ => misplaced .missingKey (some start) token

/-- Reads the value after a key of a block mapping. -/
def blockValue : Nat → Read Node
  | 0 => outOfFuel
  | fuel + 1 => do
    let token ← peek
    match token.kind with
    | .value =>
      match (← advance).kind with
      | .key | .value | .blockEnd => return Node.absent token.start
      | _ => node true true fuel
    | _ => return Node.absent token.start

/-- Reads the items of a flow sequence that begins at `start`. -/
def flowItems (start : Mark) (isFirst : Bool) (items : List Node) : Nat → Read (List Node)
  | 0 => outOfFuel
  | fuel + 1 => do
    let token ← peek
    if token.kind = .flowSequenceEnd then
      skip
      return items.reverse
    let token ←
      if isFirst then pure token
      else if token.kind = .flowEntry then advance
      else misplaced .missingCommaOrBracket (some start) token
    match token.kind with
    | .flowSequenceEnd =>
      skip
      return items.reverse
    | .key =>
      skip
      let entry ← flowPair fuel
      flowItems start false (.mapping token.start Node.mappingTag [entry] :: items) fuel
    | _ =>
      let item ← node false false fuel
      flowItems start false (item :: items) fuel

/-- Reads the only entry of a mapping inside a flow sequence. Where the key is missing, the token in
its place is passed over. -/
def flowPair : Nat → Read (Node × Node)
  | 0 => outOfFuel
  | fuel + 1 => do
    let token ← peek
    let key ← match token.kind with
      | .value | .flowEntry | .flowSequenceEnd =>
        skip
        pure (Node.absent token.start)
      | _ => node false false fuel
    let token ← peek
    match token.kind with
    | .value =>
      match (← advance).kind with
      | .flowEntry | .flowSequenceEnd => return (key, Node.absent token.start)
      | _ => return (key, ← node false false fuel)
    | _ => return (key, Node.absent token.start)

/-- Reads the entries of a flow mapping that begins at `start`. -/
def flowEntries (start : Mark) (isFirst : Bool) (entries : List (Node × Node)) :
    Nat → Read (List (Node × Node))
  | 0 => outOfFuel
  | fuel + 1 => do
    let token ← peek
    if token.kind = .flowMappingEnd then
      skip
      return entries.reverse
    let token ←
      if isFirst then pure token
      else if token.kind = .flowEntry then advance
      else misplaced .missingCommaOrBrace (some start) token
    match token.kind with
    | .flowMappingEnd =>
      skip
      return entries.reverse
    | .key =>
      let token ← advance
      let key ← match token.kind with
        | .value | .flowEntry | .flowMappingEnd => pure (Node.absent token.start)
        | _ => node false false fuel
      let value ← flowValue fuel
      flowEntries start false ((key, value) :: entries) fuel
    | _ =>
      let key ← node false false fuel
      let value := Node.absent (← peek).start
      flowEntries start false ((key, value) :: entries) fuel

/-- Reads the value after a key of a flow mapping. -/
def flowValue : Nat → Read Node
  | 0 => outOfFuel
  | fuel + 1 => do
    let token ← peek
    match token.kind with
    | .value =>
      let token ← advance
      match token.kind with
      | .flowEntry | .flowMappingEnd => return Node.absent token.start
      | _ => node false false fuel
    | _ => return Node.absent token.start

end

/-! ### Documents -/

/-- The handles that need no directive. -/
def defaultHandles : List (Text × Text) := [(utf8 "!", utf8 "!"), (utf8 "!!", Node.longTagStart)]

/-- Reads the directives of a document. There may be one version, which has to be 1.1, and every
handle is set once. -/
def directives (hasVersion : Bool) : Nat → Read Unit
  | 0 => outOfFuel
  | fuel + 1 => do
    let token ← peek
    match token.kind with
    | .versionDirective major minor =>
      if hasVersion then misplaced .repeatedVersion none token
      if major ≠ 1 || minor ≠ 1 then misplaced .otherVersion none token
      skip
      directives true fuel
    | .tagDirective handle start =>
      if ((← get).handles.lookup handle).isSome then misplaced .repeatedHandle none token
      modify fun reader => { reader with handles := reader.handles ++ [(handle, start)] }
      skip
      directives hasVersion fuel
    | _ => modify fun reader => { reader with handles := reader.handles ++ defaultHandles }

/-- Reads the root of a document whose beginning is marked. -/
def markedRoot (fuel : Nat) : Read Node := do
  directives false fuel
  let token ← peek
  if token.kind ≠ .documentStart then misplaced .missingDocumentStart none token
  let token ← advance
  match token.kind with
  | .versionDirective .. | .tagDirective .. | .documentStart | .documentEnd | .streamEnd =>
    return Node.absent token.start
  | _ => node true false fuel

/-- Reads the root of the first document, if there is a document. The token after it is looked at.
-/
def root? (fuel : Nat) : Read (Option Node) := do
  let token ← peek
  match token.kind with
  | .streamEnd => return none
  | .versionDirective .. | .tagDirective .. | .documentStart =>
    let root ← markedRoot fuel
    let _ ← peek
    return some root
  | _ =>
    directives false fuel
    let root ← node true false fuel
    let _ ← peek
    return some root

end Read

/-- A number of steps that is enough for the nodes of a file: every character gives a few tokens,
and every token takes a few steps. -/
def Input.steps (input : Input) : Nat := 16 * (input.characters.length + 4)

/-- Reads the first document of a file, if there is one. -/
def Document.read? (bytes : Text) : Except Error (Option Document) := do
  let input := Input.ofBytes (if bytes.isEmpty then utf8 "\n" else bytes)
  let (root?, reader) ← (Read.root? input.steps).run ⟨Stream.ofInput input, [], [], []⟩
  return root?.map fun root => ⟨root, reader.anchored⟩

end CMakeSense.Yaml
