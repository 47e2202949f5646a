import CMakeSense.Text.Casing

/-! Candidate lists. A list holds each text at most once and no empty text; the first kind that a
text is added with stays until the text is excluded. The texts that are there are kept beside the
candidates, and are what additions and inquiries look at. Most lists present their candidates by
name, without regard to letter case; some keep the order in which candidates were added. -/

namespace CMakeSense

/-- What a candidate names. -/
inductive CandidateKind where
  | command | property | target | variableName | reference | function | unknown
  deriving DecidableEq, Repr

namespace CandidateKind

/-- The kinds in the order of their numbers, which start at zero. -/
def numbered : List CandidateKind :=
  [.command, .property, .target, .variableName, .reference, .function]

/-- The kind with a number; other numbers mean nothing known. -/
def ofCode (code : Int) : CandidateKind :=
  if code < 0 then .unknown else numbered.getD code.toNat .unknown

def label : CandidateKind → Text
  | .command => utf8 "command"
  | .property => utf8 "property"
  | .target => utf8 "target"
  | .variableName => utf8 "variable"
  | .reference => utf8 "reference"
  | .function => utf8 "function"
  | .unknown => utf8 "unknown"

end CandidateKind

structure Candidate where
  text : Text
  kind : CandidateKind
  deriving DecidableEq, Repr

/-- The order of presentation by name: letter case decides only between names that are otherwise
equal. -/
def Candidate.precedes (a b : Candidate) : Bool :=
  if a.text.toLower = b.text.toLower then decide (a.text ≤ b.text)
  else decide (a.text.toLower ≤ b.text.toLower)

structure Candidates where
  /-- Whether candidates are presented by name. -/
  byName : Bool
  /-- The candidates in the order in which they were added. -/
  items : List Candidate
  /-- The texts that count as there. -/
  seen : List Text
  deriving DecidableEq, Repr

namespace Candidates

/-- The empty list that presents its candidates by name. -/
def empty : Candidates := ⟨true, [], []⟩

/-- The empty list that keeps the order in which candidates are added. -/
def unordered : Candidates := ⟨false, [], []⟩

/-- Whether a text is among the candidates. -/
def has (list : Candidates) (text : Text) : Bool := list.seen.contains text

/-- Adds a candidate, unless its text is empty or already there. -/
def add (list : Candidates) (text : Text) (kind : CandidateKind) : Candidates :=
  if text.isEmpty || list.has text then list
  else { list with items := list.items ++ [⟨text, kind⟩], seen := list.seen ++ [text] }

/-- Adds candidates of one kind, one after the other. -/
def addAll (list : Candidates) (texts : List Text) (kind : CandidateKind) : Candidates :=
  texts.foldl (·.add · kind) list

/-- Removes the candidates with the given texts. Each candidate that goes takes its text along. -/
def exclude (list : Candidates) (texts : List Text) : Candidates where
  byName := list.byName
  items := list.items.filter fun item => !texts.contains item.text
  seen := (list.items.filter fun item => texts.contains item.text).foldl
    (fun seen item => seen.filter (· ≠ item.text)) list.seen

def size (list : Candidates) : Nat := list.items.length

/-- The candidates in the order of presentation. -/
def presented (list : Candidates) : List Candidate :=
  if list.byName then list.items.mergeSort Candidate.precedes else list.items

/-- The texts in the order of presentation. -/
def texts (list : Candidates) : List Text := list.presented.map (·.text)

end Candidates

end CMakeSense
