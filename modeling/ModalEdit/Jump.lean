import ModalEdit.Text.Basic
import ModalEdit.Unicode.CaseMapping

/-!
# Label jumps

A jump searches one character. Its matches are dealt round-robin onto the labels, each label showing
one group of matches. Typing a label keeps its group and deals it anew, until one match is left.
-/

namespace ModalEdit

/-- A label and the matches it stands for. -/
structure JumpGroup where
  label : Char
  targets : List Nat
  deriving DecidableEq, Repr

/-- What starting or narrowing a jump comes to. -/
inductive JumpStep where
  /-- One match is left. -/
  | resolved (target : Nat)
  /-- Several matches are left, under these labels. -/
  | narrowed (groups : List JumpGroup)
  /-- Nothing matches, or there is no label to show. -/
  | aborted
  deriving DecidableEq, Repr

/-- The groups that are shown after a step. -/
def JumpStep.groups : JumpStep → List JumpGroup
  | narrowed groups => groups
  | _ => []

namespace Jump

/-- The elements at the places `i`, `i + k`, `i + 2k`, … of an array. -/
def everyNth (k i : Nat) (targets : Array Nat) : List Nat :=
  (List.range (targets.size / k + 1)).filterMap fun round => targets[i + round * k]?

/-- Deal the targets round-robin onto the labels; a label that gets none is left out. -/
def deal (labels : List Char) (targets : List Nat) : List JumpGroup :=
  let targets := targets.toArray
  (labels.zipIdx.map fun (label, i) => ⟨label, everyNth labels.length i targets⟩).filter
    fun g => !g.targets.isEmpty

/-- The step that some matches come to. -/
def settle (labels : List Char) : List Nat → JumpStep
  | [] => .aborted
  | [target] => .resolved target
  | targets => if labels.isEmpty then .aborted else .narrowed (deal labels targets)

/-- The characters count as equal in a search. -/
def matchesChar (ignoreCase : Bool) (search c : Char) : Bool :=
  if ignoreCase then Unicode.sameLowerCase c search else c == search

/-- The indices where the search matches. -/
def matchIndices (t : Text) (search : Char) (ignoreCase : Bool) : List Nat :=
  t.zipIdx.filterMap fun (c, i) => if matchesChar ignoreCase search c then some i else none

/-- Search a character and label its matches. -/
def start (t : Text) (search : Char) (labels : List Char) (ignoreCase : Bool) : JumpStep :=
  settle labels (matchIndices t search ignoreCase)

/-- The label and the key agree up to the case of ASCII letters. -/
def labelMatches (label key : Char) : Bool :=
  label.toLower == key.toLower

/-- Keep the first group whose label is typed. -/
def advance (groups : List JumpGroup) (key : Char) (labels : List Char) : JumpStep :=
  match groups.find? (labelMatches ·.label key) with
  | some group => settle labels group.targets
  | none => .aborted

end Jump

end ModalEdit
