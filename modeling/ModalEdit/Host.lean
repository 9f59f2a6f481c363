import ModalEdit.Edit
import ModalEdit.Selection

/-!
# The host

The host owns the document. It answers three requests: replace some characters, set the selection,
and undo the last edit. Each may be refused, and a refused request changes nothing. A session only
hears of text changes that the host passes on, so the host collects them.

The journal keeps every request with the length of the text it met. It is what the laws on requests
speak of.
-/

namespace ModalEdit

/-- Why a host refuses. -/
inductive HostError where
  | editRejected (detail : String)
  | selectionRejected (detail : String)
  | unsupported (detail : String)
  deriving DecidableEq, Repr

namespace HostError

/-- The wording of a refusal. -/
def message : HostError → String
  | editRejected detail => "edit rejected: " ++ detail
  | selectionRejected detail => "selection rejected: " ++ detail
  | unsupported detail => "not supported by host: " ++ detail

/-- The wording of a command's failure. -/
def failureMessage (e : HostError) : String :=
  "host operation failed: " ++ e.message

end HostError

/-- What undoing an edit restores. The text is packed. -/
structure Snapshot where
  packed : String
  selection : Selection
  deriving DecidableEq, Repr

namespace Snapshot

/-- Keep a text and a selection. -/
def take (text : Text) (selection : Selection) : Snapshot := ⟨.ofList text, selection⟩

/-- The text kept. -/
def text (s : Snapshot) : Text := s.packed.toList

@[simp] theorem text_take (t : Text) (s : Selection) : (take t s).text = t := by
  simp [take, text]

@[simp] theorem selection_take (t : Text) (s : Selection) : (take t s).selection = s := rfl

end Snapshot

/-- Which of the coming requests are refused: the next few, and from then on as listed. Those after
the list are granted. -/
structure Refusals where
  next : Nat := 0
  later : List Bool := []
  deriving DecidableEq, Repr

namespace Refusals

/-- Whether the next request is refused. -/
def head (r : Refusals) : Bool :=
  0 < r.next || r.later.headD false

/-- The refusals after the next request. -/
def tail (r : Refusals) : Refusals :=
  if r.next = 0 then { r with later := r.later.tail } else { r with next := r.next - 1 }

end Refusals

/-- A request of the session, with the length of the text it met, or an edit from elsewhere. -/
inductive JournalEntry where
  | edit (length : Nat) (edit : Edit) (granted : Bool)
  | select (length : Nat) (selection : Selection) (granted : Bool)
  | undo (granted : Bool)
  | elsewhere (edit : Edit)
  deriving DecidableEq, Repr

/-- The edit of an entry, if it was made. -/
def JournalEntry.made? : JournalEntry → Option Edit
  | edit _ e granted => if granted then some e else none
  | elsewhere e => some e
  | _ => none

/-- The document and the history of a host. -/
structure Host where
  text : Text
  selection : Selection
  /-- What undo restores, the latest edit first. -/
  history : List Snapshot := []
  /-- Changes not yet passed on, the latest first. -/
  changes : List Change := []
  /-- Which of the coming edit requests are refused. -/
  editRefusals : Refusals := {}
  /-- Which of the coming selection requests are refused. -/
  selectionRefusals : Refusals := {}
  /-- How many undo requests are still granted, if there is a limit. -/
  undosLeft : Option Nat := none
  /-- Requests and edits from elsewhere, the latest first. -/
  journal : List JournalEntry := []
  deriving DecidableEq, Repr

namespace Host

/-- A host with a text and a cursor. -/
def ofText (text : Text) (cursor : Nat) : Host :=
  { text, selection := .cursor cursor }

/-- Make an edit: remember what undo restores and collect the change. -/
def make (e : Edit) (h : Host) : Host :=
  { h with
    text := e.apply h.text
    history := .take h.text h.selection :: h.history
    changes := e.change h.text :: h.changes }

/-- An edit that no session asked for. -/
def editElsewhere (e : Edit) (h : Host) : Host :=
  { h.make e with journal := .elsewhere e :: h.journal }

/-- A request to edit. -/
def requestEdit (e : Edit) : EStateM HostError Host Unit := fun h =>
  let refused := h.editRefusals.head
  let h := { h with
    editRefusals := h.editRefusals.tail
    journal := .edit h.text.length e (!refused) :: h.journal }
  if refused then .error (.editRejected "refused") h else .ok () (h.make e)

/-- A request to set the selection. It is kept as asked for. -/
def requestSelection (s : Selection) : EStateM HostError Host Unit := fun h =>
  let refused := h.selectionRefusals.head
  let h := { h with
    selectionRefusals := h.selectionRefusals.tail
    journal := .select h.text.length s (!refused) :: h.journal }
  if refused then .error (.selectionRejected "refused") h else .ok () { h with selection := s }

/-- What is restored by going back `n` edits, or to the first text, and the history left. Nothing is
restored if there is no edit to undo. -/
def rewind : Nat → Option Snapshot → List Snapshot → Option Snapshot × List Snapshot
  | 0, restored, history => (restored, history)
  | _ + 1, restored, [] => (restored, [])
  | n + 1, _, before :: history => rewind n (some before) history

/-- Undo `n` edits; undoing nothing is granted too. -/
def undo (n : Nat) (h : Host) : Host :=
  match rewind n none h.history with
  | (some before, history) =>
    { h with text := before.text, selection := before.selection, history }
  | (none, history) => { h with history }

/-- `n` requests to undo an edit. The requests up to the first refused one are carried out. -/
def requestUndo (n : Nat) : EStateM HostError Host Unit := fun h =>
  match h.undosLeft with
  | none => .ok () { h.undo n with journal := .undo true :: h.journal }
  | some left =>
    if n ≤ left then
      .ok () { h.undo n with undosLeft := some (left - n), journal := .undo true :: h.journal }
    else
      .error (.unsupported "undo")
        { h.undo left with undosLeft := some 0, journal := .undo false :: h.journal }

/-- Refuse the next `n` edits and then no more. -/
def refuseEdits (n : Nat) (h : Host) : Host :=
  { h with editRefusals := { next := n } }

/-- Refuse the next `n` selections and then no more. -/
def refuseSelections (n : Nat) (h : Host) : Host :=
  { h with selectionRefusals := { next := n } }

/-- Refuse to undo, or do so no more. -/
def refuseUndo (refuse : Bool) (h : Host) : Host :=
  { h with undosLeft := if refuse then some 0 else none }

/-- Start the journal anew. -/
def clearJournal (h : Host) : Host :=
  { h with journal := [] }

/-- The edits made since the journal was started, in order. -/
def editsMade (h : Host) : List Edit :=
  (h.journal.filterMap (·.made?)).reverse

end Host

end ModalEdit
