/-!
# Keys

A host reports key presses, with the modifiers held, and characters that arrive as text. A session
only tells characters, Escape and Backspace apart: Enter and Tab are characters, and of the chords
only `Ctrl-[` has a meaning, which is Escape.
-/

namespace ModalEdit

/-- The key that was pressed; a character key is already shifted. -/
inductive KeyCode where
  | char (c : Char)
  | escape
  | enter
  | backspace
  | tab
  deriving DecidableEq, Repr

/-- The modifiers held during a press. -/
structure Modifiers where
  shift : Bool := false
  ctrl : Bool := false
  alt : Bool := false
  metaKey : Bool := false
  deriving DecidableEq, Repr

/-- A modifier other than shift is held. -/
def Modifiers.isChord (m : Modifiers) : Bool :=
  m.ctrl || m.alt || m.metaKey

/-- Control is held and nothing else. -/
def Modifiers.control : Modifiers := { ctrl := true }

/-- What a host reports. -/
inductive InputEvent where
  | press (code : KeyCode) (mods : Modifiers)
  /-- A character that arrives as text. -/
  | text (c : Char)
  deriving DecidableEq, Repr

/-- A press with no modifier held. -/
def InputEvent.plain (code : KeyCode) : InputEvent :=
  .press code {}

/-- What a session tells apart. -/
inductive Stroke where
  | char (c : Char)
  | escape
  | backspace
  deriving DecidableEq, Repr

/-- The stroke of a key without a chord. -/
def KeyCode.stroke : KeyCode → Stroke
  | char c => .char c
  | escape => .escape
  | enter => .char '\n'
  | backspace => .backspace
  | tab => .char '\t'

/-- The stroke an event stands for; chords other than `Ctrl-[` stand for none. -/
def InputEvent.stroke? : InputEvent → Option Stroke
  | text c => some (.char c)
  | press code mods =>
    if code = .char '[' ∧ mods = .control then some .escape
    else if mods.isChord then none
    else some code.stroke

end ModalEdit
