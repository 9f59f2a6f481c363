import ModalEdit.Register.Describe
import ModalEdit.Session.Run
import ModalEdit.Motion.Checked
import ModalEdit.TextObject.Checked
import ModalEdit.Session.Run.Lemmas
import ModalEdit.Text.Lines.Lemmas
import ModalEdit.Proofs.Attempt
import ModalEdit.Proofs.Commands
import ModalEdit.Proofs.History
import ModalEdit.Proofs.Jump
import ModalEdit.Proofs.Reading
import ModalEdit.Proofs.Soundness
import ModalEdit.Proofs.Consistency
import ModalEdit.Proofs.Bounds
import ModalEdit.Proofs.Requests
import ModalEdit.Proofs.Granting
import ModalEdit.Proofs.RestingCursor
import ModalEdit.Proofs.Spelling
import ModalEdit.Proofs.Typing
import ModalEdit.Proofs.KeySequences
import ModalEdit.Proofs.InsertSessions
import ModalEdit.Proofs.Repeating
import ModalEdit.Proofs.Refusals
import ModalEdit.Proofs.LineList
import ModalEdit.Proofs.Landing
import ModalEdit.Proofs.LinewiseOperators
import ModalEdit.Proofs.LinePuts
import ModalEdit.Proofs.PuttingBack
import ModalEdit.Proofs.Showing
import ModalEdit.Proofs.Operating
import ModalEdit.Proofs.Effects
import ModalEdit.Proofs.Highlighting
import ModalEdit.Proofs.Escaping
import ModalEdit.Proofs.ComposedCounts
import ModalEdit.Proofs.Synonyms
import ModalEdit.Proofs.Columns
import ModalEdit.Proofs.Positions
import ModalEdit.Proofs.Batches
import ModalEdit.Proofs.Marks
import ModalEdit.Proofs.LineMarks
import ModalEdit.Proofs.WordScan
import ModalEdit.Proofs.CheckedMotion
import ModalEdit.Proofs.MotionRange
import ModalEdit.Proofs.Reporting
import ModalEdit.Proofs.Writing
import ModalEdit.Proofs.FallingBack
import ModalEdit.Proofs.ForgettingColumn
import ModalEdit.Proofs.BracketPairs
import ModalEdit.Proofs.WordBoundaries
import ModalEdit.Proofs.CountedMotions
import ModalEdit.Proofs.CountedWords
import ModalEdit.Proofs.BracketObjects
import ModalEdit.Proofs.QuoteObjects
import ModalEdit.Proofs.LineRuns
import ModalEdit.Proofs.WordObjects
import ModalEdit.Proofs.AroundWords
import ModalEdit.Proofs.CharacterSearches
import ModalEdit.Proofs.Narrowing
import ModalEdit.Proofs.LabelKeys
import ModalEdit.Proofs.OperatorMotions
import ModalEdit.Proofs.ChangingWords
import ModalEdit.Proofs.DeletingWords
import ModalEdit.Proofs.DeletingInside
import ModalEdit.Proofs.CountedPuts
import ModalEdit.Proofs.UndoSteps
import ModalEdit.Proofs.OtherRegisters
import ModalEdit.Proofs.ClipboardRegister
import ModalEdit.Proofs.CheckedObject
import ModalEdit.Proofs.Regions
import ModalEdit.Proofs.MovingPositions
import ModalEdit.Proofs.ChangeKeys
import ModalEdit.Proofs.RepeatingWithRegisters
