import ForceTry.Command.Session
import ForceTry.Main
import ForceTry.Package
import ForceTry.Proofs.Grammar.Basic
import ForceTry.Proofs.Grammar.Machine
import ForceTry.Proofs.Token.Reading
import ForceTry.Proofs.Grammar.Steps
import ForceTry.Proofs.Grammar.Run
import ForceTry.Proofs.Grammar.Alike
import ForceTry.Proofs.Grammar.WellFormed
import ForceTry.Proofs.Tree.Parsed
import ForceTry.Proofs.Tree.Labels
import ForceTry.Proofs.Tree.TokenEdit
import ForceTry.Proofs.Rule.Unforce
import ForceTry.Proofs.Rule.Build
import ForceTry.Proofs.Pass.Rewrite
import ForceTry.Proofs.Pass.Transform
import ForceTry.Proofs.Pass.Reference
import ForceTry.Proofs.Settings.Range
import ForceTry.Proofs.Refactor.Agreement
import ForceTry.Proofs.Indentation.Comments
import ForceTry.Proofs.Pass.Script
import ForceTry.Proofs.Refactor.Comments
import ForceTry.Proofs.Trivia.Canonical
import ForceTry.Proofs.Token.Stream
import ForceTry.Proofs.Grammar.Neighbours
import ForceTry.Proofs.Indentation.Breaks
import ForceTry.Proofs.Rule.Forms
import ForceTry.Proofs.Pass.Forms
import ForceTry.Proofs.Pass.Measure
import ForceTry.Proofs.Refactor.Repeated
import ForceTry.Proofs.Grammar.Nesting
import ForceTry.Proofs.Grammar.Segments
import ForceTry.Proofs.Grammar.Unambiguous
import ForceTry.Proofs.Token.Outlook
import ForceTry.Proofs.Grammar.Ends
import ForceTry.Proofs.Indentation.Reread
import ForceTry.Proofs.Rule.Reread
import ForceTry.Proofs.Pass.Visits
import ForceTry.Proofs.Grammar.Blame
import ForceTry.Proofs.Token.Unclosed
import ForceTry.Proofs.Tree.Position
import ForceTry.Proofs.Tree.Faults
import ForceTry.Proofs.Refactor.Candidates
import ForceTry.Proofs.Settings.Kept
import ForceTry.Proofs.Settings.Placeholder
import ForceTry.Proofs.Store.Refactor
import ForceTry.Proofs.Command.Convert
import ForceTry.Proofs.Refactor.Aligned
import ForceTry.Proofs.Refactor.Reread
import ForceTry.Proofs.Refactor.Marks
import ForceTry.Proofs.Token.Endings
import ForceTry.Proofs.Refactor.LineBreaks
import ForceTry.Proofs.Refactor.Shared
import ForceTry.Proofs.Refactor.Trimmed
import ForceTry.Proofs.Grammar.Children
import ForceTry.Proofs.Tree.Tries
import ForceTry.Proofs.Grammar.Surface
import ForceTry.Proofs.Grammar.Operands
import ForceTry.Proofs.Grammar.ItemStarts
import ForceTry.Proofs.Refactor.Wrapped
import ForceTry.Proofs.Tree.Replace
import ForceTry.Proofs.Indentation.Back
import ForceTry.Proofs.Indentation.Rows
import ForceTry.Proofs.Pass.Account
import ForceTry.Proofs.Pass.Owners
import ForceTry.Proofs.Trivia.Reading
import ForceTry.Proofs.Patch.Usable
import ForceTry.Proofs.Indentation.Samples
import ForceTry.Proofs.Indentation.Stripped
