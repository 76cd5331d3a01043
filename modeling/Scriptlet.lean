import Scriptlet.Text.Character
import Scriptlet.Text.Position
import Scriptlet.Decimal.Shortest
import Scriptlet.Decimal.Numeral
import Scriptlet.Token
import Scriptlet.Token.Scan
import Scriptlet.Tree
import Scriptlet.Tree.Use
import Scriptlet.Tree.Printer
import Scriptlet.Grammar.Fault
import Scriptlet.Grammar.Episode
import Scriptlet.Grammar.Tape
import Scriptlet.Grammar.Reader
import Scriptlet.Address
import Scriptlet.Value
import Scriptlet.Store
import Scriptlet.Machine.Fault
import Scriptlet.Machine
import Scriptlet.Machine.Operator
import Scriptlet.Machine.Eval
import Scriptlet.Session
import Scriptlet.Command
import Scriptlet.Main
import Scriptlet.Proofs.Grammar.Cursor
import Scriptlet.Proofs.Grammar.Procedure
import Scriptlet.Proofs.Grammar.Trail
import Scriptlet.Proofs.Grammar.Budget
import Scriptlet.Proofs.Grammar.Refinement
import Scriptlet.Proofs.Grammar.Recovery
import Scriptlet.Proofs.Tree.Map
import Scriptlet.Proofs.Grammar.Derivation
import Scriptlet.Proofs.Grammar.Soundness
import Scriptlet.Proofs.Grammar.Completeness
import Scriptlet.Proofs.Grammar.Exactness
import Scriptlet.Proofs.Grammar.Mirror
import Scriptlet.Proofs.Grammar.Sequel
import Scriptlet.Proofs.Grammar.Moment
import Scriptlet.Proofs.Grammar.Bounds
import Scriptlet.Proofs.Grammar.Placement
import Scriptlet.Proofs.Token.Source
import Scriptlet.Proofs.Token.Join
import Scriptlet.Proofs.Grammar.Containment
import Scriptlet.Proofs.Tree.Site
import Scriptlet.Proofs.Grammar.Numbering
import Scriptlet.Proofs.Grammar.Operator
import Scriptlet.Proofs.Address.Record
import Scriptlet.Proofs.Address.Succession
import Scriptlet.Proofs.Store.Growth
import Scriptlet.Proofs.Machine.Moment
import Scriptlet.Proofs.Machine.Directory
import Scriptlet.Proofs.Machine.Outcome
import Scriptlet.Proofs.Machine.Agreement
import Scriptlet.Proofs.Session.Batch
import Scriptlet.Proofs.Session.Agreement
import Scriptlet.Proofs.Store.Pairing
import Scriptlet.Proofs.Machine.Twin
import Scriptlet.Proofs.Machine.Likeness
import Scriptlet.Proofs.Machine.Target
import Scriptlet.Proofs.Machine.Origin
import Scriptlet.Proofs.Machine.Tracking
import Scriptlet.Proofs.Machine.Lockstep
import Scriptlet.Proofs.Tree.Part
import Scriptlet.Proofs.Machine.Lexical
import Scriptlet.Proofs.Machine.Verbatim
import Scriptlet.Proofs.Machine.Inventory
import Scriptlet.Proofs.Address.Rules
import Scriptlet.Proofs.Address.Verdict
import Scriptlet.Proofs.Address.Lexeme
import Scriptlet.Proofs.Address.Flat
import Scriptlet.Proofs.Machine.Sequence
import Scriptlet.Proofs.Machine.Search
import Scriptlet.Proofs.Store.Laws
import Scriptlet.Proofs.Session.Outcome
import Scriptlet.Proofs.Session.Identity
import Scriptlet.Proofs.Machine.Understanding
import Scriptlet.Proofs.Session.Understanding
import Scriptlet.Proofs.Session.Redefinition
import Scriptlet.Proofs.Session.Retention
import Scriptlet.Proofs.Session.Search
import Scriptlet.Proofs.Tree.Anonymous
import Scriptlet.Proofs.Session.Renaming
import Scriptlet.Proofs.Machine.Relocation
import Scriptlet.Proofs.Session.Report
import Scriptlet.Proofs.Session.Table
import Scriptlet.Proofs.Session.Mark
import Scriptlet.Proofs.Session.Joining
import Scriptlet.Proofs.Session.Placement
import Scriptlet.Proofs.Machine.Direct
import Scriptlet.Proofs.Machine.Padding
import Scriptlet.Proofs.Machine.Flat
import Scriptlet.Proofs.Session.Direct
import Scriptlet.Proofs.Machine.Region
import Scriptlet.Proofs.Machine.Confinement
import Scriptlet.Proofs.Session.Control
import Scriptlet.Proofs.Session.Return
import Scriptlet.Proofs.Session.Frames
import Scriptlet.Proofs.Machine.Order
import Scriptlet.Proofs.Machine.Isolation
import Scriptlet.Proofs.Session.Shape
import Scriptlet.Proofs.Decimal.Nearest
import Scriptlet.Proofs.Decimal.Rounding
import Scriptlet.Proofs.Decimal.Scientific
import Scriptlet.Proofs.Token.Lexeme
import Scriptlet.Proofs.Token.Lexer
import Scriptlet.Proofs.Token.Layout
import Scriptlet.Proofs.Token.Place
import Scriptlet.Proofs.Token.Lines
import Scriptlet.Proofs.Token.Rescan
import Scriptlet.Proofs.Decimal.Numeral
import Scriptlet.Proofs.Tree.Rendering
import Scriptlet.Proofs.Tree.Reread
import Scriptlet.Proofs.Grammar.Spelling
import Scriptlet.Proofs.Session.Rendering
