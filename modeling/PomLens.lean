import PomLens.Diagnosis.Navigation
import PomLens.Main
import PomLens.Session
import PomLens.Proofs.Markup.Delimiting
import PomLens.Proofs.Markup.Piece
import PomLens.Proofs.Markup.Storing
import PomLens.Proofs.Markup.Arranging
import PomLens.Proofs.Markup.Building
import PomLens.Proofs.Markup.Layout
import PomLens.Proofs.Markup.Standing
import PomLens.Proofs.Markup.Outline
import PomLens.Proofs.Edit.Amendment
import PomLens.Proofs.Markup.Enclosed
import PomLens.Proofs.Markup.Derivation
import PomLens.Proofs.Markup.Verdict
import PomLens.Proofs.Markup.Numbering
import PomLens.Proofs.Markup.Nesting
import PomLens.Proofs.Markup.Denoting
import PomLens.Proofs.Markup.Locating
import PomLens.Proofs.Remedy.Writing
import PomLens.Proofs.Remedy.TreeEdit
import PomLens.Proofs.Remedy.Pinning
import PomLens.Proofs.Descriptor.Dependencies
import PomLens.Proofs.Remedy.OneVersion
import PomLens.Proofs.Diagnosis.Board
import PomLens.Proofs.Schedule.Pending
import PomLens.Proofs.Session.Flow
import PomLens.Proofs.Session.Order
import PomLens.Proofs.Session.Closing
import PomLens.Proofs.Session.Execution
import PomLens.Proofs.Session.Current
import PomLens.Proofs.Schedule.Course
import PomLens.Proofs.Report.RoundTrip
import PomLens.Proofs.Edit.Simultaneous
import PomLens.Proofs.Document.Position
import PomLens.Proofs.Edit.Positions
import PomLens.Proofs.Markup.Seams
import PomLens.Proofs.Remedy.Placing
import PomLens.Proofs.Diagnosis.QuickFix
import PomLens.Proofs.Report.Entries
import PomLens.Proofs.Markup.Counting
import PomLens.Proofs.Remedy.Excluding
import PomLens.Proofs.Project.Interplay
import PomLens.Proofs.Diagnosis.Anchor
import PomLens.Proofs.Remedy.Sparing
import PomLens.Proofs.Workspace.Climbing
import PomLens.Proofs.Workspace.Selecting
import PomLens.Proofs.Workspace.History
import PomLens.Proofs.Project.Versions
import PomLens.Proofs.Version.Numerals
import PomLens.Proofs.Document.Clamping
import PomLens.Proofs.CommandLine.Writing
import PomLens.Proofs.Report.Beginning
import PomLens.Proofs.Report.Logged
import PomLens.Proofs.CommandLine.Occurrence
import PomLens.Proofs.Schedule.Recency
import PomLens.Proofs.Workspace.Filling
import PomLens.Proofs.Path.Reading
import PomLens.Proofs.Remedy.Ending
import PomLens.Proofs.Diagnosis.Declaring
