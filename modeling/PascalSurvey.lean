import PascalSurvey.Bound
import PascalSurvey.Text.Basic
import PascalSurvey.Text.Utf8
import PascalSurvey.Text.Blank
import PascalSurvey.Text.Alphabetic
import PascalSurvey.Text.WordChar
import PascalSurvey.Text.Cursor
import PascalSurvey.Source.Region
import PascalSurvey.Source.Mask
import PascalSurvey.Json.Value
import PascalSurvey.Json.Reader
import PascalSurvey.Json.Writer
import PascalSurvey.Source.Name
import PascalSurvey.Routine.Kind
import PascalSurvey.Routine.Parameter
import PascalSurvey.Routine.Header
import PascalSurvey.Routine.Body
import PascalSurvey.Routine.Method
import PascalSurvey.Json.Codec
import PascalSurvey.Report.Facts
import PascalSurvey.Path
import PascalSurvey.FileTree
import PascalSurvey.Source.Keyword
import PascalSurvey.Source.Split
import PascalSurvey.Outline.Uses
import PascalSurvey.Outline.TypeDecl
import PascalSurvey.Outline.Basic
import PascalSurvey.Form
import PascalSurvey.Program
import PascalSurvey.Sql.Token
import PascalSurvey.Sql.Reserved
import PascalSurvey.Sql.Quoting
import PascalSurvey.Sql.Literal
import PascalSurvey.Sql.Expression
import PascalSurvey.Sql.Parameters
import PascalSurvey.Sql.Statement
import PascalSurvey.Sql.Query
import PascalSurvey.Xml.Error
import PascalSurvey.Xml.Entity
import PascalSurvey.Xml.Attribute
import PascalSurvey.Xml.Element
import PascalSurvey.Xml.Event
import PascalSurvey.ProjectFile.Metadata
import PascalSurvey.ProjectFile.Variable
import PascalSurvey.ProjectFile.Condition
import PascalSurvey.ProjectFile.Settings
import PascalSurvey.ProjectFile.Reader
import PascalSurvey.ProjectFile.Codec
import PascalSurvey.Toml.Value
import PascalSurvey.Toml.Scalar
import PascalSurvey.Toml.Reader
import PascalSurvey.Toml.Writer
import PascalSurvey.Warning
import PascalSurvey.Cancellation
import PascalSurvey.ProjectFile.Error
import PascalSurvey.Config.Error
import PascalSurvey.Config.Basic
import PascalSurvey.Config.Toml
import PascalSurvey.Config.Codec
import PascalSurvey.Config.Load
import PascalSurvey.Discovery.Error
import PascalSurvey.Survey.Error
import PascalSurvey.Project.Framework
import PascalSurvey.Project.Basic
import PascalSurvey.Discovery.SystemUnit
import PascalSurvey.Discovery.SearchPath
import PascalSurvey.Discovery.EntryPoint
import PascalSurvey.Discovery.Basic
import PascalSurvey.Report.Basic
import PascalSurvey.Report.Codec
import PascalSurvey.Survey.Unit
import PascalSurvey.Survey.Basic
import PascalSurvey.Proofs.Text.Bytes
import PascalSurvey.Proofs.Text.Boundary
import PascalSurvey.Proofs.Text.Local
import PascalSurvey.Proofs.Source.Place
import PascalSurvey.Proofs.Source.Overlay
import PascalSurvey.Proofs.Source.Parens
import PascalSurvey.Proofs.Routine.Header
import PascalSurvey.Proofs.Routine.Words
import PascalSurvey.Proofs.Routine.Walk
import PascalSurvey.Proofs.Routine.Grammar
import PascalSurvey.Proofs.Routine.Extent
import PascalSurvey.Proofs.Routine.Cuts
import PascalSurvey.Proofs.Routine.Spans
import PascalSurvey.Proofs.Routine.Overlaid
import PascalSurvey.Proofs.Routine.Local
import PascalSurvey.Proofs.Routine.Shift
import PascalSurvey.Proofs.Routine.Seam
import PascalSurvey.Proofs.Routine.Opening
import PascalSurvey.Proofs.Routine.Append
import PascalSurvey.Proofs.Source.Slice
import PascalSurvey.Proofs.Text.Trim
import PascalSurvey.Proofs.Outline.Section
import PascalSurvey.Proofs.Routine.Excerpt
import PascalSurvey.Proofs.Sql.Quoting
import PascalSurvey.Proofs.Sql.Parameters
import PascalSurvey.Proofs.Discovery.References
import PascalSurvey.Proofs.Survey.Lines
import PascalSurvey.Proofs.Survey.Names
import PascalSurvey.Proofs.Survey.Warnings
import PascalSurvey.Proofs.ProjectFile.Readings
import PascalSurvey.Proofs.Report.RoundTrip
import PascalSurvey.Proofs.Sql.Constant
import PascalSurvey.Proofs.Sql.Written
import PascalSurvey.Proofs.Source.Clean
import PascalSurvey.Proofs.Config.Layers
import PascalSurvey.Proofs.Discovery.MainSource
import PascalSurvey.Proofs.Routine.WholeWords
import PascalSurvey.Proofs.Path.Join
import PascalSurvey.Proofs.Path.Order
import PascalSurvey.Proofs.FileTree.Listing
import PascalSurvey.Proofs.Discovery.Reorder
import PascalSurvey.Proofs.Sql.Flag
import PascalSurvey.Proofs.Sql.Placeholder
import PascalSurvey.Proofs.Sql.Denotation
import PascalSurvey.Proofs.Sql.Nesting
import PascalSurvey.Proofs.Text.Spelling
import PascalSurvey.Proofs.Routine.Search
import PascalSurvey.Proofs.Source.Keyword
import PascalSurvey.Proofs.Source.Removal
import PascalSurvey.Proofs.Text.Elastic
import PascalSurvey.Proofs.Source.Split
import PascalSurvey.Proofs.Outline.Uses
import PascalSurvey.Proofs.Program.Conditions
import PascalSurvey.Proofs.FileTree.Files
import PascalSurvey.Proofs.Discovery.SearchPath
import PascalSurvey.Proofs.Program.Console
import PascalSurvey.Proofs.Outline.Clause
import PascalSurvey.Proofs.Outline.RoundTrip
import PascalSurvey.Proofs.Source.Crlf
import PascalSurvey.Proofs.Outline.LineEnds
import PascalSurvey.Proofs.Outline.Declared
import PascalSurvey.Proofs.ProjectFile.Groups
import PascalSurvey.Proofs.ProjectFile.Configurations
import PascalSurvey.Proofs.Xml.Lookup
import PascalSurvey.Proofs.Xml.Tree
import PascalSurvey.Proofs.ProjectFile.GroupOrder
import PascalSurvey.Proofs.ProjectFile.OtherGroups
import PascalSurvey.Proofs.ProjectFile.Effective
import PascalSurvey.Proofs.ProjectFile.Output
import PascalSurvey.Proofs.Path.Relative
import PascalSurvey.Proofs.FileTree.SamePlace
import PascalSurvey.Proofs.ProjectFile.Sources
import PascalSurvey.Proofs.ProjectFile.SearchPaths
import PascalSurvey.Proofs.ProjectFile.Directory
import PascalSurvey.Proofs.ProjectFile.Declarations
import PascalSurvey.Proofs.Discovery.Start
import PascalSurvey.Proofs.Discovery.MissingFile
import PascalSurvey.Proofs.Discovery.Outcome
import PascalSurvey.Proofs.Discovery.Spelling
import PascalSurvey.Proofs.Discovery.WorkingDirectory
import PascalSurvey.Proofs.Text.Valid
import PascalSurvey.Proofs.Source.Scan
import PascalSurvey.Proofs.Source.Remask
import PascalSurvey.Proofs.Text.White
import PascalSurvey.Proofs.Routine.Parameter
import PascalSurvey.Proofs.Form.Line
import PascalSurvey.Proofs.Form.Tree
import PascalSurvey.Proofs.Source.TopLevel
import PascalSurvey.Proofs.Sql.Concatenation
import PascalSurvey.Proofs.Source.Closing
