import PatternAudit.Api.Metadata
import PatternAudit.Api.Naming
import PatternAudit.Audit
import PatternAudit.Batch
import PatternAudit.Cache.Basic
import PatternAudit.Cache.Entry
import PatternAudit.Cache.Id
import PatternAudit.Checks
import PatternAudit.Command.Grammar
import PatternAudit.Command.Read
import PatternAudit.Command.Refusal
import PatternAudit.Command.Request
import PatternAudit.Command.Run
import PatternAudit.Command.Similar
import PatternAudit.Command.Template
import PatternAudit.Decimal.Nearest
import PatternAudit.Decimal.Shortest
import PatternAudit.Description
import PatternAudit.Dialect
import PatternAudit.Dialect.Ecma.Check
import PatternAudit.Dialect.Ecma.Class
import PatternAudit.Dialect.Ecma.Lexeme
import PatternAudit.Dialect.Ecma.Refusal
import PatternAudit.Dialect.Ecma.Thread
import PatternAudit.Dialect.Pcre.Check
import PatternAudit.Dialect.Pcre.Class
import PatternAudit.Dialect.Pcre.Escape
import PatternAudit.Dialect.Pcre.Node
import PatternAudit.Dialect.Pcre.Preparation
import PatternAudit.Dialect.Pcre.Refusal
import PatternAudit.Dialect.Pcre.State
import PatternAudit.Dialect.Pcre.Tree
import PatternAudit.Dialect.Re2.ByteRanges
import PatternAudit.Dialect.Re2.Check
import PatternAudit.Dialect.Re2.Class
import PatternAudit.Dialect.Re2.Cursor
import PatternAudit.Dialect.Re2.Escape
import PatternAudit.Dialect.Re2.Group
import PatternAudit.Dialect.Re2.Meaning
import PatternAudit.Dialect.Re2.Node
import PatternAudit.Dialect.Re2.Property
import PatternAudit.Dialect.Re2.Refusal
import PatternAudit.Dialect.Re2.Shape
import PatternAudit.Dialect.Re2.Tree
import PatternAudit.Dialect.Validate
import PatternAudit.Dialect.Verdict
import PatternAudit.Error
import PatternAudit.Files.Device
import PatternAudit.Files.Discovery
import PatternAudit.Files.Disk
import PatternAudit.Files.Fault
import PatternAudit.Files.Path
import PatternAudit.Files.Tree
import PatternAudit.Finding
import PatternAudit.Glob.Basic
import PatternAudit.Glob.Match
import PatternAudit.Glob.Read
import PatternAudit.Json.Basic
import PatternAudit.Json.Distinct
import PatternAudit.Json.Read
import PatternAudit.Json.Shape
import PatternAudit.Json.Write
import PatternAudit.Lines
import PatternAudit.Main
import PatternAudit.Pattern.Anchors
import PatternAudit.Pattern.Backtracking
import PatternAudit.Pattern.Delimiters
import PatternAudit.Pattern.Quality
import PatternAudit.Pointer
import PatternAudit.Profile
import PatternAudit.Proofs.Walk.Bounds
import PatternAudit.Proofs.Walk.Covered
import PatternAudit.Proofs.Walk.Cycles
import PatternAudit.Proofs.Walk.Descent
import PatternAudit.Proofs.Walk.Located
import PatternAudit.Proofs.Walk.Locations
import PatternAudit.Proofs.Walk.Raised
import PatternAudit.Proofs.Walk.Regions
import PatternAudit.Proofs.Walk.Spread
import PatternAudit.Proofs.Walk.Turns
import PatternAudit.Proofs.Walk.Visit
import PatternAudit.Report.Basic
import PatternAudit.Report.Form
import PatternAudit.Report.Group
import PatternAudit.Report.Listing
import PatternAudit.Report.Pretty
import PatternAudit.Report.Sarif
import PatternAudit.Report.Summary
import PatternAudit.Source
import PatternAudit.Text.Blank
import PatternAudit.Text.Category
import PatternAudit.Text.Hex
import PatternAudit.Text.Lower
import PatternAudit.Text.Printable
import PatternAudit.Text.Quoted
import PatternAudit.Text.Ranges
import PatternAudit.Text.Utf8
import PatternAudit.Walk.Expand
import PatternAudit.Walk.Item
import PatternAudit.Walk.Run
import PatternAudit.Walk.Slot
import PatternAudit.Word
import PatternAudit.Yaml.Event
import PatternAudit.Yaml.Failure
import PatternAudit.Yaml.Fault
import PatternAudit.Yaml.Fit
import PatternAudit.Yaml.Node
import PatternAudit.Yaml.Print
import PatternAudit.Yaml.Scalar
import PatternAudit.Yaml.ScalarText
import PatternAudit.Yaml.Token
import PatternAudit.Yaml.TokenStream
import PatternAudit.Yaml.Tree
import PatternAudit.Yaml.Value
import PatternAudit.Proofs.Files.Faces
import PatternAudit.Proofs.Files.Removed
import PatternAudit.Proofs.Cache.Ids
import PatternAudit.Proofs.Cache.Kept
import PatternAudit.Proofs.Cache.Calls
import PatternAudit.Proofs.Cache.Failure
import PatternAudit.Proofs.Cache.Runs
import PatternAudit.Proofs.Cache.Recent
import PatternAudit.Proofs.Cache.Recency
import PatternAudit.Proofs.Cache.MemoryOnly
import PatternAudit.Proofs.Cache.Access
import PatternAudit.Proofs.Json.RoundTrip
import PatternAudit.Proofs.Report.RoundTrip
import PatternAudit.Proofs.Cache.Entry
import PatternAudit.Proofs.Report.Formats
import PatternAudit.Proofs.Files.Written
import PatternAudit.Proofs.Files.Folder
import PatternAudit.Proofs.Cache.Directory
import PatternAudit.Proofs.Cache.Mirror
import PatternAudit.Proofs.Cache.Permalinks
import PatternAudit.Proofs.Report.Grouping
import PatternAudit.Proofs.Report.Figures
import PatternAudit.Proofs.Audit.Items
import PatternAudit.Proofs.Audit.Exclusion
import PatternAudit.Proofs.Audit.Verdict
import PatternAudit.Proofs.Audit.Severities
import PatternAudit.Proofs.Audit.Accounted
import PatternAudit.Proofs.Audit.Independence
import PatternAudit.Proofs.Walk.Behind
import PatternAudit.Proofs.Walk.Beneath
import PatternAudit.Proofs.Walk.Replaced
import PatternAudit.Proofs.Walk.Alike
import PatternAudit.Proofs.Walk.Isolation
import PatternAudit.Proofs.Text.Utf8
import PatternAudit.Proofs.Walk.Fragments
import PatternAudit.Proofs.Walk.Written
import PatternAudit.Proofs.Walk.Misfits
import PatternAudit.Proofs.Walk.Diagnosed
import PatternAudit.Proofs.Command.Batches
import PatternAudit.Proofs.Pattern.Anchoring
import PatternAudit.Proofs.Pattern.Groups
import PatternAudit.Proofs.Pattern.Backtracking
import PatternAudit.Proofs.Yaml.Entries
import PatternAudit.Proofs.Dialect.Fixes
import PatternAudit.Proofs.Walk.Transparent
import PatternAudit.Proofs.Text.Collapse
import PatternAudit.Proofs.Lines.Entries
import PatternAudit.Proofs.Lines.Lookalikes
import PatternAudit.Proofs.Pattern.Mending
import PatternAudit.Proofs.Pointer.Percent
import PatternAudit.Proofs.Pointer.Paths
import PatternAudit.Proofs.Walk.InBoth
import PatternAudit.Proofs.Walk.Operations
import PatternAudit.Proofs.Api.Naming
import PatternAudit.Proofs.Report.Tallies
import PatternAudit.Proofs.Report.Log
import PatternAudit.Proofs.Profile.Validated
import PatternAudit.Proofs.Pointer.Segments
import PatternAudit.Proofs.Pattern.Rounds
import PatternAudit.Proofs.Pattern.Alternatives
import PatternAudit.Proofs.Lists
import PatternAudit.Proofs.Files.Below
import PatternAudit.Proofs.Files.Discovered
import PatternAudit.Proofs.Text.Boundaries
