import ConfigScan.Family.GithubActions
import ConfigScan.FileTree.Create
import ConfigScan.Filter.Reader
import ConfigScan.Json.Printer
import ConfigScan.Runner
import ConfigScan.Proofs.Document.Markers
import ConfigScan.Proofs.Yaml.Outline
import ConfigScan.Proofs.Yaml.Unmarked
import ConfigScan.Proofs.Document.Spans
import ConfigScan.Proofs.Yaml.MarkingOrder
import ConfigScan.Proofs.Document.Snippet
import ConfigScan.Proofs.FindingLocation
import ConfigScan.Proofs.Layout.Spelling
import ConfigScan.Proofs.Layout.Basic
import ConfigScan.Proofs.Layout.Inside
import ConfigScan.Proofs.Layout.Search
import ConfigScan.Proofs.Layout.Cursor
import ConfigScan.Proofs.Layout.Exact
import ConfigScan.Proofs.Layout.Scalars
import ConfigScan.Proofs.Layout.Disturbed
import ConfigScan.Proofs.Document.Moved
import ConfigScan.Proofs.Yaml.Moving
import ConfigScan.Proofs.Yaml.MappingLines
import ConfigScan.Proofs.Yaml.Nesting
import ConfigScan.Proofs.Yaml.Spacing
import ConfigScan.Proofs.Yaml.Pairing
import ConfigScan.Proofs.Layout.Texts
import ConfigScan.Proofs.Layout.Retold
import ConfigScan.Proofs.Layout.Hidden
import ConfigScan.Proofs.Layout.Siblings
import ConfigScan.Proofs.Document.WithoutLines
import ConfigScan.Proofs.Pipeline.Names
import ConfigScan.Proofs.Yaml.MarkingImage
import ConfigScan.Proofs.Yaml.DistinctKeys
import ConfigScan.Proofs.Yaml.KeyFolding
import ConfigScan.Proofs.Pipeline.JobLines
import ConfigScan.Proofs.Path.Order
import ConfigScan.Proofs.LoadedFiles
import ConfigScan.Proofs.Runner
import ConfigScan.Proofs.Path.Join
import ConfigScan.Proofs.Path.Absolute
import ConfigScan.Proofs.FileTree
import ConfigScan.Proofs.FileTree.Create
import ConfigScan.Proofs.PathFilter
import ConfigScan.Proofs.Runner.Scanned
import ConfigScan.Proofs.Runner.ScannedOnce
import ConfigScan.Proofs.Runner.Workflows
import ConfigScan.Proofs.Runner.OnePipeline
import ConfigScan.Proofs.Runner.Failing
import ConfigScan.Proofs.Pipeline.Attribution
import ConfigScan.Proofs.Document.Alike
import ConfigScan.Proofs.Yaml.Shape
import ConfigScan.Proofs.Yaml.Indenting
import ConfigScan.Proofs.Layout.Embedded
import ConfigScan.Proofs.Text.Runs
import ConfigScan.Proofs.Suppression.Grammar
import ConfigScan.Proofs.Suppression.FirstMention
import ConfigScan.Proofs.Path.Display
import ConfigScan.Proofs.Document.LineRange
import ConfigScan.Proofs.FindingRange
import ConfigScan.Proofs.Layout.KeyForms
import ConfigScan.Proofs.Report
import ConfigScan.Proofs.Filter.Reader
