import TemplateTree.Filter
import TemplateTree.Node.Document
import TemplateTree.Node.Equal
import TemplateTree.Proofs.BareText
import TemplateTree.Proofs.BlankLines
import TemplateTree.Proofs.BlockIndentation
import TemplateTree.Proofs.Composition
import TemplateTree.Proofs.Documents
import TemplateTree.Proofs.Indentation
import TemplateTree.Proofs.InterpolatedFilters
import TemplateTree.Proofs.Limits
import TemplateTree.Proofs.LineEnds
import TemplateTree.Proofs.ObjectReferences
import TemplateTree.Proofs.OneLine
import TemplateTree.Proofs.Positions
import TemplateTree.Proofs.QuotedValues
import TemplateTree.Proofs.RawBlocks
import TemplateTree.Proofs.Refusals
import TemplateTree.Proofs.Registries
import TemplateTree.Proofs.Remainders
import TemplateTree.Proofs.Scans.Expressions
import TemplateTree.Proofs.Scans.Groups
import TemplateTree.Proofs.Scans.Interpolations
import TemplateTree.Proofs.StartLines
import TemplateTree.Proofs.Tabs.Lists
import TemplateTree.Proofs.TagPositions
import TemplateTree.Proofs.Walks
import TemplateTree.Proofs.Written.Attributes
import TemplateTree.Registry
import TemplateTree.Scan.Index
import TemplateTree.Proofs.QuotedEnds
import TemplateTree.Proofs.Moves
import TemplateTree.Proofs.Records
