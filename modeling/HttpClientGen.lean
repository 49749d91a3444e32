import HttpClientGen.Text
import HttpClientGen.Document
import HttpClientGen.TypeExpr
import HttpClientGen.Discrimination
import HttpClientGen.Session
import HttpClientGen.Synthesis
import HttpClientGen.Client
import HttpClientGen.HttpRule
import HttpClientGen.Descriptor.Link
import HttpClientGen.Wire.Value
import HttpClientGen.Options
import HttpClientGen.Descriptor.Decoder
import HttpClientGen.Descriptor.TypedField
import HttpClientGen.Descriptor.Content
import HttpClientGen.Descriptor.Load
import HttpClientGen.Plugin
import HttpClientGen.Main
import HttpClientGen.Proofs.Discrimination
import HttpClientGen.Proofs.Except
import HttpClientGen.Proofs.Template.Nesting
import HttpClientGen.Proofs.Text.Pieces
import HttpClientGen.Proofs.Template.Segments
import HttpClientGen.Proofs.Template.RoundTrip
import HttpClientGen.Proofs.Ascending
import HttpClientGen.Proofs.Session
import HttpClientGen.Proofs.Demand
import HttpClientGen.Proofs.Trace
import HttpClientGen.Proofs.Client
import HttpClientGen.Proofs.PackageFile
import HttpClientGen.Proofs.Separation
import HttpClientGen.Proofs.Closure
import HttpClientGen.Proofs.Client.Outcome
import HttpClientGen.Proofs.Faults
import HttpClientGen.Proofs.Lookup
import HttpClientGen.Proofs.Agreement
import HttpClientGen.Proofs.Locality
import HttpClientGen.Proofs.Introduced
import HttpClientGen.Proofs.Needed
import HttpClientGen.Proofs.Interface
import HttpClientGen.Proofs.Client.Plan
import HttpClientGen.Proofs.Client.Query
import HttpClientGen.Proofs.Client.Path
import HttpClientGen.Proofs.Script.Syntax
import HttpClientGen.Proofs.Script.Reading
import HttpClientGen.Proofs.Client.Safety
import HttpClientGen.Proofs.TypeNames
import HttpClientGen.Proofs.Plugin.Request
import HttpClientGen.Proofs.Plugin.Response
import HttpClientGen.Proofs.Plugin.Outcome
import HttpClientGen.Proofs.Comments.Blocks
import HttpClientGen.Proofs.Steps
import HttpClientGen.Proofs.Repeats
import HttpClientGen.Proofs.Repetition
import HttpClientGen.Proofs.HttpRule
import HttpClientGen.Proofs.Descriptor.Tree
import HttpClientGen.Proofs.Descriptor.Pool
import HttpClientGen.Proofs.Descriptor.Load
import HttpClientGen.Proofs.Descriptor.References
import HttpClientGen.Proofs.Descriptor.Paths
import HttpClientGen.Proofs.Descriptor.Remarks
import HttpClientGen.Proofs.QueryLeaves
import HttpClientGen.Proofs.Resolution
import HttpClientGen.Proofs.Gathering
import HttpClientGen.Proofs.Aliases
import HttpClientGen.Proofs.Runs
import HttpClientGen.Proofs.Properties
import HttpClientGen.Proofs.Workload
import HttpClientGen.Proofs.Client.Members
import HttpClientGen.Proofs.Template.Offsets
import HttpClientGen.Proofs.UnionType
import HttpClientGen.Proofs.Client.Literal
import HttpClientGen.Proofs.JsonNames
import HttpClientGen.Proofs.Options
import HttpClientGen.Proofs.Registry
import HttpClientGen.Proofs.Places
import HttpClientGen.Proofs.Template.Depth
