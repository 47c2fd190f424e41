import ScopedFn.Calendar
import ScopedFn.Config.Fault
import ScopedFn.Config.Load
import ScopedFn.Config.Merge
import ScopedFn.Config.Settings
import ScopedFn.Declaration
import ScopedFn.Descriptor
import ScopedFn.Digest.Sha256
import ScopedFn.Entries
import ScopedFn.Envelope
import ScopedFn.Environment
import ScopedFn.Fault
import ScopedFn.Files
import ScopedFn.Filter
import ScopedFn.Incident
import ScopedFn.Invocation
import ScopedFn.Json.Canonical
import ScopedFn.Json.Reader
import ScopedFn.Mount
import ScopedFn.Numeric.Binary64
import ScopedFn.Numeric.Reading
import ScopedFn.Numeric.Shortest
import ScopedFn.Path
import ScopedFn.Process.Basic
import ScopedFn.Process.Script
import ScopedFn.Provenance
import ScopedFn.Report
import ScopedFn.Resource.Basic
import ScopedFn.Resource.Document
import ScopedFn.RunLog
import ScopedFn.Scope.Directory
import ScopedFn.Scope.Partition
import ScopedFn.Text.Base64
import ScopedFn.Text.Blank
import ScopedFn.Text.Cased
import ScopedFn.Text.Digit
import ScopedFn.Text.Lowercase
import ScopedFn.Text.Padded
import ScopedFn.Text.Printable
import ScopedFn.Text.Quoted
import ScopedFn.Text.Split
import ScopedFn.Value.Atom
import ScopedFn.Value.Basic
import ScopedFn.Value.Copy
import ScopedFn.Value.Display
import ScopedFn.Value.Edit
import ScopedFn.Value.Equality
import ScopedFn.Yaml.Cursor
import ScopedFn.Yaml.Meaning
import ScopedFn.Yaml.Node
import ScopedFn.Yaml.Reader
import ScopedFn.Yaml.Scalar
import ScopedFn.Yaml.Style
import ScopedFn.Yaml.Tag
import ScopedFn.Yaml.Timestamp
import ScopedFn.Yaml.Token
import ScopedFn.Yaml.Tokens
import ScopedFn.Yaml.Tree
import ScopedFn.Yaml.Writer
import ScopedFn.Proofs.Path.Segments
import ScopedFn.Proofs.Path.Normal
import ScopedFn.Proofs.Scope.Directory
import ScopedFn.Proofs.Scope.Partition
import ScopedFn.Proofs.Scope.Containment
import ScopedFn.Proofs.Run.Step
import ScopedFn.Proofs.Run.Calls
import ScopedFn.Proofs.Run.Course
import ScopedFn.Proofs.Provenance.Annotation
import ScopedFn.Proofs.Provenance.Assign
import ScopedFn.Proofs.Filter.Exit
import ScopedFn.Proofs.Yaml.Supply
import ScopedFn.Proofs.Yaml.Reading
import ScopedFn.Proofs.Envelope.Objects
import ScopedFn.Proofs.Filter.Frame
import ScopedFn.Proofs.Resource.Renaming
import ScopedFn.Proofs.Yaml.Renaming
import ScopedFn.Proofs.Envelope.Renaming
import ScopedFn.Proofs.Filter.Interference
import ScopedFn.Proofs.Value.Decidable
import ScopedFn.Proofs.Envelope.Format
import ScopedFn.Proofs.Envelope.RoundTrip
import ScopedFn.Proofs.Path.Relative
import ScopedFn.Proofs.Provenance.Place
import ScopedFn.Proofs.Filter.Place
import ScopedFn.Proofs.Provenance.Default
import ScopedFn.Proofs.Provenance.Free
import ScopedFn.Proofs.Provenance.Shared
import ScopedFn.Proofs.RunLog
import ScopedFn.Proofs.Filter.Audit
import ScopedFn.Proofs.Resource.Site
import ScopedFn.Proofs.Provenance.Written
import ScopedFn.Proofs.Filter.Deferral
import ScopedFn.Proofs.Resource.File
import ScopedFn.Proofs.Scope.Spelling
import ScopedFn.Proofs.Provenance.Files
import ScopedFn.Proofs.Filter.Files
import ScopedFn.Proofs.Envelope.Sharing
import ScopedFn.Proofs.Provenance.Settled
import ScopedFn.Proofs.Run.Repeats
import ScopedFn.Proofs.Filter.Identity
import ScopedFn.Proofs.Numeric.Interval
import ScopedFn.Proofs.Numeric.Shortest
import ScopedFn.Proofs.Numeric.Decimal
import ScopedFn.Proofs.Json.Atom
import ScopedFn.Proofs.Json.Written
import ScopedFn.Proofs.Json.Readable
import ScopedFn.Proofs.Config.Hash
import ScopedFn.Proofs.Json.Expressible
import ScopedFn.Proofs.Config.Settings
import ScopedFn.Proofs.Declaration
import ScopedFn.Proofs.Scope.Division
import ScopedFn.Proofs.Numeric.Number
import ScopedFn.Proofs.Value.Key
import ScopedFn.Proofs.Value.Document
import ScopedFn.Proofs.Yaml.Document
import ScopedFn.Proofs.Config.Merge
import ScopedFn.Proofs.Config.InPlace
import ScopedFn.Proofs.Config.Layers
import ScopedFn.Proofs.Value.Display
import ScopedFn.Proofs.Declaration.Sources
import ScopedFn.Proofs.Provenance.Names
import ScopedFn.Proofs.Resource.InPlace
import ScopedFn.Proofs.Provenance.Lasting
import ScopedFn.Proofs.Provenance.InPlace
import ScopedFn.Proofs.Value.Erase
import ScopedFn.Proofs.Value.Beside
import ScopedFn.Proofs.Resource.Removal
import ScopedFn.Proofs.Envelope.Stripped
import ScopedFn.Proofs.Resource.Unshared
import ScopedFn.Proofs.Resource.Operations
import ScopedFn.Proofs.Environment
import ScopedFn.Proofs.Config.Signals
import ScopedFn.Proofs.Run.Command
import ScopedFn.Proofs.Provenance.Search
import ScopedFn.Proofs.Scope.Nesting
import ScopedFn.Proofs.Scope.Segmentwise
import ScopedFn.Proofs.Mount
import ScopedFn.Proofs.Declaration.Mounts
