import Lineage.Main
import Lineage.Store.Memory
import Lineage.Store.Tally
import Lineage.Store.Table.Edit
import Lineage.Proofs.Version.Order
import Lineage.Proofs.Version.Rendering
import Lineage.Proofs.Version.Growth
import Lineage.Proofs.Service.Effect
import Lineage.Proofs.Service.Transition
import Lineage.Proofs.Json.Equality
import Lineage.Proofs.Service.Repetition
import Lineage.Proofs.Service.Sanction
import Lineage.Proofs.Service.Concurrency
import Lineage.Proofs.Json.Token
import Lineage.Proofs.Json.Reading
import Lineage.Proofs.Json.Layout
import Lineage.Proofs.Json.Range
import Lineage.Proofs.Uuid
import Lineage.Proofs.Disk
import Lineage.Proofs.Store.Image
import Lineage.Proofs.Store.Agreement
import Lineage.Proofs.Service.Isolation
import Lineage.Proofs.Service.Progress
import Lineage.Proofs.Service.Succession
import Lineage.Proofs.Store.Atomicity
import Lineage.Proofs.Service.Atomicity
import Lineage.Proofs.Service.Identity
import Lineage.Proofs.Service.Discipline
import Lineage.Proofs.Store.Codec
import Lineage.Proofs.Store.Permanence
import Lineage.Proofs.Service.Permanence
import Lineage.Proofs.Service.Reimport
import Lineage.Proofs.Service.Secrecy
import Lineage.Proofs.Database.Migration
import Lineage.Proofs.Database.Connection
import Lineage.Proofs.Service.Connection
import Lineage.Proofs.Definition.Payload
import Lineage.Proofs.CommandLine.Levels
import Lineage.Proofs.CommandLine.Arguments
import Lineage.Proofs.Configuration
import Lineage.Proofs.CommandLine.Answers
import Lineage.Proofs.CommandLine.Run
import Lineage.Proofs.CommandLine.Refinement
import Lineage.Proofs.Version.Precedence
import Lineage.Proofs.Service.Usability
import Lineage.Proofs.Version.Spelling
import Lineage.Proofs.Version.NormalForm
import Lineage.Proofs.Store.Predicate
import Lineage.Proofs.Store.Coherence
import Lineage.Proofs.Service.Reach
import Lineage.Proofs.Store.Decoding
import Lineage.Proofs.Service.Spoilage
import Lineage.Proofs.Logging
import Lineage.Proofs.Json.Members
import Lineage.Proofs.Json.Record
import Lineage.Proofs.Definition.RoundTrip
import Lineage.Proofs.Json.Reordering
