import LinkedCalls.Main
import LinkedCalls.Workbench.Service
import LinkedCalls.Workbench.Session
import LinkedCalls.Proofs.Table
import LinkedCalls.Proofs.Halves
import LinkedCalls.Proofs.Gate
import LinkedCalls.Proofs.Check
import LinkedCalls.Proofs.Parameters
import LinkedCalls.Proofs.Run
import LinkedCalls.Proofs.Registration
import LinkedCalls.Proofs.History
import LinkedCalls.Proofs.Moves
import LinkedCalls.Proofs.Cascade
import LinkedCalls.Proofs.Stop
import LinkedCalls.Proofs.Effect
import LinkedCalls.Proofs.Commute
import LinkedCalls.Proofs.Rerun
import LinkedCalls.Proofs.Traces
import LinkedCalls.Proofs.Format
import LinkedCalls.Proofs.Answers
import LinkedCalls.Proofs.Assembly
import LinkedCalls.Proofs.Leftovers
import LinkedCalls.Proofs.OneByOne
import LinkedCalls.Proofs.NormalForm
import LinkedCalls.Proofs.Delivery
import LinkedCalls.Proofs.Notifications
import LinkedCalls.Proofs.Echo
import LinkedCalls.Proofs.Decimals
import LinkedCalls.Proofs.Numerals
import LinkedCalls.Proofs.Yaml.Cursor
import LinkedCalls.Proofs.Yaml.Plain
import LinkedCalls.Proofs.Yaml.Quoted
import LinkedCalls.Proofs.Yaml.Escapes
import LinkedCalls.Proofs.Yaml.Scalars
import LinkedCalls.Proofs.Yaml.Scan
import LinkedCalls.Proofs.Yaml.Keys
import LinkedCalls.Proofs.Yaml.Blocks
import LinkedCalls.Proofs.Yaml.Nodes
import LinkedCalls.Proofs.Yaml.Build
import LinkedCalls.Proofs.Yaml.Printed
import LinkedCalls.Proofs.Sources
import LinkedCalls.Proofs.Roundtrip
import LinkedCalls.Proofs.Published
import LinkedCalls.Proofs.Writers
import LinkedCalls.Proofs.Locality
import LinkedCalls.Proofs.Clearing
import LinkedCalls.Proofs.Literals
import LinkedCalls.Proofs.Order
import LinkedCalls.Proofs.Strictness
import LinkedCalls.Proofs.Presence
import LinkedCalls.Proofs.Acceptance
import LinkedCalls.Proofs.Views
import LinkedCalls.Proofs.InsertionOrder
import LinkedCalls.Proofs.Routing
import LinkedCalls.Proofs.LowerCase
import LinkedCalls.Proofs.Prompts
import LinkedCalls.Proofs.Owners
