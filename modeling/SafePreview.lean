import SafePreview.Main
import SafePreview.Web.Schedule
import SafePreview.Proofs.Markup.Output
import SafePreview.Proofs.Markup.FixedPoint
import SafePreview.Proofs.Session.History
import SafePreview.Proofs.Session.Delivery
import SafePreview.Proofs.Preview.Outline
import SafePreview.Proofs.Preview.Fragment
import SafePreview.Proofs.Block.Walk
import SafePreview.Proofs.Block.Subtree
import SafePreview.Proofs.Preview.Lines
import SafePreview.Proofs.Preview.Mapping
import SafePreview.Proofs.Preview.Project
import SafePreview.Proofs.Session.Callers
import SafePreview.Proofs.Web.Moves
import SafePreview.Proofs.Web.Beats
import SafePreview.Proofs.Web.Runs
import SafePreview.Proofs.Web.Accounts
import SafePreview.Proofs.Block.Defects
import SafePreview.Proofs.Preview.Reordering
import SafePreview.Proofs.Preview.Partition
import SafePreview.Proofs.Preview.Tokens
import SafePreview.Proofs.Markup.Removal
import SafePreview.Proofs.Markup.Attributes
import SafePreview.Proofs.Preview.Styles
import SafePreview.Proofs.Preview.Unchanged
import SafePreview.Proofs.Session.Mailbox
import SafePreview.Proofs.Session.Calls
import SafePreview.Proofs.Session.Handshake
import SafePreview.Proofs.Session.Hosts
import SafePreview.Proofs.Session.Lifecycle
import SafePreview.Proofs.Session.Order
import SafePreview.Proofs.Session.Register
import SafePreview.Proofs.Session.Settling
import SafePreview.Proofs.Asset.Keys
import SafePreview.Proofs.Asset.Resolution
import SafePreview.Proofs.Markup.Nesting
import SafePreview.Proofs.Preview.Container
import SafePreview.Proofs.Session.Acknowledgement
import SafePreview.Proofs.Asset.Paths
import SafePreview.Proofs.Preview.Lookup
import SafePreview.Proofs.Preview.Directives
import SafePreview.Proofs.Markup.Addresses
import SafePreview.Proofs.Markup.Account
import SafePreview.Proofs.Json.Held
import SafePreview.Proofs.Json.Records
import SafePreview.Proofs.Block.Payloads
import SafePreview.Proofs.Block.Wires
import SafePreview.Proofs.Markup.Permissions
import SafePreview.Proofs.Markup.Bytewise
import SafePreview.Proofs.Markup.Progress
