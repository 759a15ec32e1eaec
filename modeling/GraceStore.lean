import GraceStore.Main
import GraceStore.ThreadRandom
import GraceStore.Reclaim.Realm
import GraceStore.Store.Operation
import GraceStore.Proofs.Engine.Replay
import GraceStore.Proofs.Reclaim.Safety
import GraceStore.Proofs.Store.Declined
import GraceStore.Proofs.Store.LiveContents
import GraceStore.Proofs.Store.Tokens
import GraceStore.Proofs.Connection.Pipelines
import GraceStore.Proofs.Wire.Grammar
import GraceStore.Proofs.Connection.Cuts
import GraceStore.Proofs.Number.Lengths
import GraceStore.Proofs.Command.Ceiling
import GraceStore.Proofs.Engine.Ceiling
import GraceStore.Proofs.Connection.Server
import GraceStore.Proofs.Wire.Replies
import GraceStore.Proofs.Engine.Interleavings
import GraceStore.Proofs.Store.Bookkeeping
import GraceStore.Proofs.Store.Books
import GraceStore.Proofs.Store.Grants
import GraceStore.Proofs.Engine.Conversation
import GraceStore.Proofs.Command.PassedOn
import GraceStore.Proofs.Store.Foreign
import GraceStore.Proofs.Store.Unsharing
import GraceStore.Proofs.Command.Overlay
import GraceStore.Proofs.Command.Counting
import GraceStore.Proofs.Command.Sums
import GraceStore.Proofs.Command.Resums
import GraceStore.Proofs.Command.SetRequests
import GraceStore.Proofs.Store.Presence
import GraceStore.Proofs.Store.Sweep
import GraceStore.Proofs.Command.Replies
import GraceStore.Proofs.Command.TimeLeft
import GraceStore.Proofs.Command.Slices
import GraceStore.Proofs.Command.Accord
import GraceStore.Proofs.Connection.Waiting
import GraceStore.Proofs.Command.Encoding
