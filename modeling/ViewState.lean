import ViewState.Base64Url
import ViewState.Composition
import ViewState.Console.Arguments
import ViewState.Console.Grammar
import ViewState.Console.Json
import ViewState.Console.Program
import ViewState.Console.Report
import ViewState.Envelope
import ViewState.Failure
import ViewState.Files.Tree
import ViewState.Hash.Blake3
import ViewState.Identifier.Allocator
import ViewState.Identifier.Counter
import ViewState.Main
import ViewState.Node
import ViewState.Node.Wire
import ViewState.Persistence
import ViewState.Proofs.Base64Url
import ViewState.Proofs.Base64Url.Spelling
import ViewState.Proofs.Composition
import ViewState.Proofs.Composition.Flags
import ViewState.Proofs.Envelope
import ViewState.Proofs.Envelope.Authentication
import ViewState.Proofs.Files.Search
import ViewState.Proofs.Files.Tree
import ViewState.Proofs.Identifier.Accounting
import ViewState.Proofs.Identifier.Counter
import ViewState.Proofs.Identifier.Distinct
import ViewState.Proofs.Identifier.Isolation
import ViewState.Proofs.Identifier.Lockstep
import ViewState.Proofs.Identifier.Nesting
import ViewState.Proofs.Identifier.Replay
import ViewState.Proofs.Identifier.Run
import ViewState.Proofs.Identifier.Spelling
import ViewState.Proofs.Identifier.Substitution
import ViewState.Proofs.Identifier.Table
import ViewState.Proofs.Node.Codec
import ViewState.Proofs.Node.DocumentOrder
import ViewState.Proofs.Node.Reading
import ViewState.Proofs.Node.Wire
import ViewState.Proofs.Persistence.Frame
import ViewState.Proofs.Persistence.Guards
import ViewState.Proofs.Persistence.Mode
import ViewState.Proofs.Persistence.Provenance
import ViewState.Proofs.Persistence.Retention
import ViewState.Proofs.Persistence.RoundTrip
import ViewState.Proofs.Persistence.Run
import ViewState.Proofs.Reconciler.Closing
import ViewState.Proofs.Reconciler.Deleting
import ViewState.Proofs.Reconciler.Pass
import ViewState.Proofs.Reconciler.Pooling
import ViewState.Proofs.Reconciler.Pruning
import ViewState.Proofs.Reconciler.Reaffirming
import ViewState.Proofs.Reconciler.Rebuild
import ViewState.Proofs.Reconciler.Run
import ViewState.Proofs.Reconciler.Survival
import ViewState.Proofs.Settings.Record
import ViewState.Proofs.SortedMap
import ViewState.Proofs.Store.Basic
import ViewState.Proofs.Store.Damage
import ViewState.Proofs.Store.Listing
import ViewState.Proofs.Store.Memory
import ViewState.Proofs.Store.Queue
import ViewState.Proofs.Store.Table
import ViewState.Proofs.Store.Transaction
import ViewState.Proofs.Template.Content
import ViewState.Proofs.Template.Directory
import ViewState.Proofs.Template.Failing
import ViewState.Proofs.Template.Freshness
import ViewState.Proofs.Template.Parameters
import ViewState.Proofs.Template.Run
import ViewState.Proofs.Template.Staleness
import ViewState.Proofs.Template.Walk
import ViewState.Proofs.Text.Decimal
import ViewState.Proofs.Ticket
import ViewState.Proofs.Ticket.Spelling
import ViewState.Proofs.Wire
import ViewState.Proofs.Wire.Format
import ViewState.Proofs.Wire.Reading
import ViewState.Proofs.Wire.Spending
import ViewState.Reconciler
import ViewState.Request
import ViewState.Settings.Basic
import ViewState.Settings.Document
import ViewState.Settings.Record
import ViewState.SortedMap
import ViewState.Store.Basic
import ViewState.Store.Image
import ViewState.Store.Memory
import ViewState.Store.Table
import ViewState.Template.Cache
import ViewState.Template.Directory
import ViewState.Template.Walk
import ViewState.Template.Window
import ViewState.Text.Blank
import ViewState.Text.Decimal
import ViewState.Text.Utf8
import ViewState.Ticket
import ViewState.Wire.Basic
import ViewState.Word
