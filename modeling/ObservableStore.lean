import ObservableStore.Derive
import ObservableStore.Main
import ObservableStore.Store.Counter
import ObservableStore.Proofs.Flow.History
import ObservableStore.Proofs.Flow.WellFormed
import ObservableStore.Proofs.Flow.Delivery
import ObservableStore.Proofs.Store.History
import ObservableStore.Proofs.Store.Owned
import ObservableStore.Proofs.Store.Chain
import ObservableStore.Proofs.Store.Reads
import ObservableStore.Proofs.Scope.Grounded
import ObservableStore.Proofs.Describe
import ObservableStore.Proofs.Wrapper.Imports
import ObservableStore.Proofs.Wrapper.Naming
import ObservableStore.Proofs.Wrapper.ImportBlock
import ObservableStore.Proofs.Wrapper.NameSoundness
import ObservableStore.Proofs.Batch.FirstWins
import ObservableStore.Proofs.Text.Split
import ObservableStore.Proofs.Visibility
import ObservableStore.Proofs.Wrapper.MethodNames
import ObservableStore.Proofs.Scope.Steps
import ObservableStore.Proofs.Scope.ItemOrder
import ObservableStore.Proofs.Scope.Alias
import ObservableStore.Proofs.Scope.Relative
import ObservableStore.Proofs.FileTree.Put
import ObservableStore.Proofs.FileTree.Keeps
import ObservableStore.Proofs.FileTree.Store
import ObservableStore.Proofs.Location
import ObservableStore.Proofs.Sink.NoOverwrite
import ObservableStore.Proofs.Token.Word
import ObservableStore.Proofs.Token.Lexed
import ObservableStore.Proofs.Source.Forward
import ObservableStore.Proofs.Source.Legible
import ObservableStore.Proofs.Source.Reads
import ObservableStore.Proofs.Wrapper.ReadBack
import ObservableStore.Proofs.Wrapper.InlineTypes
import ObservableStore.Proofs.FileTree.Look
import ObservableStore.Proofs.FileTree.Grown
import ObservableStore.Proofs.FileTree.MakeBelow
import ObservableStore.Proofs.FileTree.StoreAgain
import ObservableStore.Proofs.FileTree.Listing
import ObservableStore.Proofs.FileTree.Places
import ObservableStore.Proofs.FileTree.Alike
import ObservableStore.Proofs.FileTree.Remove
import ObservableStore.Proofs.Text.SnakeCase
import ObservableStore.Proofs.Sink.Output
import ObservableStore.Proofs.Batch.Discoveries
import ObservableStore.Proofs.Batch.Regeneration
import ObservableStore.Proofs.Batch.Complete
import ObservableStore.Proofs.Alone
import ObservableStore.Proofs.Flow.Ending
import ObservableStore.Proofs.Flow.Registry
import ObservableStore.Proofs.Wrapper.Update
import ObservableStore.Proofs.Store.Untorn
import ObservableStore.Proofs.Sink.Refinement
import ObservableStore.Proofs.Sink.Rejected
import ObservableStore.Proofs.Token.Identifier
import ObservableStore.Proofs.Shape.Rendered
import ObservableStore.Proofs.Token.Closes
import ObservableStore.Proofs.Source.Spelled
import ObservableStore.Proofs.Spelled
import ObservableStore.Proofs.Wrapper.Lines
import ObservableStore.Proofs.Wrapper.Tokens
import ObservableStore.Proofs.Derive
import ObservableStore.Proofs.Wrapper.Determined
import ObservableStore.Proofs.Batch.Visits
import ObservableStore.Proofs.Namespace
import ObservableStore.Proofs.CommandLine.Describe
import ObservableStore.Proofs.Wrapper.BoundNames
import ObservableStore.Proofs.Acceptance
import ObservableStore.Proofs.Discovery
import ObservableStore.Proofs.Watch.Filter
import ObservableStore.Proofs.Scope.Leaves
import ObservableStore.Proofs.Scope.Qualified
import ObservableStore.Proofs.ModuleFiles
import ObservableStore.Proofs.FileTree.WalkOrder
import ObservableStore.Proofs.Namespace.Spellings
import ObservableStore.Proofs.Wrapper.Identifiers
