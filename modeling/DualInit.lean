import DualInit.Il.Command
import DualInit.Il.Indexed
import DualInit.Il.Machine
import DualInit.Il.Path
import DualInit.Il.StoredBody
import DualInit.Metadata.Growth
import DualInit.Page.Pass
import DualInit.Storage.Clients
import DualInit.Storage.Refusing
import DualInit.Proofs.Endings
import DualInit.Proofs.Il.Offsets
import DualInit.Proofs.Il.Tally
import DualInit.Proofs.Il.Sizing
import DualInit.Proofs.Il.Wrapping
import DualInit.Proofs.Il.Finished
import DualInit.Proofs.Il.History
import DualInit.Proofs.Il.Encoding
import DualInit.Proofs.Il.Reading
import DualInit.Proofs.Il.Discipline
import DualInit.Proofs.Il.Machine
import DualInit.Proofs.Il.Safety
import DualInit.Proofs.Il.Headers
import DualInit.Proofs.Il.Peak
import DualInit.Proofs.Metadata.Rows
import DualInit.Proofs.Metadata.Sections
import DualInit.Proofs.Metadata.Growth
import DualInit.Proofs.Metadata.References
import DualInit.Proofs.Metadata.Names
import DualInit.Proofs.Metadata.FullNames
import DualInit.Proofs.Symbol.Table
import DualInit.Proofs.Symbol.Refreshing
import DualInit.Proofs.Xml.StartTag
import DualInit.Proofs.Xml.Attributes
import DualInit.Proofs.Xml.Reader
import DualInit.Proofs.Page.Classification
import DualInit.Proofs.Page.Initializers
import DualInit.Proofs.Page.BaseConstructor
import DualInit.Proofs.Page.Dispatch
import DualInit.Proofs.Page.FlagConstructor
import DualInit.Proofs.Page.Failures
import DualInit.Proofs.Page.BaseResolution
import DualInit.Proofs.Page.Stages
import DualInit.Proofs.Page.Blindness
import DualInit.Proofs.Page.Refitting
import DualInit.Proofs.Page.Equipping
import DualInit.Proofs.Page.Accounts
import DualInit.Proofs.Page.Frame
import DualInit.Proofs.Page.Settled
import DualInit.Proofs.Page.Symbols
import DualInit.Proofs.Page.Completion
import DualInit.Proofs.Page.Progress
import DualInit.Proofs.Page.Writability
import DualInit.Proofs.Storage.Bodies
import DualInit.Proofs.Storage.Requests
import DualInit.Proofs.Storage.Leases
import DualInit.Proofs.Storage.Symbols
import DualInit.Proofs.Storage.Opening
import DualInit.Proofs.Storage.Writing
import DualInit.Proofs.Storage.Locations
import DualInit.Proofs.Storage.Lookup
import DualInit.Proofs.Storage.SearchDirectories
import DualInit.Proofs.Run.Stages
import DualInit.Proofs.Run.Atomicity
import DualInit.Proofs.Run.Sections
import DualInit.Proofs.Run.Frame
import DualInit.Proofs.Run.Accounting
import DualInit.Proofs.Run.Dispatch
import DualInit.Proofs.Run.Resolving
import DualInit.Proofs.Run.Reopening
import DualInit.Proofs.Run.Idempotence
import DualInit.Proofs.Run.Completion
import DualInit.Proofs.Run.Symbols
import DualInit.Proofs.Run.SymbolSettings
import DualInit.Proofs.Run.Writability
