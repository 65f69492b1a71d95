import EngineHost.Main
import EngineHost.Session.Run
import EngineHost.Proofs.Steps
import EngineHost.Proofs.Releases
import EngineHost.Proofs.Messages
import EngineHost.Proofs.Upkeep
import EngineHost.Proofs.Handover
import EngineHost.Proofs.Reading
import EngineHost.Proofs.Calls
import EngineHost.Proofs.Dealings
import EngineHost.Proofs.Conduct
import EngineHost.Proofs.Balance
import EngineHost.Proofs.Discharge
import EngineHost.Proofs.Calendar
import EngineHost.Proofs.RoundTrip
import EngineHost.Proofs.Sorting
import EngineHost.Proofs.Types
import EngineHost.Proofs.Names
import EngineHost.Proofs.Files
import EngineHost.Proofs.Declarations
import EngineHost.Proofs.Registration
import EngineHost.Proofs.Lookup
import EngineHost.Proofs.Cabinet
import EngineHost.Proofs.Watching
import EngineHost.Proofs.Unwinding
import EngineHost.Proofs.Kinship
import EngineHost.Proofs.Reach
import EngineHost.Proofs.Programs
import EngineHost.Proofs.Footprint
import EngineHost.Proofs.Interruption
import EngineHost.Proofs.Adoption
import EngineHost.Proofs.Replies
import EngineHost.Proofs.SymbolCache
import EngineHost.Proofs.Accesses
import EngineHost.Proofs.Barring
import EngineHost.Proofs.Views
import EngineHost.Proofs.Vocabulary
import EngineHost.Proofs.Delivery
import EngineHost.Proofs.Destroyed
import EngineHost.Proofs.Legibility
import EngineHost.Proofs.Rereading
import EngineHost.Proofs.Validation
import EngineHost.Proofs.Custody
import EngineHost.Proofs.Surfacing
import EngineHost.Proofs.Tenants
import EngineHost.Proofs.Compartments
import EngineHost.Proofs.Desks
import EngineHost.Proofs.Isolation
import EngineHost.Proofs.Tenancy
import EngineHost.Proofs.ScriptedScopes
import EngineHost.Proofs.Neighbours
import EngineHost.Proofs.Meanings
import EngineHost.Proofs.Aliases
import EngineHost.Proofs.Expansion
import EngineHost.Proofs.Instants
import EngineHost.Proofs.Variables
import EngineHost.Proofs.Precedence
import EngineHost.Proofs.Offences
import EngineHost.Proofs.Evaluators
import EngineHost.Proofs.Entries
import EngineHost.Proofs.Scopeless
import EngineHost.Proofs.Globals
import EngineHost.Proofs.Malformed
import EngineHost.Proofs.ExitStatus
import EngineHost.Proofs.Milliseconds
import EngineHost.Proofs.CanonicalTypes
import EngineHost.Proofs.Misfits
import EngineHost.Proofs.Drafts
import EngineHost.Proofs.Carets
import EngineHost.Proofs.Illegible
import EngineHost.Proofs.Configuration
import EngineHost.Proofs.Definitions
import EngineHost.Proofs.EngineSpecs
import EngineHost.Proofs.Numerals
import EngineHost.Proofs.JsonTexts
import EngineHost.Proofs.TypedInputs
import EngineHost.Proofs.Interludes
import EngineHost.Proofs.DisplayedTypes
