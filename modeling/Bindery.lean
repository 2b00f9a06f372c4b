import Bindery.Main
import Bindery.Scaffold
import Bindery.Proofs.Isolation
import Bindery.Proofs.Idempotence
import Bindery.Proofs.Coverage
import Bindery.Proofs.Phases
import Bindery.Proofs.Keys
import Bindery.Proofs.Signatures
import Bindery.Proofs.Members
import Bindery.Proofs.Loading
import Bindery.Proofs.Words
import Bindery.Proofs.Declarations
import Bindery.Proofs.Blocks
import Bindery.Proofs.ConstantLines
import Bindery.Proofs.MemberLines
import Bindery.Proofs.Numbering
import Bindery.Proofs.Expressions
import Bindery.Proofs.FlagLines
import Bindery.Proofs.FlagValues
import Bindery.Proofs.Changes
import Bindery.Proofs.Reports
import Bindery.Proofs.Locality
import Bindery.Proofs.Independence
import Bindery.Proofs.Leading
import Bindery.Proofs.Comments
import Bindery.Proofs.Prediction
import Bindery.Proofs.Counting
import Bindery.Proofs.Interruption
import Bindery.Proofs.Locating
import Bindery.Proofs.Applying
import Bindery.Proofs.Markers
import Bindery.Proofs.ReadBack
import Bindery.Proofs.Scaffold
import Bindery.Proofs.Additions
import Bindery.Proofs.Bare
import Bindery.Proofs.Roundtrip
import Bindery.Proofs.Joining
import Bindery.Proofs.FreeTexts
import Bindery.Proofs.Rendering
import Bindery.Proofs.RenderedFunctions
import Bindery.Proofs.Stability
import Bindery.Proofs.Interleaving
import Bindery.Proofs.Combinations
import Bindery.Proofs.Entries
import Bindery.Proofs.Parameters
import Bindery.Proofs.Decoding
import Bindery.Proofs.Hoisting
import Bindery.Proofs.DelegateNames
import Bindery.Proofs.Replacing
import Bindery.Proofs.Marshalling
import Bindery.Proofs.FlagTexts
import Bindery.Proofs.Decomposition
import Bindery.Proofs.Scanners
import Bindery.Proofs.Literals
import Bindery.Proofs.ErrorTexts
import Bindery.Proofs.JsonTokens
import Bindery.Proofs.Json
import Bindery.Proofs.Initializers
import Bindery.Proofs.CodeLines
import Bindery.Proofs.HeaderComments
import Bindery.Proofs.MemberNames
import Bindery.Proofs.MemberValues
import Bindery.Proofs.MacroNames
import Bindery.Proofs.EmbeddedSchemas
import Bindery.Proofs.FlagForms
import Bindery.Proofs.EnumerationForms
import Bindery.Proofs.LeadingComments
import Bindery.Proofs.Spans
import Bindery.Proofs.ConstantCase
import Bindery.Proofs.FixedNames
import Bindery.Proofs.RepeatedRenewal
import Bindery.Proofs.FolderRenewal
import Bindery.Proofs.MissingNames
import Bindery.Proofs.Ownership
import Bindery.Proofs.Defaults
import Bindery.Proofs.PythonLines
import Bindery.Proofs.Offsets
import Bindery.Proofs.Indentation
