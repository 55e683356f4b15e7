import ApiContract.Main
import ApiContract.Proofs.Types.Mapping
import ApiContract.Proofs.Endpoint.Signing
import ApiContract.Proofs.Types.Components
import ApiContract.Proofs.Endpoint.Rollback
import ApiContract.Proofs.Types.Spread
import ApiContract.Proofs.Types.Faultless
import ApiContract.Proofs.Types.Failures
import ApiContract.Proofs.Types.Order
import ApiContract.Proofs.Types.Linked
import ApiContract.Proofs.Endpoint.References
import ApiContract.Proofs.Endpoint.Attempts
import ApiContract.Proofs.Run.Stages
import ApiContract.Proofs.Run.References
import ApiContract.Proofs.Contract.Labels
import ApiContract.Proofs.Endpoint.Groups
import ApiContract.Proofs.Source.Plain
import ApiContract.Proofs.Run.Accounts
import ApiContract.Proofs.Types.WellNamed
import ApiContract.Proofs.Run.Reachable
import ApiContract.Proofs.Types.Rebuild
import ApiContract.Proofs.Types.Built
import ApiContract.Proofs.Endpoint.Paths
import ApiContract.Proofs.Contract.Parameters
import ApiContract.Proofs.Naming.Legal
import ApiContract.Proofs.Endpoint.Bindings
import ApiContract.Proofs.Contract.Duplicates
import ApiContract.Proofs.Contract.Targets
import ApiContract.Proofs.Contract.Closed
import ApiContract.Proofs.Types.Lookups
import ApiContract.Proofs.Run.Lookups
import ApiContract.Proofs.Types.Overrides
import ApiContract.Proofs.Source.Annotations
import ApiContract.Proofs.Source.Comments
import ApiContract.Proofs.Run.Paths
import ApiContract.Proofs.Run.Repeated
import ApiContract.Proofs.Endpoint.Classes
import ApiContract.Proofs.Endpoint.Qualified
import ApiContract.Proofs.Source.Imports
import ApiContract.Proofs.Run.Imports
import ApiContract.Proofs.Contract.Fields
import ApiContract.Proofs.Contract.Unplaced
import ApiContract.Proofs.Contract.UpgradedSchemas
import ApiContract.Proofs.Contract.UpgradedOperations
import ApiContract.Proofs.Contract.Upgraded
import ApiContract.Proofs.Types.Flattened
import ApiContract.Proofs.Types.Cycles
import ApiContract.Proofs.Run.Confined
import ApiContract.Proofs.Run.Dialects
import ApiContract.Proofs.Run.Undone
import ApiContract.Proofs.Endpoint.Distinct
import ApiContract.Proofs.Run.Binary
import ApiContract.Proofs.Contract.Bodies
import ApiContract.Proofs.Endpoint.Bodies
import ApiContract.Proofs.Run.Formed
import ApiContract.Proofs.Contract.Overriding
import ApiContract.Proofs.Contract.Following
import ApiContract.Proofs.Run.Unordered
import ApiContract.Proofs.Contract.Addresses
import ApiContract.Proofs.Endpoint.Primary
import ApiContract.Proofs.Doc.Failures
import ApiContract.Proofs.Types.Endless
import ApiContract.Proofs.Run.Resolved
import ApiContract.Proofs.Contract.Answers
import ApiContract.Proofs.Doc.Nesting
import ApiContract.Proofs.Doc.Reading
import ApiContract.Proofs.Source.Members
import ApiContract.Proofs.Source.Mentions
import ApiContract.Proofs.Source.Needed
import ApiContract.Proofs.Source.Constants
import ApiContract.Proofs.Source.Numbers
import ApiContract.Proofs.Contract.Locations
import ApiContract.Proofs.Contract.Repetitions
import ApiContract.Proofs.Naming.Words
import ApiContract.Proofs.Naming.Methods
import ApiContract.Proofs.Naming.Plurals
import ApiContract.Proofs.Run.Owners
