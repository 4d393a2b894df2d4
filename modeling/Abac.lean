import Abac.Configuration
import Abac.Proofs.Condition.Alternatives
import Abac.Proofs.Condition.Merging
import Abac.Proofs.Condition.Operators
import Abac.Proofs.Condition.Overwriting
import Abac.Proofs.Declaration.Shapes
import Abac.Proofs.Denotation
import Abac.Proofs.GroupExpr.Printing
import Abac.Proofs.GroupMembers
import Abac.Proofs.Height
import Abac.Proofs.IntegerAttributes
import Abac.Proofs.Membership
import Abac.Proofs.Mixins
import Abac.Proofs.Noninterference
import Abac.Proofs.Rule.Chains
import Abac.Proofs.Rule.Completeness
import Abac.Proofs.Rule.Soundness
import Abac.Proofs.Snapshot.Completeness
import Abac.Proofs.Store.Texts
import Abac.Session
import Abac.Proofs.Condition.Independence
import Abac.Proofs.Condition.OperatorObjects
import Abac.Proofs.Condition.Normalization
import Abac.Proofs.GroupOfOne
import Abac.Proofs.Store.Loading
import Abac.Proofs.Condition.Frame
import Abac.Proofs.Snapshot.Insertion
import Abac.Proofs.Configuration
import Abac.Proofs.Termination
