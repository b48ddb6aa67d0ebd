import ConfiguredPredicates.Entity.Text
import ConfiguredPredicates.Config.Layered
import ConfiguredPredicates.Config.Lookup
import ConfiguredPredicates.Predicate.Violation
import ConfiguredPredicates.Predicate.Text
import ConfiguredPredicates.Proofs.Layers.Condition
import ConfiguredPredicates.Proofs.Grammar
import ConfiguredPredicates.Proofs.RoundTrip
import ConfiguredPredicates.Proofs.Places
import ConfiguredPredicates.Proofs.ReadBack
import ConfiguredPredicates.Proofs.FirstViolation
import ConfiguredPredicates.Proofs.Config.LookupOutcome
import ConfiguredPredicates.Proofs.Config.RootPredicate
import ConfiguredPredicates.Proofs.Printed.Predicates
import ConfiguredPredicates.Proofs.OperatorKeys
import ConfiguredPredicates.Proofs.Layers.Related
import ConfiguredPredicates.Proofs.Limit.Threshold
import ConfiguredPredicates.Proofs.Limit.Contexts
import ConfiguredPredicates.Proofs.Limit.Horizon
import ConfiguredPredicates.Proofs.PathText
import ConfiguredPredicates.Proofs.Equality.Reading
import ConfiguredPredicates.Proofs.Config.CompoundKeys
import ConfiguredPredicates.Proofs.Config.KeyGrammar
import ConfiguredPredicates.Proofs.Equality.Alike
import ConfiguredPredicates.Proofs.Insertions
import ConfiguredPredicates.Proofs.Written.Accepted
import ConfiguredPredicates.Proofs.MemberOrder
