import TermRules.Config.Decode
import TermRules.Normalizer
import TermRules.Rule.Template
import TermRules.Term.Occurrence
import TermRules.Variable.Factory
import TermRules.Proofs.Positions
import TermRules.Proofs.Extension
import TermRules.Proofs.Dispatch
import TermRules.Proofs.MatchingTheorems
import TermRules.Proofs.Reduction
import TermRules.Proofs.Placement
import TermRules.Proofs.Normalization
import TermRules.Proofs.Inversion
import TermRules.Proofs.Equality
import TermRules.Proofs.PartialEquivalence
import TermRules.Proofs.Rollback
import TermRules.Proofs.Session
import TermRules.Proofs.Congruence
import TermRules.Proofs.SingleAssignment
import TermRules.Proofs.Admission
import TermRules.Proofs.Minting
import TermRules.Proofs.TemplateRules
import TermRules.Proofs.Groundness
import TermRules.Proofs.Hygiene
import TermRules.Proofs.Sharing
import TermRules.Proofs.FailedMatches
import TermRules.Proofs.Redex
import TermRules.Proofs.Reporting
import TermRules.Proofs.Composition
import TermRules.Proofs.Resolution
import TermRules.Proofs.ElementOrder
import TermRules.Proofs.Rematching
import TermRules.Proofs.Shrinking
import TermRules.Proofs.Derivations
import TermRules.Proofs.Numerals
import TermRules.Proofs.TruthValues
import TermRules.Proofs.Settling
