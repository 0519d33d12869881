import LinkedSearch.Main
import LinkedSearch.Proofs.Outcome
import LinkedSearch.Proofs.Ownership
import LinkedSearch.Proofs.Arena.Ascending
import LinkedSearch.Proofs.Arena.Frame
import LinkedSearch.Proofs.Arena.Reading
import LinkedSearch.Proofs.Agreement
import LinkedSearch.Proofs.Proximity
import LinkedSearch.Proofs.Evolution
import LinkedSearch.Proofs.Resolution
import LinkedSearch.Proofs.Preservation
import LinkedSearch.Proofs.Framing
import LinkedSearch.Proofs.Arena.Settling
import LinkedSearch.Proofs.Resting
import LinkedSearch.Proofs.Advance
import LinkedSearch.Proofs.Starting
import LinkedSearch.Proofs.Aggregates
import LinkedSearch.Proofs.ScanBound
import LinkedSearch.Proofs.Collecting
import LinkedSearch.Proofs.Meaning
import LinkedSearch.Proofs.SemiJoin
import LinkedSearch.Proofs.Following
import LinkedSearch.Proofs.Telling
import LinkedSearch.Proofs.ScanQueries
import LinkedSearch.Proofs.Inlining
import LinkedSearch.Proofs.Arena.Rewriting
import LinkedSearch.Proofs.Arena.Pending
import LinkedSearch.Proofs.Rewriting
import LinkedSearch.Proofs.Yielding
import LinkedSearch.Proofs.Recompiling
import LinkedSearch.Proofs.SharedPaths
import LinkedSearch.Proofs.Requerying
import LinkedSearch.Proofs.Blaming
import LinkedSearch.Proofs.Pending
import LinkedSearch.Proofs.Crossings
import LinkedSearch.Proofs.Using
import LinkedSearch.Proofs.Addressing
import LinkedSearch.Proofs.Restoring
import LinkedSearch.Proofs.Treelike
import LinkedSearch.Proofs.Filtering
import LinkedSearch.Proofs.Arena.Holding
import LinkedSearch.Proofs.Arena.Paths
import LinkedSearch.Proofs.Standing
import LinkedSearch.Proofs.Courses
import LinkedSearch.Proofs.Events
import LinkedSearch.Proofs.Taking
import LinkedSearch.Proofs.Simulation
import LinkedSearch.Proofs.Standalone
import LinkedSearch.Proofs.Interruption
import LinkedSearch.Proofs.Resumption
import LinkedSearch.Proofs.Transparency
import LinkedSearch.Proofs.Primitives
import LinkedSearch.Proofs.Wrapping
import LinkedSearch.Proofs.Accounting
import LinkedSearch.Proofs.Nesting
import LinkedSearch.Proofs.Coincidence
import LinkedSearch.Proofs.Turns
import LinkedSearch.Proofs.Reentry
import LinkedSearch.Proofs.Termination
import LinkedSearch.Proofs.Retrying
import LinkedSearch.Proofs.Unweighted
import LinkedSearch.Proofs.Carrying
import LinkedSearch.Proofs.Admitting
import LinkedSearch.Proofs.Negating
import LinkedSearch.Proofs.Arena.Unweighted
import LinkedSearch.Proofs.Weightless
import LinkedSearch.Proofs.Boosting
import LinkedSearch.Proofs.Tables
import LinkedSearch.Proofs.Rounding
import LinkedSearch.Proofs.Readers
import LinkedSearch.Proofs.Exchanging
import LinkedSearch.Proofs.RoundTrip
import LinkedSearch.Proofs.Quantifying
import LinkedSearch.Proofs.SortKeys
import LinkedSearch.Proofs.ExactScans
import LinkedSearch.Proofs.Paging
import LinkedSearch.Proofs.Repaging
import LinkedSearch.Proofs.PageSizes
import LinkedSearch.Proofs.Sheltering
import LinkedSearch.Proofs.SharedScopes
import LinkedSearch.Proofs.Weighting
import LinkedSearch.Proofs.KeyJoins
import LinkedSearch.Proofs.Synthesized
import LinkedSearch.Proofs.Stripping
import LinkedSearch.Proofs.Arena.Flattening
import LinkedSearch.Proofs.Arena.Substitution
import LinkedSearch.Proofs.ProximityClauses
import LinkedSearch.Proofs.Rendering
import LinkedSearch.Proofs.Subaggregations
import LinkedSearch.Proofs.LinkedAggregates
import LinkedSearch.Proofs.Consulting
import LinkedSearch.Proofs.Conforming
import LinkedSearch.Proofs.Loading
import LinkedSearch.Proofs.Integers
import LinkedSearch.Proofs.Marking
import LinkedSearch.Proofs.Escaping
import LinkedSearch.Proofs.PlainText
import LinkedSearch.Proofs.Prefixes
import LinkedSearch.Proofs.Blocks
import LinkedSearch.Proofs.MultiTerm
import LinkedSearch.Proofs.Arena.Stacking
