import BeanContainer.Execution
import BeanContainer.Scripted
import BeanContainer.Interleaving
import BeanContainer.Proofs.OrderedMap
import BeanContainer.Proofs.Aliases
import BeanContainer.Proofs.Outcome
import BeanContainer.Proofs.Sessions
import BeanContainer.Proofs.DependencyGraph
import BeanContainer.Proofs.EdgeList
import BeanContainer.Proofs.Guards
import BeanContainer.Proofs.Budget
import BeanContainer.Proofs.Quiet
import BeanContainer.Proofs.Teardown
import BeanContainer.Proofs.Lineage
import BeanContainer.Proofs.Merges
import BeanContainer.Proofs.MergeQueries
import BeanContainer.Proofs.Factories
import BeanContainer.Proofs.Manners
import BeanContainer.Proofs.Ending
import BeanContainer.Proofs.Reading
import BeanContainer.Proofs.ReadingCalls
import BeanContainer.Proofs.Redefining
import BeanContainer.Proofs.ReadingScripts
import BeanContainer.Proofs.Resets
import BeanContainer.Proofs.MergedCache
import BeanContainer.Proofs.Inheritance
import BeanContainer.Proofs.CurrentMerges
import BeanContainer.Proofs.Needs
import BeanContainer.Proofs.Building
import BeanContainer.Proofs.Preinstantiation
import BeanContainer.Proofs.Uses
import BeanContainer.Proofs.Making
import BeanContainer.Proofs.Resolution
import BeanContainer.Proofs.Calls
import BeanContainer.Proofs.Operations
import BeanContainer.Proofs.Changes
import BeanContainer.Proofs.Permitted
import BeanContainer.Proofs.Chronicle
import BeanContainer.Proofs.Barred
import BeanContainer.Proofs.Confined
import BeanContainer.Proofs.Providers
import BeanContainer.Proofs.Scopes
import BeanContainer.Proofs.Hosting
import BeanContainer.Proofs.ScopeEnds
import BeanContainer.Proofs.ScopedBeans
import BeanContainer.Proofs.Interleaving
import BeanContainer.Proofs.Undisturbed
import BeanContainer.Proofs.ManualNames
import BeanContainer.Proofs.NamesApart
import BeanContainer.Proofs.Sealed
import BeanContainer.Proofs.Uncached
import BeanContainer.Proofs.Prototypes
import BeanContainer.Proofs.Ancestry
import BeanContainer.Proofs.Recording
import BeanContainer.Proofs.Farewells
import BeanContainer.Proofs.Sweeps
import BeanContainer.Proofs.Aftermath
import BeanContainer.Proofs.Refusals
import BeanContainer.Proofs.Growing
import BeanContainer.Proofs.Circles
import BeanContainer.Proofs.AliasResolution
import BeanContainer.Proofs.Layering
import BeanContainer.Proofs.ParentWalks
import BeanContainer.Proofs.AliasImages
import BeanContainer.Proofs.AliasSearches
import BeanContainer.Proofs.Candidates
import BeanContainer.Proofs.Startup
import BeanContainer.Proofs.Readiness
