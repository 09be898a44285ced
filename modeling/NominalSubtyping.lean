import NominalSubtyping.Config.Settings
import NominalSubtyping.Journal.Line
import NominalSubtyping.Proofs.Cache.Actions
import NominalSubtyping.Proofs.Cache.Adequacy
import NominalSubtyping.Proofs.Cache.Budget
import NominalSubtyping.Proofs.Cache.Coverage
import NominalSubtyping.Proofs.Cache.Demands
import NominalSubtyping.Proofs.Cache.Effects
import NominalSubtyping.Proofs.Cache.Faithful
import NominalSubtyping.Proofs.Cache.Frozen
import NominalSubtyping.Proofs.Cache.History
import NominalSubtyping.Proofs.Cache.Honesty
import NominalSubtyping.Proofs.Cache.Loads
import NominalSubtyping.Proofs.Cache.Outcome
import NominalSubtyping.Proofs.Cache.Steps
import NominalSubtyping.Proofs.Cache.Walks
import NominalSubtyping.Proofs.Graph.Duality
import NominalSubtyping.Proofs.Graph.Reach
import NominalSubtyping.Proofs.Limits.Guard
import NominalSubtyping.Proofs.Limits.History
import NominalSubtyping.Proofs.Query.Answers
import NominalSubtyping.Proofs.Query.Bounds
import NominalSubtyping.Proofs.Query.Demands
import NominalSubtyping.Proofs.Query.Entailment
import NominalSubtyping.Proofs.Query.Lookups
import NominalSubtyping.Proofs.Query.Preorder
import NominalSubtyping.Proofs.Query.Raw
import NominalSubtyping.Proofs.Query.Reuse
import NominalSubtyping.Proofs.Query.Revision
import NominalSubtyping.Proofs.Query.Spelling
import NominalSubtyping.Proofs.Query.Symmetry
import NominalSubtyping.Proofs.Query.Trees
import NominalSubtyping.Proofs.Search
import NominalSubtyping.Proofs.Session.Completeness
import NominalSubtyping.Proofs.Session.Entailment
import NominalSubtyping.Proofs.Session.Exactness
import NominalSubtyping.Proofs.Session.Frozen
import NominalSubtyping.Proofs.Session.Nesting
import NominalSubtyping.Proofs.Session.Operations
import NominalSubtyping.Proofs.Session.Order
import NominalSubtyping.Proofs.Session.Preorder
import NominalSubtyping.Proofs.Session.Provenance
import NominalSubtyping.Proofs.Session.Retries
import NominalSubtyping.Proofs.Session.Run
import NominalSubtyping.Proofs.Session.Safety
import NominalSubtyping.Proofs.Session.Shortcuts
import NominalSubtyping.Proofs.Session.Spelling
import NominalSubtyping.Proofs.Session.Stability
import NominalSubtyping.Proofs.Session.Symmetry
import NominalSubtyping.Proofs.Session.Traffic
import NominalSubtyping.Proofs.Session.Transparency
import NominalSubtyping.Proofs.Source.Catalog
import NominalSubtyping.Proofs.Source.Declared
import NominalSubtyping.Proofs.TypeUse.Brackets
import NominalSubtyping.Proofs.TypeUse.Bytes
import NominalSubtyping.Proofs.TypeUse.Canonical
import NominalSubtyping.Proofs.TypeUse.Text
import NominalSubtyping.Proofs.TypeUse.Tree
import NominalSubtyping.Session
import NominalSubtyping.Source.Catalog
import NominalSubtyping.Source.Deadline
import NominalSubtyping.Source.Script
import NominalSubtyping.TypeUse.Applied
import NominalSubtyping.Proofs.Source.Collection
