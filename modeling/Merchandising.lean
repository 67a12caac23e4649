import Merchandising.Rule.Describe
import Merchandising.Resolver.Fresh
import Merchandising.Resolver.Team
import Merchandising.Proofs.Query.Matching
import Merchandising.Proofs.Rule.Meaning
import Merchandising.Proofs.Resolver.Correspondence
import Merchandising.Proofs.Resolver.Desk
import Merchandising.Proofs.Resolver.Nested
import Merchandising.Proofs.Resolver.Termination
import Merchandising.Proofs.Json.RoundTrip
import Merchandising.Proofs.Json.Finite
import Merchandising.Proofs.Query.Fields
import Merchandising.Proofs.Query.RoundTrip
import Merchandising.Proofs.Query.Sound
import Merchandising.Proofs.Query.Kept
import Merchandising.Proofs.Query.Codec
import Merchandising.Proofs.Cache.Key
import Merchandising.Proofs.Cache.Tiers
import Merchandising.Proofs.Resolver.Anew
import Merchandising.Proofs.Resolver.Paths
import Merchandising.Proofs.Resolver.Simulation
import Merchandising.Proofs.Resolver.Exact
import Merchandising.Proofs.Resolver.Runs
import Merchandising.Proofs.Resolver.Caching
import Merchandising.Proofs.Resolver.Frame
import Merchandising.Proofs.Resolver.Invalidation
import Merchandising.Proofs.Resolver.Lookup
import Merchandising.Proofs.Schema.Place
import Merchandising.Proofs.Schema.Values
import Merchandising.Proofs.Schema.Assembly
import Merchandising.Proofs.Schema.Fields
import Merchandising.Proofs.Schema.Layout
import Merchandising.Proofs.Schema.Agreement
import Merchandising.Proofs.Resolver.Alike
import Merchandising.Proofs.Resolver.Isolation
import Merchandising.Proofs.Cache.Tags
import Merchandising.Proofs.Resolver.Cuts
import Merchandising.Proofs.Resolver.Bookkeeping
import Merchandising.Proofs.Resolver.Selection
import Merchandising.Proofs.Resolver.Preview
import Merchandising.Proofs.Schema.Targets
import Merchandising.Proofs.Rule.Negation
import Merchandising.Proofs.Rule.Age
import Merchandising.Proofs.Rule.Listed
import Merchandising.Proofs.Cache.Fifo
import Merchandising.Proofs.Catalog.Contents
import Merchandising.Proofs.Resolver.SameCatalog
import Merchandising.Proofs.Schema.Weighted
