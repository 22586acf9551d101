import GraphQLEngine.Blog.Engine
import GraphQLEngine.Broker.Session
import GraphQLEngine.Cancellation.History
import GraphQLEngine.Config.Settings
import GraphQLEngine.Dispatch.Table
import GraphQLEngine.Document.Outline
import GraphQLEngine.Json.Parser
import GraphQLEngine.Json.Printer
import GraphQLEngine.Main
import GraphQLEngine.Request.Validate
import GraphQLEngine.Schema.Builder
import GraphQLEngine.Schema.Encoding
import GraphQLEngine.Schema.Reachable
import GraphQLEngine.Script.Engine
import GraphQLEngine.Session.Step
import GraphQLEngine.Proofs.Lists
import GraphQLEngine.Proofs.Graph.Ledger
import GraphQLEngine.Proofs.Graph.Completion
import GraphQLEngine.Proofs.Loads.Coordinator
import GraphQLEngine.Proofs.Loads.Settling
import GraphQLEngine.Proofs.Loads.Batching
import GraphQLEngine.Proofs.Loads.Chains
import GraphQLEngine.Proofs.Graph.Waves
import GraphQLEngine.Proofs.Graph.Runs
import GraphQLEngine.Proofs.Requests.Selection
import GraphQLEngine.Proofs.Requests.Collection
import GraphQLEngine.Proofs.Schemas.Traversal
import GraphQLEngine.Proofs.Schemas.Declarations
import GraphQLEngine.Proofs.Schemas.Sealing
import GraphQLEngine.Proofs.Schemas.Resolvers
import GraphQLEngine.Proofs.Responses.Streams
import GraphQLEngine.Proofs.Graph.Tree
import GraphQLEngine.Proofs.Responses.Conformance
import GraphQLEngine.Proofs.Graph.Places
import GraphQLEngine.Proofs.Responses.Accounting
import GraphQLEngine.Proofs.Loads.Plans
import GraphQLEngine.Proofs.Responses.DepthFirst
import GraphQLEngine.Proofs.Brokers.Delivery
import GraphQLEngine.Proofs.Brokers.Sessions
import GraphQLEngine.Proofs.Waves.Steps
import GraphQLEngine.Proofs.Waves.Tasks
import GraphQLEngine.Proofs.Waves.Operations
import GraphQLEngine.Proofs.Waves.Dispatch
import GraphQLEngine.Proofs.Waves.Known
import GraphQLEngine.Proofs.Waves.Logs
import GraphQLEngine.Proofs.Waves.Loads
import GraphQLEngine.Proofs.Waves.Discipline
import GraphQLEngine.Proofs.Graph.Grafting
import GraphQLEngine.Proofs.Mutations.Store
import GraphQLEngine.Proofs.Mutations.Roots
import GraphQLEngine.Proofs.Mutations.Logs
import GraphQLEngine.Proofs.Mutations.Sequence
import GraphQLEngine.Proofs.Access.Invocations
import GraphQLEngine.Proofs.Access.Denial
import GraphQLEngine.Proofs.Cancellation.Stopping
import GraphQLEngine.Proofs.Requests.Values
import GraphQLEngine.Proofs.Requests.Merging
import GraphQLEngine.Proofs.Requests.Occurrences
import GraphQLEngine.Proofs.Requests.Documents
import GraphQLEngine.Proofs.Brokers.Lossy
import GraphQLEngine.Proofs.Brokers.Wakeups
import GraphQLEngine.Proofs.Brokers.Routing
import GraphQLEngine.Proofs.Subscriptions.Starting
import GraphQLEngine.Proofs.Brokers.Bridging
import GraphQLEngine.Proofs.Brokers.Ordering
import GraphQLEngine.Proofs.Brokers.Turns
import GraphQLEngine.Proofs.Subscriptions.Twins
import GraphQLEngine.Proofs.Subscriptions.Surroundings
import GraphQLEngine.Proofs.Subscriptions.Lives
import GraphQLEngine.Proofs.Subscriptions.Images
import GraphQLEngine.Proofs.Brokers.Calls
import GraphQLEngine.Proofs.Brokers.Races
import GraphQLEngine.Proofs.Schemas.Rereading
import GraphQLEngine.Proofs.Schemas.Survival
import GraphQLEngine.Proofs.Errors.Likeness
import GraphQLEngine.Proofs.Errors.Executions
import GraphQLEngine.Proofs.Errors.Histories
import GraphQLEngine.Proofs.Responses.Dealings
import GraphQLEngine.Proofs.Brokers.Releases
import GraphQLEngine.Proofs.Subscriptions.Releases
import GraphQLEngine.Proofs.Loads.Functional
import GraphQLEngine.Proofs.Loads.Resting
import GraphQLEngine.Proofs.Waves.Strides
import GraphQLEngine.Proofs.Waves.Promptness
import GraphQLEngine.Proofs.Waves.Capping
import GraphQLEngine.Proofs.Loads.Chaining
import GraphQLEngine.Proofs.Loads.Depth
import GraphQLEngine.Proofs.Requests.Arguments
import GraphQLEngine.Proofs.Requests.Expansion
import GraphQLEngine.Proofs.Requests.Rules
import GraphQLEngine.Proofs.Requests.Simulation
import GraphQLEngine.Proofs.Requests.Inlining
import GraphQLEngine.Proofs.Requests.Substitution
import GraphQLEngine.Proofs.Requests.Limits
import GraphQLEngine.Proofs.Responses.Leaves
import GraphQLEngine.Proofs.Waves.Nulling
import GraphQLEngine.Proofs.Config.Rendering
import GraphQLEngine.Proofs.Cancellation.Causes
