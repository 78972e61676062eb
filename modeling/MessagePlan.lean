import MessagePlan.Dependency.Components
import MessagePlan.Dependency.Loops
import MessagePlan.Document.Configs
import MessagePlan.Document.Graphs
import MessagePlan.Document.Partitions
import MessagePlan.Document.Plans
import MessagePlan.Document.Rules
import MessagePlan.Program.Compile
import MessagePlan.Program.Listing
import MessagePlan.Program.Report
import MessagePlan.Proofs.Steps
import MessagePlan.Proofs.Outcomes
import MessagePlan.Proofs.Graph.Reachable
import MessagePlan.Proofs.Graph.WellFormed
import MessagePlan.Proofs.Graph.Coherent
import MessagePlan.Proofs.Graph.Names
import MessagePlan.Proofs.Graph.FreshNames
import MessagePlan.Proofs.Graph.Refusals
import MessagePlan.Proofs.Json.Reading
import MessagePlan.Proofs.Json.Literals
import MessagePlan.Proofs.Document.Values
import MessagePlan.Proofs.Document.Graphs
import MessagePlan.Proofs.Graph.Reloads
import MessagePlan.Proofs.Schedule.Needs
import MessagePlan.Proofs.Schedule.Invariant
import MessagePlan.Proofs.Schedule.Order
import MessagePlan.Proofs.Rule.Inclusion
import MessagePlan.Proofs.Rule.LeastMatch
import MessagePlan.Proofs.Rule.Permutation
import MessagePlan.Proofs.Rule.Specificity
import MessagePlan.Proofs.Program.Inputs
import MessagePlan.Proofs.Program.Handover
import MessagePlan.Proofs.Program.History
import MessagePlan.Proofs.Program.Arguments
import MessagePlan.Proofs.Program.Sufficiency
import MessagePlan.Proofs.Partition.Membership
import MessagePlan.Proofs.Partition.Division
import MessagePlan.Proofs.Partition.Groups
import MessagePlan.Proofs.Schedule.Targets
import MessagePlan.Proofs.Schedule.Regional
import MessagePlan.Proofs.Schedule.Completion
import MessagePlan.Proofs.Program.Supply
import MessagePlan.Proofs.Program.Regions
import MessagePlan.Proofs.Program.Agreement
import MessagePlan.Proofs.Program.Bindings
import MessagePlan.Proofs.Program.Reordering
import MessagePlan.Proofs.Dependency.Search
import MessagePlan.Proofs.Dependency.Peeling
import MessagePlan.Proofs.Dependency.Components
import MessagePlan.Proofs.Dependency.Loops
import MessagePlan.Proofs.Dependency.Forest
import MessagePlan.Proofs.Dependency.Opposites
import MessagePlan.Proofs.Partition.Growth
import MessagePlan.Proofs.Schedule.Outcomes
import MessagePlan.Proofs.Schedule.Recursion
import MessagePlan.Proofs.Schedule.Shape
import MessagePlan.Proofs.Schedule.Isolation
import MessagePlan.Proofs.Dependency.Breakers
import MessagePlan.Proofs.Program.Outcomes
import MessagePlan.Proofs.Schedule.Priming
import MessagePlan.Proofs.Schedule.Outline
import MessagePlan.Proofs.Partition.Commits
import MessagePlan.Proofs.Program.Whole
import MessagePlan.Proofs.Program.Lifetimes
import MessagePlan.Proofs.Program.Listings
import MessagePlan.Proofs.Program.Outline
import MessagePlan.Proofs.Schedule.Blocks
import MessagePlan.Proofs.Schedule.ValidOrders
import MessagePlan.Proofs.Schedule.Rounds
import MessagePlan.Proofs.Partition.Ownership
