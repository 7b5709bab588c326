import Arbiter.Main
import Arbiter.Chain.Plain
import Arbiter.Number.Shortest
import Arbiter.Script.Hooks
import Arbiter.Simulation.Command
import Arbiter.Number.Decimal
import Arbiter.Grid.Tiles
import Arbiter.Proofs.Spine.Sound
import Arbiter.Proofs.Chain.Sound
import Arbiter.Proofs.Chain.Outcome
import Arbiter.Proofs.Runner.Control
import Arbiter.Proofs.Runner.Operation
import Arbiter.Proofs.Runner.Exclusive
import Arbiter.Proofs.Lifecycle.Instance
import Arbiter.Proofs.Lifecycle.Lives
import Arbiter.Proofs.Lifecycle.Spine
import Arbiter.Proofs.Lifecycle.Chain
import Arbiter.Proofs.Lifecycle.Runner
import Arbiter.Proofs.Numbering.Runner
import Arbiter.Proofs.Lifecycle.Pairing
import Arbiter.Proofs.Agent.UserChain
import Arbiter.Proofs.Grid.Refuge
import Arbiter.Proofs.Ticks
import Arbiter.Proofs.World.Deeds
import Arbiter.Proofs.Job.Walking
import Arbiter.Proofs.Agent.Basic
import Arbiter.Proofs.Agent.Survival
import Arbiter.Proofs.Agent.Escape
import Arbiter.Proofs.Job.Turns
import Arbiter.Proofs.Job.Recovery
import Arbiter.Proofs.Conduct.Spine
import Arbiter.Proofs.Conduct.Chain
import Arbiter.Proofs.Conduct.Runner
import Arbiter.Proofs.Conduct.Agent
import Arbiter.Proofs.Agent.Meals
import Arbiter.Proofs.Agent.Room
import Arbiter.Proofs.Agent.Replay
import Arbiter.Proofs.Agent.Movement
import Arbiter.Proofs.Runner.Halt
import Arbiter.Proofs.Agent.Lookup
import Arbiter.Proofs.Agent.Halt
import Arbiter.Proofs.Runner.Events
import Arbiter.Proofs.Spine.Lasting
import Arbiter.Proofs.Spine.Continuity
import Arbiter.Proofs.Spine.Refusal
import Arbiter.Proofs.Agent.Cues
import Arbiter.Proofs.Job.Detour
import Arbiter.Proofs.World.Rations
import Arbiter.Proofs.Job.Meal
import Arbiter.Proofs.Agent.Hunger
import Arbiter.Proofs.Agent.Feast
import Arbiter.Proofs.World.Refuge
import Arbiter.Proofs.Grid.Path
import Arbiter.Proofs.Job.Direct
import Arbiter.Proofs.Job.Veto
import Arbiter.Proofs.World.Mobs
import Arbiter.Proofs.Job.Fight
import Arbiter.Proofs.Job.Assault
import Arbiter.Proofs.Agent.Guard
import Arbiter.Proofs.Agent.Defense
import Arbiter.Proofs.Chain.Service
import Arbiter.Proofs.Number.Order
import Arbiter.Proofs.Runner.Arbitration
import Arbiter.Proofs.Spine.RollCall
import Arbiter.Proofs.Agent.Rounds
import Arbiter.Proofs.Agent.Servings
import Arbiter.Proofs.World.Roaming
import Arbiter.Proofs.Job.Wandering
import Arbiter.Proofs.Agent.Unstuck
import Arbiter.Proofs.Witness.Handover
import Arbiter.Proofs.Witness.Changes
import Arbiter.Proofs.Lifecycle.Root
import Arbiter.Proofs.World.Hits
import Arbiter.Proofs.Spine.Renewal
import Arbiter.Proofs.Status.Session
import Arbiter.Proofs.Descent.Agent
