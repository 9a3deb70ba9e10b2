import Lifecycle.Main
import Lifecycle.Threads.Script
import Lifecycle.Kernel.Reachable
import Lifecycle.Wait.Broadcast
import Lifecycle.Wait.Spin
import Lifecycle.Proofs.Table.Slots
import Lifecycle.Proofs.Table.Sound
import Lifecycle.Proofs.Table.Identities
import Lifecycle.Proofs.Table.Lineage
import Lifecycle.Proofs.Table.Verdicts
import Lifecycle.Proofs.Kernel.Scene
import Lifecycle.Proofs.Kernel.Sound
import Lifecycle.Proofs.Kernel.Steps
import Lifecycle.Proofs.Kernel.Acts
import Lifecycle.Proofs.Kernel.Coherence
import Lifecycle.Proofs.Kernel.Integrity
import Lifecycle.Proofs.Kernel.Wakeups
import Lifecycle.Proofs.Kernel.Turns
import Lifecycle.Proofs.Kernel.Lives
import Lifecycle.Proofs.Kernel.Atomicity
import Lifecycle.Proofs.Kernel.Keeping
import Lifecycle.Proofs.Kernel.Installing
import Lifecycle.Proofs.Kernel.Housing
import Lifecycle.Proofs.Kernel.Calls
import Lifecycle.Proofs.Kernel.Teardown
import Lifecycle.Proofs.Kernel.Settlement
import Lifecycle.Proofs.Table.Endings
import Lifecycle.Proofs.Kernel.Exits
import Lifecycle.Proofs.Kernel.Harvest
import Lifecycle.Proofs.Memory.Pages
import Lifecycle.Proofs.Memory.Spaces
import Lifecycle.Proofs.Memory.Edits
import Lifecycle.Proofs.Memory.Conflicts
import Lifecycle.Proofs.Memory.Limits
import Lifecycle.Proofs.Memory.Coverage
import Lifecycle.Proofs.Image.Loading
import Lifecycle.Proofs.Image.Relevance
import Lifecycle.Proofs.Kernel.Frames
import Lifecycle.Proofs.Kernel.Spurious
import Lifecycle.Proofs.Kernel.Kin
import Lifecycle.Proofs.Kernel.Creation
import Lifecycle.Proofs.Image.Reading
import Lifecycle.Proofs.Kernel.Collection
import Lifecycle.Proofs.Kernel.Activation
import Lifecycle.Proofs.Kernel.Departures
import Lifecycle.Proofs.Kernel.Busy
import Lifecycle.Proofs.Threads.Acts
import Lifecycle.Proofs.Threads.Effects
import Lifecycle.Proofs.Threads.Order
import Lifecycle.Proofs.Threads.Runs
import Lifecycle.Proofs.Scenario.Trees
import Lifecycle.Proofs.Scenario.Forest
import Lifecycle.Proofs.Scenario.Plays
import Lifecycle.Proofs.Scenario.Rounds
import Lifecycle.Proofs.Scenario.Stress
import Lifecycle.Proofs.Memory.Regions
import Lifecycle.Proofs.Scenario.Survivors
import Lifecycle.Proofs.Kernel.Tenancies
import Lifecycle.Proofs.Scenario.Exhaust
import Lifecycle.Proofs.Scenario.Orphan
import Lifecycle.Proofs.Memory.Rounding
import Lifecycle.Proofs.Wait.Agreement
