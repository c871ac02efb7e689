import Treewalk.Text.Blank
import Treewalk.Json.Reader
import Treewalk.Json.Writer
import Treewalk.Builtin
import Treewalk.Env
import Treewalk.Operation
import Treewalk.Main
import Treewalk.Session
import Treewalk.Inspect
import Treewalk.Proofs.Compositional
import Treewalk.Proofs.Fuel
import Treewalk.Proofs.Termination
import Treewalk.Proofs.DepthLimit
import Treewalk.Proofs.Backtraces
import Treewalk.Proofs.IdentityTests
import Treewalk.Proofs.Congruence
import Treewalk.Proofs.ValueEquality
import Treewalk.Proofs.Resemblance
import Treewalk.Proofs.Simulation
import Treewalk.Proofs.SimulationStep
import Treewalk.Proofs.Erasure
import Treewalk.Proofs.CallByNeed
import Treewalk.Proofs.Laziness
import Treewalk.Proofs.FreeVariables
import Treewalk.Proofs.Lockstep
import Treewalk.Proofs.LockstepStep
import Treewalk.Proofs.Noninterference
import Treewalk.Proofs.Invariants
import Treewalk.Proofs.ScopeSoundness
import Treewalk.Proofs.UniqueKeys
import Treewalk.Proofs.Growth
import Treewalk.Proofs.Renaming
import Treewalk.Proofs.Tracking
import Treewalk.Proofs.Hosts
import Treewalk.Proofs.Vigilance
import Treewalk.Proofs.MemoCells
import Treewalk.Proofs.Abreast
import Treewalk.Proofs.Warming
import Treewalk.Proofs.Replay
import Treewalk.Proofs.Settling
import Treewalk.Proofs.Level
import Treewalk.Proofs.BatchOrder
import Treewalk.Proofs.Currying
import Treewalk.Proofs.Paraphrase
import Treewalk.Proofs.Desugaring
import Treewalk.Proofs.JsonText
import Treewalk.Proofs.Decoding
import Treewalk.Proofs.RoundTrip
import Treewalk.Proofs.Spellings
import Treewalk.Proofs.ExitContract
import Treewalk.Proofs.Dictionaries
import Treewalk.Proofs.Sequences
import Treewalk.Proofs.OperandOrder
import Treewalk.Proofs.DedicatedForms
import Treewalk.Proofs.Combinators
import Treewalk.Proofs.Ledgers
import Treewalk.Proofs.Audits
import Treewalk.Proofs.Interchange
import Treewalk.Proofs.Comparisons
import Treewalk.Proofs.Legibility
import Treewalk.Proofs.Literals
import Treewalk.Proofs.Blame
import Treewalk.Proofs.Arithmetic
import Treewalk.Proofs.RunWords
import Treewalk.Proofs.DocumentEnd
import Treewalk.Proofs.SettingTexts
import Treewalk.Proofs.PartialBuiltins
import Treewalk.Proofs.StackFrames
