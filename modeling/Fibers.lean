import Fibers.Proofs.World.Evaluation
import Fibers.Proofs.World.Observers
import Fibers.Proofs.World.Region
import Fibers.Proofs.World.Shelter
import Fibers.Script.Application
import Fibers.Proofs.Machine.Arrival
import Fibers.Proofs.World.Drains
import Fibers.Proofs.Strand.Propagation
import Fibers.Proofs.World.Propagation
import Fibers.Proofs.Machine.Meeting
import Fibers.Proofs.World.Meeting
import Fibers.Proofs.Strand.Silence
import Fibers.Proofs.Strand.ForkJoin
import Fibers.Proofs.World.Await
import Fibers.Proofs.World.ForkJoin
import Fibers.Proofs.World.Deadlock
import Fibers.Proofs.World.Isolation
import Fibers.Proofs.Effect.Typing
import Fibers.Proofs.World.TypeSoundness
import Fibers.Proofs.Effect.Pure
import Fibers.Proofs.Strand.Meaning
import Fibers.Proofs.World.Supply
import Fibers.Proofs.Strand.ZipPar
import Fibers.Proofs.World.ZipPar
import Fibers.Proofs.World.Iteration
import Fibers.Proofs.World.Boundary
import Fibers.Proofs.World.Callers
import Fibers.Proofs.World.EntryPoints
import Fibers.Proofs.Effect.Bounded
import Fibers.Proofs.Strand.Termination
import Fibers.Proofs.Machine.Brief
import Fibers.Proofs.World.Kin
import Fibers.Proofs.World.Termination
import Fibers.Proofs.Config.Environment
import Fibers.Proofs.World.Linearity
import Fibers.Proofs.World.MonadLaws
