import Relata.Main
import Relata.Proofs.Join.ByName
import Relata.Proofs.Join.Order
import Relata.Proofs.Join.Tuples
import Relata.Proofs.Projection.Targets
import Relata.Proofs.Query.Collapsed
import Relata.Proofs.Query.Malformed
import Relata.Proofs.Query.Regular
import Relata.Proofs.Query.Written
import Relata.Proofs.Selection.Complement
import Relata.Proofs.Selection.Order
import Relata.Proofs.Session
import Relata.Proofs.Value.Arithmetic
import Relata.Proofs.Value.Mixed
import Relata.Proofs.World.Commute
import Relata.Proofs.World.Derived
import Relata.Proofs.World.History
import Relata.Proofs.World.InRange
import Relata.Proofs.World.Lines
import Relata.Proofs.World.Literals
import Relata.Proofs.World.Names
import Relata.Proofs.Query.Coverage
import Relata.Proofs.Storage.Loading
import Relata.Proofs.Storage.Exact
