import ProcessLife.Registry.Family
import ProcessLife.Proofs.Table.Roll
import ProcessLife.Proofs.Session.Threshold
import ProcessLife.Proofs.Kernel.Failure
import ProcessLife.Proofs.Kernel.Lifecycle
import ProcessLife.Proofs.Kernel.Creation
import ProcessLife.Proofs.Kernel.Delivery
import ProcessLife.Proofs.Registry.Knot
import ProcessLife.Proofs.Registry.Commute
import ProcessLife.Proofs.Registry.Adoption
import ProcessLife.Proofs.Registry.Exchange
import ProcessLife.Proofs.Registry.Target
import ProcessLife.Proofs.Registry.Departure
import ProcessLife.Proofs.Registry.Retraction
import ProcessLife.Proofs.Registry.Recycling
