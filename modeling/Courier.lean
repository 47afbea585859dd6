import Courier.Outbox.Bench
import Courier.Session.Serve
import Courier.Session.Solo
import Courier.Proofs.Attendant.Cells
import Courier.Proofs.Attendant.Throttling
import Courier.Proofs.Calls
import Courier.Proofs.Delivery
import Courier.Proofs.Equivalence
import Courier.Proofs.Formats
import Courier.Proofs.Frame.Loss
import Courier.Proofs.Limit
import Courier.Proofs.Outbox.Batch
import Courier.Proofs.Outbox.Traffic
import Courier.Proofs.Server.Accounting
import Courier.Proofs.Server.Overtaking
