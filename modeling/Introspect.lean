import Introspect.Proofs.Config.Coherence
import Introspect.Proofs.Config.Reading
import Introspect.Proofs.Data.Entries
import Introspect.Proofs.Data.Orders
import Introspect.Proofs.Digest.Calls
import Introspect.Proofs.Dispatch.Relay
import Introspect.Proofs.Equality.Coverage
import Introspect.Proofs.Equality.Ending
import Introspect.Proofs.Equality.Equivalence
import Introspect.Proofs.Equality.Pairing
import Introspect.Proofs.Json.Reading
import Introspect.Proofs.Log.Delivery
import Introspect.Proofs.Perl.Indentation
import Introspect.Proofs.Reflect.Enumeration
import Introspect.Proofs.Reflect.Overloads
import Introspect.Proofs.Registry.Naming
import Introspect.Proofs.Session.Alike
import Introspect.Proofs.Taint.Assignment
import Introspect.Session.Run
