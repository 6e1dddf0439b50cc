import Faasten.AllOrNothing
import Faasten.Authority
import Faasten.Backing.Bytes
import Faasten.Bootstrap
import Faasten.Callee
import Faasten.Clients.Blobs
import Faasten.Clients.DescriptorReplies
import Faasten.Clients.Directories
import Faasten.Clients.FacetLists
import Faasten.Clients.GateUpdates
import Faasten.Clients.Identity
import Faasten.Clients.Integrity
import Faasten.Clients.LockFree
import Faasten.Clients.Names
import Faasten.Clients.Survival
import Faasten.Facets
import Faasten.GateWrites
import Faasten.Influence.Noninterference
import Faasten.Invoker
import Faasten.LabelCalls
import Faasten.Monitor.Floating
import Faasten.Mutations
import Faasten.Node.Vsock
import Faasten.Paths.Names
import Faasten.Paths.Parse
import Faasten.Prepare.History
import Faasten.Python.Blobs
import Faasten.Python.Managers
import Faasten.Redirects
import Faasten.Relisting
import Faasten.Requests
import Faasten.Resolution
import Faasten.Sched.Delivery
import Faasten.Sched.Idle
import Faasten.Sched.Mirror
import Faasten.Untouched
import Faasten.Wire.Channel
import Faasten.Wire.Labels
import Faasten.Worker.Attempts
import Faasten.Worker.Fleet
