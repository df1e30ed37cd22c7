import Frpc.Protocol.Malformed
import Frpc.Protocol.Accepted
import Frpc.Client.Isolation
import Frpc.Client.FailMod
import Frpc.Client.Reader
import Frpc.Client.Retries
import Frpc.Client.Evictions
import Frpc.Client.Selection
import Frpc.Registry.Consul
import Frpc.System.EndToEnd
import Frpc.System.Responses
import Frpc.System.Ownership
import Frpc.Selectors.Smooth
import Frpc.Selectors.Routing
import Frpc.Circuit.Breaker
import Frpc.Client.Cache
import Frpc.Client.Failover
import Frpc.Registry.Etcd
import Frpc.Server.Listener
import Frpc.Protocol.Setters
import Frpc.Protocol.Lengths
import Frpc.Client.Options
import Frpc.Selectors.Ping
import Frpc.Server.Registration
import Frpc.Registry.ConsulWatch
import Frpc.Registry.EtcdWatch
import Frpc.System.Pooled
import Frpc.Server.RateLimit
import Frpc.Circuit.Overlap
import Frpc.System.Progress
import Frpc.Circuit.Tripping
import Frpc.Lib.Leases
import Frpc.Protocol.Cuts
import Frpc.Registry.Leases
import Frpc.System.Heartbeats
import Frpc.Server.Reading
