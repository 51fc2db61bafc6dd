import PacketFence.Dhcp.Exclusivity
import PacketFence.Dhcp.Quarantine
import PacketFence.Dhcp.Offer
import PacketFence.Galera.Election
import PacketFence.Cluster.ConfigConflict
import PacketFence.Api.TenantIsolation
import PacketFence.Filter.Saving
import PacketFence.Search.Identifiers
import PacketFence.Search.Nodes
import PacketFence.Queue.Delivery
import PacketFence.Dal.Frame
import PacketFence.Role.Isolation
import PacketFence.Activation.OneTime
import PacketFence.FirewallSso.PerFirewall
import PacketFence.DetectParser.Shape
import PacketFence.FirewallSso.Username
import PacketFence.Dhcp.Issues
import PacketFence.Dhcp.Mysql
import PacketFence.Dhcp.Restore
import PacketFence.Filter.Complement
import PacketFence.Dns.Transparency
import PacketFence.Search.Pages
import PacketFence.Bandwidth.Radius
import PacketFence.Bandwidth.Debit
import PacketFence.Pfacct.VendorSpecific
import PacketFence.Pfacct.TimeBalance
import PacketFence.SecurityEvent.SingleOpen
import PacketFence.SecurityEvent.Activation
import PacketFence.SecurityEvent.HostScan
import PacketFence.LocationLog.Located
import PacketFence.Switch.Agreement
import PacketFence.Ip4log.Partition
import PacketFence.LocationLog.History
import PacketFence.Ip4log.Rotate
import PacketFence.Ip4log.Update
import PacketFence.Password.Hash
import PacketFence.Password.ConsumeLogin
import PacketFence.Radacct.Telescope
import PacketFence.Udf.Lookup
import PacketFence.Report.FreeradiusDecode
import PacketFence.ConfigStore.Rename
import PacketFence.ConfigStore.FilterEngine
import PacketFence.TimedLock.Exclusion
import PacketFence.MiniTemplate.RoundTrip
import PacketFence.AccessFilter.ActionParams
import PacketFence.MiniTemplate.Arguments
import PacketFence.Cef.Message
import PacketFence.Udf.Decodable
import PacketFence.Interval.Job
import PacketFence.TryableOnce.Once
import PacketFence.RateLimiter.Limit
import PacketFence.Util.Mac
import PacketFence.Util.Time
import PacketFence.Dhcp.RawClient
