import PacketQuapture.Capture.PcapCopy
import PacketQuapture.Capture.Pruning
import PacketQuapture.Decoder.RoundTrip
import PacketQuapture.Dns.EndToEnd
import PacketQuapture.Dns.Framing
import PacketQuapture.Dns.NameText
import PacketQuapture.Fingerprint.Ja4s
import PacketQuapture.Flow.FlowIds
import PacketQuapture.Flow.Handshake
import PacketQuapture.Flow.Reachability
import PacketQuapture.Flow.Symmetry
import PacketQuapture.Reassembly.IdleEviction
import PacketQuapture.Reassembly.OrderIndependence
import PacketQuapture.Reassembly.Ownership
import PacketQuapture.Tls.ArrivalOrder
import PacketQuapture.Tls.Confirmation
import PacketQuapture.Tls.HelloRoundTrip
import PacketQuapture.Tls.ReleaseOrder
import PacketQuapture.Tls.ServerNames
import PacketQuapture.Tls.TunnelReads
import PacketQuapture.Tls.TunnelSearch
import PacketQuapture.X509.Calendar
import PacketQuapture.X509.OidText
