import Anp.Ip.Collect
import Anp.Ip.Options
import Anp.Ip.OutputOwn
import Anp.Ip.PcbRun
import Anp.Kern.Adj
import Anp.Kern.Cluster
import Anp.Kern.SbRun
import Anp.Kern.Timeo
import Anp.Net.BpfName
import Anp.Net.BpfPacket
import Anp.Net.BpfWait
import Anp.Net.RouteCounts
import Anp.Net.SlLossless
import Anp.Net.SlToss
import Anp.Tcp.DupAcks
import Anp.Tcp.Estimator
import Anp.Tcp.Metrics
import Anp.Tcp.OptionBounds
import Anp.Tcp.Reopen
import Anp.Tcp.SendTimers
import Anp.Tcp.Stall
import Anp.Tcp.TrimWindow
import Anp.Tcp.WinEdge
import Anp.Tcp.WinUpdate
import Anp.Udp.Input
import Anp.Udp.Lengths
import Anp.Uspace.FdRun
import Anp.Uspace.KernLock
import Anp.Uspace.Sleep
import Anp.Uspace.SoftIntr
