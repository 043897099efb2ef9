import PcapRacer.BoundedTable
import PcapRacer.Pieces
import PcapRacer.ChunkedRun
import PcapRacer.Text
import PcapRacer.TextLossy
import PcapRacer.TextTame
import PcapRacer.Cur
import PcapRacer.Address
import PcapRacer.Packet
import PcapRacer.Dissect
import PcapRacer.Calm
import PcapRacer.AppText
import PcapRacer.AppHttp
import PcapRacer.AppBer
import PcapRacer.Fingerprint
import PcapRacer.AppTls
import PcapRacer.AppDns
import PcapRacer.AppDhcp
import PcapRacer.AppSsh
import PcapRacer.AppSmb
import PcapRacer.AppMisc
import PcapRacer.AppDirectory
import PcapRacer.AppSip
import PcapRacer.AppQuic
import PcapRacer.AppIcs
import PcapRacer.AppDispatch
import PcapRacer.Header
import PcapRacer.Link
import PcapRacer.Tunnel
import PcapRacer.Transport
import PcapRacer.Network
import PcapRacer.Walk
import PcapRacer.Flow
import PcapRacer.FlowInv
import PcapRacer.FlowState
import PcapRacer.StreamTable
import PcapRacer.StreamTableInv
import PcapRacer.StreamTableOrder
import PcapRacer.StreamTableRetained
import PcapRacer.StreamTableOverlap
import PcapRacer.FragTable
import PcapRacer.FragTableOrder
import PcapRacer.FragTableCover
import PcapRacer.FragmentAccount
import PcapRacer.Pipeline
import PcapRacer.PayloadRange
import PcapRacer.Absorb
import PcapRacer.RunBatches
import PcapRacer.FragmentRows
import PcapRacer.HttpHost
import PcapRacer.TlsHello
import PcapRacer.Nesting
import PcapRacer.AppRollback
import PcapRacer.Reconnect
import PcapRacer.AppStack
import PcapRacer.SegmentRows
import PcapRacer.HeaderSteps
import PcapRacer.HeaderFrame
import PcapRacer.DatagramRows
import PcapRacer.KeyedRun
import PcapRacer.KeyIsolation
import PcapRacer.FlowOrder
import PcapRacer.PanicHook
import PcapRacer.IterBatches
import PcapRacer.RecordBatch
import PcapRacer.WideSchema
import PcapRacer.Split
import PcapRacer.SplitOutput
import PcapRacer.OutputFiles
import PcapRacer.TunnelTable
import PcapRacer.DeferredDispatch
import PcapRacer.StreamTableAlike
import PcapRacer.SplitSegment
import PcapRacer.SubjectAltNames
import PcapRacer.Machine
import PcapRacer.CurActions
import PcapRacer.CurSession
import PcapRacer.CheckedCur
import PcapRacer.CheckedRefines
import PcapRacer.CheckedDissect
import PcapRacer.HeaderSafety
import PcapRacer.UdpTunnel
import PcapRacer.StackColumns
import PcapRacer.TunnelDepth
import PcapRacer.StableSort
import PcapRacer.FragTableSweep
import PcapRacer.FragTableMembers
import PcapRacer.FragTableOverlap
import PcapRacer.IterDelivery
import PcapRacer.IpHeaders
import PcapRacer.TransportPorts
import PcapRacer.FragmentCoherence
import PcapRacer.AddressColumns
import PcapRacer.V6Fragments
import PcapRacer.HeaderReach
import PcapRacer.BerElements
import PcapRacer.LdapBind
import PcapRacer.LdapCalm
import PcapRacer.BindRows
import PcapRacer.SequenceShift
import PcapRacer.ByteOrigins
import PcapRacer.FlowMerge
import PcapRacer.CommunityIds
import PcapRacer.FingerprintLaws
import PcapRacer.TcpPayload
import PcapRacer.HeaderExtends
import PcapRacer.HelloMessage
import PcapRacer.TrailingBytes
import PcapRacer.Base128
import PcapRacer.TwosComplement
import PcapRacer.BerReading
import PcapRacer.BerIntegers
import PcapRacer.BerForest
import PcapRacer.BerOids
import PcapRacer.DnsNames
import PcapRacer.DnsReport
import PcapRacer.DnsMessages
import PcapRacer.DnsFrames
import PcapRacer.OpeningColumns
import PcapRacer.SplitOpening
import PcapRacer.Reader
import PcapRacer.TickConversion
import PcapRacer.CaptureSections
import PcapRacer.FlowDuration
import PcapRacer.RunTotals
import PcapRacer.FlowRows
import PcapRacer.RunMemory
import PcapRacer.FlowGrowth
import PcapRacer.PlainRun
import PcapRacer.SplitJoin
import PcapRacer.AddressText
import PcapRacer.DhcpOptions
import PcapRacer.RadiusPackets
import PcapRacer.LdapFilter
import PcapRacer.Decapsulation
import PcapRacer.CrossTalk
import PcapRacer.Resaved
import PcapRacer.Retiming
import PcapRacer.HeaderCuts
import PcapRacer.SnapLength
import PcapRacer.FlowBatch
import PcapRacer.ByteOrder
import PcapRacer.TcpOptions
import PcapRacer.V6Chain
import PcapRacer.KexinitCut
import PcapRacer.SmbNames
import PcapRacer.HttpMessages
import PcapRacer.H2Headers
import PcapRacer.Hpack
import PcapRacer.HarmlessRun
