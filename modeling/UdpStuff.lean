import UdpStuff.PacketQueue.Reassembly
import UdpStuff.PacketQueue.StaleData
import UdpStuff.PacketQueue.Conservation
import UdpStuff.Udp4.AtMostOnce
import UdpStuff.Udp4.Demultiplexing
import UdpStuff.Udp4.Driver
import UdpStuff.Udp4.Connection
import UdpStuff.Conn.Peers
import UdpStuff.Lock.Notifications
import UdpStuff.Proto.BitStream
import UdpStuff.Config.Lookup
import UdpStuff.Crypto.Block
import UdpStuff.Proto.Codec
import UdpStuff.Proto.MessageStreams
import UdpStuff.Proto.Releases
import UdpStuff.Proto.RenderAll
import UdpStuff.Proto.SameLayout
import UdpStuff.Proto.Evolution
import UdpStuff.Conn.ChannelHandler
import UdpStuff.Proto.Enums
import UdpStuff.Lock.MutualExclusion
import UdpStuff.Lock.Sections
import UdpStuff.Proto.WriterBits
import UdpStuff.Proto.WriterShifts
import UdpStuff.Proto.WriteAt
import UdpStuff.Proto.Fragments
import UdpStuff.Proto.DuplicateNames
import UdpStuff.Proto.SelfCompat
import UdpStuff.Proto.TagWidths
import UdpStuff.Proto.Definitions
import UdpStuff.Proto.Positions
import UdpStuff.Proto.Prefixes
import UdpStuff.Proto.NamedTypes
import UdpStuff.Proto.OldContents
import UdpStuff.Proto.IntWriter
import UdpStuff.Proto.WriterCalls
import UdpStuff.Proto.HeaderBraces
import UdpStuff.Proto.HeaderScopes
import UdpStuff.PacketQueue.RangeWalks
import UdpStuff.PacketQueue.Window
import UdpStuff.PacketQueue.DataPackets
import UdpStuff.Udp4.Datagrams
import UdpStuff.Theory.OnesComplement
import UdpStuff.Udp4.Checksum
import UdpStuff.Theory.Bpf
import UdpStuff.Udp4.PortFilter
import UdpStuff.PacketBuffer.Buffer
import UdpStuff.PacketBuffer.Resize
import UdpStuff.PacketBuffer.Iteration
import UdpStuff.Config.Accepts
import UdpStuff.PacketBuffer.PacketSequence
import UdpStuff.Config.FailedParse
import UdpStuff.Theory.Unordered
import UdpStuff.Tracker.Stores
import UdpStuff.Theory.Nearest
import UdpStuff.Tracker.Closest
import UdpStuff.Tracker.Search
import UdpStuff.Tracker.ClosestExact
import UdpStuff.Tracker.Frames
import UdpStuff.Crypto.Transfer
import UdpStuff.Conn.Dispatch
import UdpStuff.Net.Attempts
import UdpStuff.Net.Descriptors
import UdpStuff.Udp4.Carries
import UdpStuff.Theory.Holders
import UdpStuff.Utils.Guards
import UdpStuff.Utils.ScopeLock
import UdpStuff.Utils.Ref
import UdpStuff.Buffer.Ring
import UdpStuff.Buffer.Copy
import UdpStuff.Crypto.Calls
import UdpStuff.Crypto.Separate
import UdpStuff.Crypto.Accesses
import UdpStuff.Crypto.AesNi
import UdpStuff.Theory.RoundCipher
import UdpStuff.Crypto.AesInverse
import UdpStuff.Theory.SerialNumbers
import UdpStuff.Theory.NumberedStream
import UdpStuff.PacketQueue.Link
import UdpStuff.Udp4.DatagramLink
import UdpStuff.PacketQueue.SequenceLoc
import UdpStuff.PacketQueue.Retransmission
import UdpStuff.Config.TreeText
import UdpStuff.Config.Numbers
import UdpStuff.Udp4.Configured
import UdpStuff.Crypto.Auth
