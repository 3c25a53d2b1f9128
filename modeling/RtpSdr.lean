import RtpSdr.Fec.Pkt
import RtpSdr.Fec.ReceiveCount
import RtpSdr.Fec.Recovery
import RtpSdr.Fec.Inverse
import RtpSdr.Fec.Evaluation
import RtpSdr.Fec.Distance
import RtpSdr.Fec.Rejection
import RtpSdr.Fec.Guards
import RtpSdr.Fec.GroupReuse
import RtpSdr.Fec.Transfer
import RtpSdr.Sdr.Spsc
import RtpSdr.Sdr.Transmit
import RtpSdr.Sdr.Datagram
import RtpSdr.Sdr.Sequence
import RtpSdr.Sdr.Overrun
import RtpSdr.Rtp.Source
import RtpSdr.Rtp.Stabilise
import RtpSdr.Rtp.HeaderAccept
import RtpSdr.Rtp.Packet
import RtpSdr.Rtp.SdesRoundTrip
import RtpSdr.Rtp.Compound
import RtpSdr.Rtp.EntryCount
import RtpSdr.Rtp.HeaderLength
import RtpSdr.Rtp.OwnBytes
import RtpSdr.Rtp.HeaderBoundary
import RtpSdr.Rtp.HeaderOutput
import RtpSdr.Rtp.CsrcSet
import RtpSdr.Rtp.SdesMap
import RtpSdr.Rtp.ReportInit
import RtpSdr.Rtp.ReportFields
import RtpSdr.Rtp.SourceClock
import RtpSdr.Rtp.Interval
import RtpSdr.Rtp.SocketLife
import RtpSdr.Rtp.Relay
import RtpSdr.Rtp.RtcpRelay
import RtpSdr.Rtp.SdesRelay
import RtpSdr.Rtp.AppRoundTrip
import RtpSdr.Rtp.ExtLifecycle
import RtpSdr.Rtp.RemovalBounds
import RtpSdr.Rtp.SdesFailure
import RtpSdr.Rtp.ReportRemoval
import RtpSdr.Rtp.Sendable
import RtpSdr.Sdr.Pace
import RtpSdr.Lib.Ownership
import RtpSdr.Rtp.PacketHeap
