import C64WireGuard.Lib.Bytes
import C64WireGuard.Lib.Multibyte
import C64WireGuard.Lib.Words
import C64WireGuard.Lib.Window
import C64WireGuard.Lib.Blake2s
import C64WireGuard.Lib.ChaChaPoly
import C64WireGuard.Lib.X25519
import C64WireGuard.Lib.Noise
import C64WireGuard.Lib.InternetChecksum
import C64WireGuard.Lib.Trace
import C64WireGuard.Machine
import C64WireGuard.Blake2s
import C64WireGuard.Kdf
import C64WireGuard.Cookie
import C64WireGuard.Handshake
import C64WireGuard.Initiator
import C64WireGuard.HandshakeInputs
import C64WireGuard.IpBuild
import C64WireGuard.DiskConfig
import C64WireGuard.ConfigText
import C64WireGuard.ConfigRoundTrip
import C64WireGuard.ConfigErrors
import C64WireGuard.Transport
import C64WireGuard.Session
import C64WireGuard.MainLoop
import C64WireGuard.TunnelPackets
import C64WireGuard.Responder
import C64WireGuard.NoiseLibrary
import C64WireGuard.ResponderLaws
import C64WireGuard.ResponderAcceptance
import C64WireGuard.Agreement
import C64WireGuard.ResponderTransport
import C64WireGuard.SealedTransport
import C64WireGuard.ElapsedTime
import C64WireGuard.Protocol
import C64WireGuard.TransportWindow
import C64WireGuard.Rfc
import C64WireGuard.Replay
import C64WireGuard.Conformance
import C64WireGuard.RunLaws
import C64WireGuard.Scripted
import C64WireGuard.Display
import C64WireGuard.Initiations
import C64WireGuard.PacketFrames
import C64WireGuard.HashConvention
import C64WireGuard.Timestamps
import C64WireGuard.CookieReply
import C64WireGuard.Outstanding
import C64WireGuard.CookieLaws
import C64WireGuard.ScratchFree
import C64WireGuard.CookieUse
import C64WireGuard.Uci.PollEnds
import C64WireGuard.Uci.SocketLedger
import C64WireGuard.Uci.Lease
import C64WireGuard.TimestampBytes
import C64WireGuard.InputLine
import C64WireGuard.IpChecksum
import C64WireGuard.Tools.WireSearch
import C64WireGuard.Tools.Fragments
import C64WireGuard.Tools.LeakCheck
import C64WireGuard.WorldInvariant
import C64WireGuard.Ip65.Listener
import C64WireGuard.RekeySignal
import C64WireGuard.Lib.Nmos6502
import C64WireGuard.Tools.Mos6502Exec
import C64WireGuard.Residue
import C64WireGuard.Uci.Datagrams
import C64WireGuard.TunnelRuns
import C64WireGuard.Entropy
