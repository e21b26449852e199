import TkTox.Bytes
import TkTox.Ring
import TkTox.Decimal
import TkTox.Crypto
import TkTox.Frame
import TkTox.FrameCodec
import TkTox.Ratchet
import TkTox.SentBuffer
import TkTox.Session
import TkTox.SessionSend
import TkTox.FeedCases
import TkTox.EmitFrame
import TkTox.SessionRun
import TkTox.Instance
import TkTox.HandshakeReject
import TkTox.Delivery
import TkTox.Carrier
import TkTox.AtRest
import TkTox.OfflineQueue
import TkTox.OfflineQueueFile
import TkTox.HandshakeFrames
import TkTox.HandshakeRoot
import TkTox.Collision
import TkTox.RekeyLink
import TkTox.RekeyInvariant
import TkTox.RekeyAgreement
import TkTox.RelTransport
import TkTox.RelInvariant
import TkTox.RelFeed
import TkTox.AckSoundness
import TkTox.FrameCanonical
import TkTox.SessionRecord
import TkTox.SessionStore
import TkTox.Chess
import TkTox.ChessAttack
import TkTox.ChessGame
import TkTox.Lines
import TkTox.Settings
import TkTox.SettingsFile
import TkTox.Machine
import TkTox.TunnelSend
import TkTox.TunnelConn
import TkTox.TunnelLink
import TkTox.TunnelPipe
import TkTox.TunnelRefine
import TkTox.TunnelLife
import TkTox.TunnelCredit
import TkTox.TunnelRelease
import TkTox.TunnelStream
import TkTox.ReceiveHygiene
import TkTox.SendAtomic
import TkTox.Resend
import TkTox.ResendDrain
import TkTox.DrainEnds
import TkTox.ResendLoop
import TkTox.OutOfOrder
import TkTox.Tiling
import TkTox.ChatEngine
import TkTox.SealedFrames
import TkTox.ChatFrames
import TkTox.TextPieces
import TkTox.FlushEffects
import TkTox.LiveFlush
import TkTox.StashFlush
import TkTox.OfflineFlush
import TkTox.EngineOffers
import TkTox.EngineRecovery
import TkTox.EngineRestart
import TkTox.TurnGame
import TkTox.ChessInterop
import TkTox.ChessSeats
import TkTox.ChessPeers
import TkTox.PartialFile
import TkTox.ResumeIndex
import TkTox.Transfers
import TkTox.ReceiveCondition
import TkTox.ReceiveInvariant
import TkTox.ReceiveClosing
import TkTox.ReceiveAnswers
import TkTox.ReceiveChunks
import TkTox.FileIntegrity
import TkTox.ChessPackets
import TkTox.ChessRights
import TkTox.ChessPieces
import TkTox.ChessCapture
import TkTox.ChessMate
import TkTox.Sidecar
import TkTox.ResumeFile
import TkTox.History
import TkTox.Scan
import TkTox.SessionReject
import TkTox.SubmitText
import TkTox.Tunnel
import TkTox.TunnelIds
import TkTox.TunnelEffects
import TkTox.PollEffects
import TkTox.HostTurns
import TkTox.Allowlist
import TkTox.TunnelAccess
import TkTox.NoDowngrade
import TkTox.Savedata
import TkTox.PortList
import TkTox.TunnelInvite
import TkTox.ToxId
import TkTox.AudioRx
import TkTox.ChainLedger
import TkTox.SendEvents
import TkTox.SessionRange
import TkTox.KeyReuse
import TkTox.TunnelNet
import TkTox.TunnelIsolation
import TkTox.ChatLink
import TkTox.ChatCalls
import TkTox.ChatPair
import TkTox.ChatSteps
import TkTox.WireTexts
import TkTox.ChatDelivery
import TkTox.Divstep
import TkTox.CoeffArray
import TkTox.SntrupWords
import TkTox.SntrupCodec
import TkTox.SntrupRing
import TkTox.SntrupCore
import TkTox.SntrupRecip
import TkTox.PackedDigits
import TkTox.SntrupField
import TkTox.SntrupSort
import TkTox.SntrupDraws
import TkTox.SntrupKem
