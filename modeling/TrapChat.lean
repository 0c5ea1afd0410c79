import TrapChat.Client.BackgroundRoom
import TrapChat.Client.CallManager
import TrapChat.Client.Eavesdropper
import TrapChat.Client.FileNames
import TrapChat.Client.IceCandidates
import TrapChat.Client.KeyAgreement
import TrapChat.Client.KeyCache
import TrapChat.Client.KeyRotation
import TrapChat.Client.LiveSockets
import TrapChat.Client.MediaInput
import TrapChat.Client.MediaRaces
import TrapChat.Client.MediaRooms
import TrapChat.Client.MediaTransfer
import TrapChat.Client.MessageStore
import TrapChat.Client.OfflineQueue
import TrapChat.Client.PeerMesh
import TrapChat.Client.PendingRooms
import TrapChat.Client.Rejoin
import TrapChat.Client.RoomKeyCoherence
import TrapChat.Client.RoomRequests
import TrapChat.Client.RotatorTimers
import TrapChat.Client.ShareLink
import TrapChat.Client.Typing
import TrapChat.Crypto.Hmac
import TrapChat.Gateway.Authenticity
import TrapChat.Gateway.Expiry
import TrapChat.Gateway.Ghosts
import TrapChat.Gateway.Membership
import TrapChat.Gateway.Nicknames
import TrapChat.Gateway.Outsiders
import TrapChat.Gateway.PeerQueue
import TrapChat.Gateway.Presence
import TrapChat.Gateway.Queues
import TrapChat.Gateway.RelayConnector
import TrapChat.Gateway.RoomCap
import TrapChat.Gateway.Salts
import TrapChat.Gateway.TokenBucket
import TrapChat.Io.FrameStream
import TrapChat.Library.Base64
import TrapChat.Library.Doubles
import TrapChat.Library.JsonRecord
import TrapChat.Library.Overlap
import TrapChat.Library.Transition
import TrapChat.Library.Walk
import TrapChat.Network.CrossDelivery
import TrapChat.Network.Federation
import TrapChat.Network.FrameSize
import TrapChat.Network.MediaDelivery
import TrapChat.Network.MessageOrder
import TrapChat.Network.RelayEcho
import TrapChat.Network.RelayPresence
import TrapChat.Network.RoomLimits
import TrapChat.Network.RoomUrls
import TrapChat.Network.SaltAgreement
import TrapChat.Network.StaleCleanup
import TrapChat.Network.UploadCadence
import TrapChat.Network.WireAgreement
import TrapChat.Protocol.Envelope
import TrapChat.Relay.IpRateLimiter
import TrapChat.Relay.JoinRace
import TrapChat.Relay.Limits
import TrapChat.Relay.Locks
import TrapChat.Relay.Presence
import TrapChat.Storage.History
import TrapChat.Worker.ChunkLoop
import TrapChat.Worker.HttpService
import TrapChat.Worker.RateLimit
import TrapChat.Worker.SinglePoll
import TrapChat.Worker.Status
