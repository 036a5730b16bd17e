import Aoo.Apple.AdaptiveThread
import Aoo.Apple.HandoffOrder
import Aoo.Apple.PathSelection
import Aoo.Lib.BoundedRead
import Aoo.Lib.Interleaved
import Aoo.Lib.Spsc
import Aoo.LockFree.Interleavings
import Aoo.LockFree.QueueOrder
import Aoo.LowLatency.Codec
import Aoo.Memory.Bitset
import Aoo.Memory.Safety
import Aoo.Net.Acks
import Aoo.Net.Attempts
import Aoo.Net.Changes
import Aoo.Net.Connections
import Aoo.Net.Forms
import Aoo.Net.Names
import Aoo.Net.PeerLists
import Aoo.Net.PingTimer
import Aoo.Net.Relay
import Aoo.Net.Responses
import Aoo.Net.Sizes
import Aoo.Net.Unreliable
import Aoo.Osc.Packets
import Aoo.Osc.ReadSafety
import Aoo.Pattern
import Aoo.Resampler
import Aoo.Resampler.Buffer
import Aoo.Resampler.Lossless
import Aoo.Resampler.Neighbours
import Aoo.Resampler.Stream
import Aoo.Stream.Activation
import Aoo.Stream.Agree
import Aoo.Stream.Announce
import Aoo.Stream.Buffering
import Aoo.Stream.Depth
import Aoo.Stream.Dispatch
import Aoo.Stream.Frames
import Aoo.Stream.Guards
import Aoo.Stream.Lookup
import Aoo.Stream.Looping
import Aoo.Stream.MessageArea
import Aoo.Stream.Pacing
import Aoo.Stream.Pcm
import Aoo.Stream.Placement
import Aoo.Stream.Position
import Aoo.Stream.Reassembly
import Aoo.Stream.Recovery
import Aoo.Stream.Recycling
import Aoo.Stream.Resend
import Aoo.Stream.Reservation
import Aoo.Stream.Session
import Aoo.Stream.Shared
import Aoo.Stream.Start
import Aoo.Stream.Timeline
import Aoo.Stream.Wired
import Aoo.Sync.Semaphore
import Aoo.Sync.Spinlock
