import Catplay.Analysis.Modes.Ownership
import Catplay.Analysis.Modes.BorrowCount
import Catplay.Analysis.Modes.Pairing
import Catplay.Analysis.Link.Exclusivity
import Catplay.Analysis.Link.HostOpening
import Catplay.Analysis.Link.Opening
import Catplay.Analysis.Link.Panics
import Catplay.Analysis.Link.Payloads
import Catplay.Analysis.Link.Deadlines
import Catplay.Analysis.Link.Stream
import Catplay.Analysis.Link.Transfer
import Catplay.Analysis.Ring.Reading
import Catplay.Analysis.Prefetch.Stream
import Catplay.Analysis.Plist.Safety
import Catplay.Analysis.Lingo.Compilers
import Catplay.Analysis.Lingo.Overlaps
import Catplay.Analysis.Rtsp.Fragmentation
import Catplay.Analysis.Rtsp.Matching
import Catplay.Analysis.Rtsp.RoundTrip
import Catplay.Analysis.Screen.Stream
import Catplay.Analysis.Hap.Schedules
import Catplay.Analysis.Events.Answers
import Catplay.Analysis.Proxy.ScreenSteps
import Catplay.Analysis.Rtp.Playback
import Catplay.Analysis.Rtp.Recording
import Catplay.Analysis.Video.Transparency
import Catplay.Analysis.Reflect.Interning
import Catplay.Analysis.Iap2Usb.Framing
import Catplay.Analysis.Iap2Usb.Receiving
import Catplay.Analysis.Link.EakRecovery
import Catplay.Analysis.Link.FileIds
import Catplay.Analysis.Modes.Deferral
import Catplay.Analysis.Receiver.SetupAtomicity
import Catplay.Analysis.Ring.Mirror
import Catplay.Analysis.Ring.Chunking
import Catplay.Analysis.Lingo.Bookkeeping
import Catplay.Analysis.Prefetch.Failure
import Catplay.Analysis.Aes.Provider
import Catplay.Analysis.Plist.Lookup
import Catplay.Analysis.Hap.TlvRoundTrip
import Catplay.Analysis.Fb.Escaping
import Catplay.Analysis.Fb.Rewriting
import Catplay.Analysis.Lingo.Exactness
import Catplay.Analysis.Hap.Overflow
import Catplay.Analysis.Video.Conversion
import Catplay.Analysis.Video.Caching
import Catplay.Library.Binary32
import Catplay.Model.Video.Configuration
import Catplay.Analysis.Video.ParameterSets
import Catplay.Analysis.Video.Configuration
import Catplay.Analysis.Rtp.Budget
import Catplay.Model.Rtp.RtpConsumer
import Catplay.Analysis.Ring.Silence
import Catplay.Analysis.Ring.Counters
import Catplay.Model.Hap.Srp
import Catplay.Analysis.Hap.KeyAgreement
import Catplay.Model.Tcp.BmQueue
import Catplay.Analysis.Tcp.Fifo
import Catplay.Model.Client.IncomingFiles
import Catplay.Analysis.Client.ReceivedFiles
import Catplay.Model.Client.AsyncClient
import Catplay.Analysis.Client.Permit
import Catplay.Analysis.Client.Corruption
import Catplay.Model.Bonjour.ServiceTable
import Catplay.Analysis.Bonjour.Replay
import Catplay.Model.Timing.MediaClock
import Catplay.Analysis.Timing.Offset
import Catplay.Model.Bonjour.Message
import Catplay.Analysis.Bonjour.Names
import Catplay.Analysis.Bonjour.Announcement
import Catplay.Analysis.Link.Checksum
import Catplay.Analysis.Ring.GapSet
import Catplay.Analysis.Iap2Usb.Descriptor
import Catplay.Analysis.Iap2Usb.Gadget
import Catplay.Analysis.Fb.TextDrawing
import Catplay.Analysis.Ui.Overlay
import Catplay.Analysis.Rtsp.CipherStream
