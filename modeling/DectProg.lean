import DectProg.Tape
import DectProg.Machine
import DectProg.Framing
import DectProg.Reads
import DectProg.Capacity
import DectProg.ShiftRegister
import DectProg.MirroredRegister
import DectProg.Overlay
import DectProg.BitErrors
import DectProg.Blocks
import DectProg.Memory
import DectProg.Crc
import DectProg.Buffer
import DectProg.BufferQueue
import DectProg.BufferRuns
import DectProg.RingInvariant
import DectProg.Package
import DectProg.Receive
import DectProg.FlashFrames
import DectProg.FlashCuts
import DectProg.FlashReceive
import DectProg.Loader
import DectProg.ImageChecksum
import DectProg.Confirms
import DectProg.ProgFlash
import DectProg.SkipLoop
import DectProg.Flashing
import DectProg.Success
import DectProg.FifoHeap
import DectProg.BusFrames
import DectProg.Reachable
import DectProg.Grammar
import DectProg.WireValues
import DectProg.UninitialisedLocals
import DectProg.EmptyReads
import DectProg.Session
import DectProg.SessionSteps
import DectProg.SequenceNumbers
import DectProg.AckNumbers
import DectProg.Acks
import DectProg.Applications
import DectProg.Restart
import DectProg.BusReceive
import DectProg.MailMemory
import DectProg.Linked
import DectProg.MailLeaks
import DectProg.Noise
import DectProg.WholePackets
import DectProg.ErrorDetection
import DectProg.StalePackets
import DectProg.StaleMails
import DectProg.Provisioning
import DectProg.MainLoop
import DectProg.Boot
import DectProg.Inspect
import DectProg.Handshakes
import DectProg.EventLoop
import DectProg.FrameRuns
import DectProg.BusLoop
import DectProg.BusStreams
import DectProg.AppAnswers
import DectProg.Provisioned
import DectProg.FlashChecksum
import DectProg.FlashContents
import DectProg.Conversation
import DectProg.Programming
import DectProg.ProgLoop
