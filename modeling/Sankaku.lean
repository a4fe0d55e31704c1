import Sankaku.Lib.LittleEndian
import Sankaku.Lib.PrefixFree
import Sankaku.Lib.Machine
import Sankaku.Lib.Erasure
import Sankaku.Lib.Delimiter
import Sankaku.Lib.Readers
import Sankaku.Lib.Bits
import Sankaku.Lib.Hex
import Sankaku.Lib.Stuffing
import Sankaku.Lib.LogTable
import Sankaku.Lib.Strides
import Sankaku.Lib.Decks
import Sankaku.Lib.Weyl
import Sankaku.Lib.Substitution
import Sankaku.Lib.Forwarding
import Sankaku.Model.Types
import Sankaku.Model.Bincode
import Sankaku.Model.Fec
import Sankaku.Model.Pipeline
import Sankaku.Model.LossWindow
import Sankaku.Model.Feedback
import Sankaku.Model.Wire
import Sankaku.Model.Transport
import Sankaku.Model.Receiver
import Sankaku.Model.Sender
import Sankaku.Model.Stream
import Sankaku.Model.DefaultHasher
import Sankaku.Model.Handshake
import Sankaku.Model.Pacer
import Sankaku.Model.Ffi
import Sankaku.Model.Hevc
import Sankaku.Model.Psk
import Sankaku.Model.Gf256
import Sankaku.Model.WirehairTools
import Sankaku.Model.WirehairCodec
import Sankaku.Model.WirehairBlocks
import Sankaku.Model.WirehairCompression
import Sankaku.Proofs.StreamSlot
import Sankaku.Proofs.RepetitionWirehair
import Sankaku.Proofs.Droplet
import Sankaku.Proofs.Isolation
import Sankaku.Proofs.StreamInvariant
import Sankaku.Proofs.LossReports
import Sankaku.Proofs.LossWindow
import Sankaku.Proofs.PeerInput
import Sankaku.Proofs.SenderSpec
import Sankaku.Proofs.FrameIndex
import Sankaku.Proofs.Decoding
import Sankaku.Proofs.Transmission
import Sankaku.Proofs.Delivery
import Sankaku.Proofs.Feeding
import Sankaku.Proofs.BlockIds
import Sankaku.Proofs.Progress
import Sankaku.Proofs.Jitter
import Sankaku.Proofs.InOrder
import Sankaku.Proofs.Redundancy
import Sankaku.Proofs.UsedPackets
import Sankaku.Proofs.EndToEnd
import Sankaku.Proofs.Resync
import Sankaku.Proofs.AtMostOnce
import Sankaku.Proofs.Reports
import Sankaku.Proofs.ControlPackets
import Sankaku.Proofs.ControlRouting
import Sankaku.Proofs.ReportLedger
import Sankaku.Proofs.KeySchedule
import Sankaku.Proofs.KeyAgreement
import Sankaku.Proofs.Padding
import Sankaku.Proofs.Tickets
import Sankaku.Proofs.Pacer
import Sankaku.Proofs.Bitrate
import Sankaku.Proofs.AudioWire
import Sankaku.Proofs.MediaType
import Sankaku.Proofs.FfiStatus
import Sankaku.Proofs.BlockPlace
import Sankaku.Proofs.AnnexB
import Sankaku.Proofs.Emulation
import Sankaku.Proofs.BitReader
import Sankaku.Proofs.Sao
import Sankaku.Proofs.Psk
import Sankaku.Proofs.DenseCount
import Sankaku.Proofs.NextPrime
import Sankaku.Proofs.RowColumns
import Sankaku.Proofs.Peeling
import Sankaku.Proofs.Avalanche
import Sankaku.Proofs.Decks
import Sankaku.Proofs.Gf256
import Sankaku.Proofs.Gf256Mem
import Sankaku.Proofs.PeelRun
import Sankaku.Proofs.GreedyPeeling
import Sankaku.Proofs.Substitution
import Sankaku.Proofs.Compression
import Sankaku.Proofs.EncoderRun
import Sankaku.Proofs.DecoderRun
import Sankaku.Proofs.OriginalBlocks
import Sankaku.Proofs.WirehairMeets
import Sankaku.Proofs.Soundness
import Sankaku.Proofs.DecoderDefined
import Sankaku.Proofs.FecRoundTrip
import Sankaku.Proofs.Reordered
