import PeerWire.Format
import PeerWire.Window
import PeerWire.Session
import PeerWire.Proofs.CodecLaws
import PeerWire.Proofs.Integers
import PeerWire.Proofs.Unicode
import PeerWire.Proofs.ScalarLaws
import PeerWire.Proofs.SequenceLaws
import PeerWire.Proofs.RecordLaws
import PeerWire.Proofs.PayloadLaws
import PeerWire.Proofs.FrameLaws
import PeerWire.Proofs.FormatLaws
import PeerWire.Proofs.Counts
import PeerWire.Proofs.FrameGrammar
import PeerWire.Proofs.Starvation
import PeerWire.Proofs.Locality
import PeerWire.Proofs.Truncation
import PeerWire.Proofs.Rejections
import PeerWire.Proofs.Normalisation
import PeerWire.Proofs.Delivery
import PeerWire.Proofs.Chunking
import PeerWire.Proofs.Streams
import PeerWire.Proofs.Domains
import PeerWire.Proofs.Guards
import PeerWire.Proofs.Ceiling
import PeerWire.Proofs.WriterSessions
import PeerWire.Proofs.OneNetwork
import PeerWire.Proofs.ReaderSessions
import PeerWire.Proofs.ShortestForm
import PeerWire.Proofs.StrictUtf8
import PeerWire.Proofs.Leaves
import PeerWire.Proofs.FixedWidths
import PeerWire.Proofs.ServiceMasks
import PeerWire.Proofs.CommandFields
import PeerWire.Proofs.Windows
import PeerWire.Proofs.PartialWrites
import PeerWire.Proofs.Filling
import PeerWire.Proofs.HexForms
import PeerWire.Proofs.Numerals
import PeerWire.Proofs.HostTexts
import PeerWire.Proofs.ServiceTexts
import PeerWire.Proofs.Growth
