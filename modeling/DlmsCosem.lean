import DlmsCosem.Acse.FailClosed
import DlmsCosem.Axdr.CompactAgreement
import DlmsCosem.Axdr.DateTime
import DlmsCosem.Axdr.Equality
import DlmsCosem.Axdr.OwnedBytes
import DlmsCosem.Axdr.Prefix
import DlmsCosem.Client.Collector
import DlmsCosem.Client.Established
import DlmsCosem.Client.Matching
import DlmsCosem.Client.Sendable
import DlmsCosem.Codec.Retry
import DlmsCosem.Cosem.Compression
import DlmsCosem.Cosem.Obis
import DlmsCosem.Cosem.ObjectList
import DlmsCosem.Cosem.ShortName
import DlmsCosem.Ends.Association
import DlmsCosem.Ends.Calls
import DlmsCosem.Ends.Handshake
import DlmsCosem.Ends.Link
import DlmsCosem.Ends.LongReads
import DlmsCosem.Ends.Nonces
import DlmsCosem.Ends.Proofs
import DlmsCosem.Ends.Push
import DlmsCosem.Lib.InOrder
import DlmsCosem.Security.Acceptance
import DlmsCosem.Security.RustCrypto
import DlmsCosem.Security.Window
import DlmsCosem.Server.Alignment
import DlmsCosem.Server.Answerable
import DlmsCosem.Server.Audit
import DlmsCosem.Server.Authentication
import DlmsCosem.Server.Batches
import DlmsCosem.Server.BlockedWrites
import DlmsCosem.Server.Fragments
import DlmsCosem.Server.Grants
import DlmsCosem.Server.Initiation
import DlmsCosem.Server.Mirrors
import DlmsCosem.Server.Protection
import DlmsCosem.Server.Replay
import DlmsCosem.Server.ShortNames
import DlmsCosem.Server.Singles
import DlmsCosem.Server.Walks
import DlmsCosem.Transport.Burst
import DlmsCosem.Transport.Framer
import DlmsCosem.Transport.Hdlc
import DlmsCosem.Transport.Overrun
import DlmsCosem.Transport.Readings
import DlmsCosem.Transport.Repeats
import DlmsCosem.Transport.SharedLine
import DlmsCosem.Transport.Waiting
import DlmsCosem.Transport.Wrapper
import DlmsCosem.Xdlms.Iterated
import DlmsCosem.Xdlms.LossyLink
import DlmsCosem.Xdlms.ReadBack
import DlmsCosem.Xdlms.Reassembly
import DlmsCosem.Xdlms.RoundTrip
