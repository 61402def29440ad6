import FrameFeed.Wire.Reader
import FrameFeed.Sink.Script
import FrameFeed.Main
import FrameFeed.Proofs.Agreement
import FrameFeed.Proofs.Language
import FrameFeed.Proofs.Session
import FrameFeed.Proofs.Emission
import FrameFeed.Composer
import FrameFeed.Proofs.Composing
import FrameFeed.Proofs.Retries
import FrameFeed.Proofs.Discipline
import FrameFeed.Wire.Machine
import FrameFeed.Proofs.Sizes
import FrameFeed.Proofs.Durations
import FrameFeed.Proofs.Thinning
import FrameFeed.Proofs.Returning
import FrameFeed.Proofs.Buffering
import FrameFeed.Proofs.Reports
import FrameFeed.Proofs.Parsing
