import TapeTutor.Main
import TapeTutor.Proofs.Ceiling
import TapeTutor.Proofs.Generation
import TapeTutor.Proofs.Matching
import TapeTutor.Proofs.Reachable
import TapeTutor.Proofs.Conversation
import TapeTutor.Proofs.Afresh
import TapeTutor.Proofs.Culprit
import TapeTutor.Proofs.Sequence
import TapeTutor.Proofs.Resumption
import TapeTutor.Proofs.RoundTrip
import TapeTutor.Proofs.Erasure
import TapeTutor.Proofs.Calls
import TapeTutor.Proofs.Transparency
import TapeTutor.Proofs.ExitCode
import TapeTutor.Proofs.Comments
import TapeTutor.Proofs.Cutoff
import TapeTutor.Proofs.LongerTape
import TapeTutor.Proofs.InputStream
import TapeTutor.Proofs.Hindsight
import TapeTutor.Proofs.SettingsText
import TapeTutor.Proofs.SettingsEdits
import TapeTutor.Proofs.Resolution
import TapeTutor.Proofs.HexColor
import TapeTutor.Proofs.Overshoot
import TapeTutor.Proofs.Marker
import TapeTutor.Proofs.Judging
import TapeTutor.Proofs.Price
import TapeTutor.Proofs.Seeds
import TapeTutor.Proofs.Echo
import TapeTutor.Proofs.Shortest
import TapeTutor.Proofs.Comparison
import TapeTutor.Proofs.LoopForest
import TapeTutor.Proofs.Decoration
import TapeTutor.Proofs.Statistics
import TapeTutor.Proofs.Windows
import TapeTutor.Proofs.CaretWindow
