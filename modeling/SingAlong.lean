import SingAlong.SourceFormat
import SingAlong.Music.Equality
import SingAlong.Performance
import SingAlong.Song
import SingAlong.Tune.Workspace
import SingAlong.Proofs.Acceptance
import SingAlong.Proofs.Alteration
import SingAlong.Proofs.Coverage
import SingAlong.Proofs.RoundTrip
import SingAlong.Proofs.TrailingBlanks
import SingAlong.Proofs.Voices
import SingAlong.Proofs.TreeShape
import SingAlong.Proofs.Compilation
import SingAlong.Proofs.Comments
import SingAlong.Proofs.Cancellation
import SingAlong.Proofs.Ink
import SingAlong.Proofs.Showing
import SingAlong.Proofs.Building
import SingAlong.Proofs.Transposition
import SingAlong.Proofs.Moving
import SingAlong.Proofs.Playability
import SingAlong.Proofs.Reachability
import SingAlong.Proofs.PerformanceOrder
import SingAlong.Proofs.RepeatSections
import SingAlong.Proofs.Playback
import SingAlong.Proofs.PrintedPitches
import SingAlong.Proofs.Landing
import SingAlong.Proofs.Measures
import SingAlong.Proofs.DisplayedLines
import SingAlong.Proofs.EqualMusic
import SingAlong.Proofs.VoicePartition
import SingAlong.Proofs.CompiledLines
import SingAlong.Proofs.SourceSpans
import SingAlong.Proofs.AccidentalHistory
import SingAlong.Proofs.NoteGroups
import SingAlong.Proofs.BeatOrder
