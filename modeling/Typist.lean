import Typist.Text.Basic
import Typist.Text.Character
import Typist.Text.CodePoint
import Typist.Number.Decimal
import Typist.Text.Quoted
import Typist.Text.Utf8
import Typist.Mapping
import Typist.Key.Basic
import Typist.Key.Vocabulary
import Typist.Chord
import Typist.Snippet.Diagnostic
import Typist.Snippet.Basic
import Typist.Snippet.Tokenizer
import Typist.Snippet.Reader
import Typist.Snippet.Render
import Typist.Number.Binary64
import Typist.Number.Shortest
import Typist.Json.Basic
import Typist.Json.Reader
import Typist.Json.Writer
import Typist.Duration.Basic
import Typist.Duration.Reader
import Typist.Duration.Writer
import Typist.Arguments
import Typist.Settings
import Typist.Playback.Journal
import Typist.Playback.Keyboard
import Typist.Playback.Controller
import Typist.Playback.Player
import Typist.Playback.Rehearsal
import Typist.Playback.Recording
import Typist.File.Tree
import Typist.File.Target
import Typist.Command.Input
import Typist.Command.Options
import Typist.Command.Run
import Typist.Main
import Typist.Proofs.Mapping
import Typist.Proofs.Arguments
import Typist.Proofs.Settings
import Typist.Proofs.Text.Utf8
import Typist.Proofs.Key.Names
import Typist.Proofs.Snippet.Grammar
import Typist.Proofs.Snippet.Scanning
import Typist.Proofs.Snippet.Reading
import Typist.Proofs.Snippet.Parsing
import Typist.Proofs.Snippet.Located
import Typist.Proofs.Snippet.Normal
import Typist.Proofs.Snippet.RoundTrip
import Typist.Proofs.Key.Spelling
import Typist.Proofs.Snippet.Produced
import Typist.Proofs.Snippet.Defaults
import Typist.Proofs.Chord.Holding
import Typist.Proofs.Chord
import Typist.Proofs.Playback.Faults
import Typist.Proofs.Playback.Script
import Typist.Proofs.Playback.Trace
import Typist.Proofs.Playback.Standing
import Typist.Proofs.Playback.FailStop
import Typist.Proofs.Playback.Interruption
import Typist.Proofs.Playback.Unfailing
import Typist.Proofs.Playback.Denotation
import Typist.Proofs.Playback.DryRun
import Typist.Proofs.Number.Rounding
import Typist.Proofs.Number.Binary64
import Typist.Proofs.Number.Shortest
import Typist.Proofs.Number.Layout
import Typist.Proofs.Duration.RoundTrip
import Typist.Proofs.Playback.Cancelling
import Typist.Proofs.Questions
import Typist.Proofs.Snippet.Notes
import Typist.Proofs.Snippet.EndOfLine
import Typist.Proofs.Snippet.Lines
import Typist.Proofs.Snippet.LineEndings
import Typist.Proofs.Snippet.Runs
import Typist.Proofs.Snippet.Composing
import Typist.Proofs.Snippet.Splitting
import Typist.Proofs.Json.Strings
import Typist.Proofs.Json.RoundTrip
import Typist.Proofs.Saving
import Typist.Proofs.Snippet.Standalone
import Typist.Proofs.Snippet.Bytes
import Typist.Proofs.Snippet.Declarations
import Typist.Proofs.Snippet.Diagnosis
import Typist.Proofs.Playback.LettingGo
import Typist.Proofs.Duration.Value
import Typist.Proofs.Duration.Refusal
import Typist.Proofs.Playback.Releasing
import Typist.Proofs.Snippet.ValidPrefix
import Typist.Proofs.Snippet.Comments
import Typist.Proofs.Playback.Skipping
import Typist.Proofs.Json.Scalars
import Typist.Proofs.Json.Grammar
import Typist.Proofs.Json.Reading
import Typist.Proofs.Loading
