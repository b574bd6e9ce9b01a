import Typist.Playback.Player

/-!
# The script of a snippet

What a player does to play a snippet is one list of moves, its script, which depends on the settings
and on the values of the arguments and not on the keyboard. A move types a character, pauses, plays
a chord, clicks the key that ends a line, switches windows or passes over a comment, or it is where
playing cannot go on.

`playLines_eq_follow` : playing lines is making the moves of their script in order. `play_run` :
from a stage at which no key is held, playing a snippet is making the moves of its script, then
releasing what is held, whatever stopped them. So what holds of all playing is proved by induction
on a list of moves.
-/

namespace Typist

/-- What a player does in one go. -/
inductive Move
  /-- Switches to the window used before. -/
  | focus
  /-- Types a character. -/
  | type (c : Char)
  /-- Pauses. -/
  | sleep (d : Duration)
  /-- Plays keys as a chord. -/
  | chord (keys : List Key)
  /-- Clicks the key that ends a line. -/
  | click (key : Key)
  /-- Passes over the comment of the given number. -/
  | skip (number : Nat)
  /-- Cannot go on. -/
  | stop (error : PlayError)

/-! ## Scripts -/

section

variable (s : Settings) (values : Mapping Text Text)

/-- A pause, if the delay is positive. -/
def Duration.moves (d : Duration) : List Move :=
  if d.isPositive then [.sleep d] else []

/-- A text character by character, with a pause after each. -/
def typingMoves : Text → List Move
  | [] => []
  | c :: rest => .type c :: s.charDelay.moves ++ typingMoves rest

/-- The moves for a part. -/
def Part.moves : Part → List Move
  | .text content => typingMoves s content
  | .arg name =>
    match values.get? name with
    | none => [.stop (.unresolved name)]
    | some value => typingMoves s value
  | .combo keys => [.chord keys]
  | .delay milliseconds =>
    if s.honorDelays then
      match Duration.ofMillis? milliseconds with
      | none => [.stop .delayOutOfRange]
      | some d => d.moves
    else []

/-- The end of a line. -/
def Settings.commitMove : Move :=
  match s.commit with
  | .error e => .stop (.unknownCommitKey e)
  | .ok key => .click key

/-- The moves for a line. -/
def Line.moves (number : Nat) (line : Line) : List Move :=
  s.lineDelay.moves ++
    if line.isComment then [.skip number] else line.flatMap (Part.moves s values) ++ [s.commitMove]

/-- The moves for lines; `number` is the number of the first of them. -/
def linesMoves : (number : Nat) → List Line → List Move
  | _, [] => []
  | number, line :: lines => Line.moves s values number line ++ linesMoves (number + 1) lines

/-- The script of a snippet. -/
def Snippet.script (snippet : Snippet) : List Move :=
  (if s.focusCycle then [.focus] else []) ++ linesMoves s values 1 snippet.lines

variable {s} {values}

/-- A pause only sleeps. -/
theorem eq_sleep_of_mem_moves {d : Duration} {move : Move} (h : move ∈ d.moves) :
    move = .sleep d := by
  rw [Duration.moves] at h
  split at h
  · exact List.mem_singleton.mp h
  · cases h

/-- Typing a text only types and sleeps. -/
theorem mem_typingMoves {t : Text} {move : Move} (h : move ∈ typingMoves s t) :
    (∃ c, move = .type c) ∨ move = .sleep s.charDelay := by
  induction t with
  | nil => cases h
  | cons c t ih =>
    rcases List.mem_cons.mp h with rfl | h
    · exact .inl ⟨c, rfl⟩
    · rcases List.mem_append.mp h with h | h
      · exact .inr (eq_sleep_of_mem_moves h)
      · exact ih h

end

/-! ## Following a script -/

namespace Player

/-- Makes a move. -/
def make (p : Player) : Move → Play Unit
  | .focus => Play.perform p.keyboard.focus
  | .type c => Play.perform (p.keyboard.type [c])
  | .sleep d => Play.perform (p.sleep d)
  | .chord keys => p.keyCombo keys
  | .click key => Play.perform (p.keyboard.click key)
  | .skip number =>
    Play.perform (Act.note .debug ("Skipping comment line " ++ (Text.ofNat number).str))
  | .stop error => throw error

/-- Makes moves in order. -/
def follow (p : Player) : List Move → Play Unit
  | [] => return ()
  | move :: moves => do
    p.make move
    p.follow moves

variable (p : Player) (values : Mapping Text Text)

@[simp]
theorem follow_nil : p.follow [] = pure () :=
  rfl

@[simp]
theorem follow_cons (move : Move) (moves : List Move) :
    p.follow (move :: moves) = p.make move >>= fun _ => p.follow moves :=
  rfl

@[simp]
theorem follow_append (moves moves' : List Move) :
    p.follow (moves ++ moves') = p.follow moves >>= fun _ => p.follow moves' := by
  induction moves with
  | nil => simp
  | cons move moves ih => simp [ih]

theorem pause_eq_follow (d : Duration) : p.pause d = p.follow d.moves := by
  rw [pause, Duration.moves]
  split <;> simp [make]

theorem typeText_eq_follow (t : Text) : p.typeText t = p.follow (typingMoves p.settings t) := by
  induction t with
  | nil => rfl
  | cons c t ih => simp [typeText, typingMoves, make, pause_eq_follow, ih]

theorem playPart_eq_follow (part : Part) :
    p.playPart values part = p.follow (part.moves p.settings values) := by
  cases part with
  | text content => exact p.typeText_eq_follow content
  | arg name =>
    rw [playPart, Part.moves]
    cases values.get? name with
    | none => simp [make]
    | some value => exact p.typeText_eq_follow value
  | combo keys => simp [playPart, Part.moves, make]
  | delay milliseconds =>
    rw [playPart, Part.moves]
    split
    · cases Duration.ofMillis? milliseconds with
      | none => simp [make]
      | some d => exact p.pause_eq_follow d
    · rfl

theorem playParts_eq_follow (parts : List Part) :
    p.playParts values parts = p.follow (parts.flatMap (Part.moves p.settings values)) := by
  induction parts with
  | nil => rfl
  | cons part parts ih => rw [playParts, playPart_eq_follow, ih, List.flatMap_cons, follow_append]

theorem commit_eq_make : p.commit = p.make p.settings.commitMove := by
  rw [commit, Settings.commitMove]
  cases p.settings.commit <;> rfl

theorem playLine_eq_follow (number : Nat) (line : Line) :
    p.playLine values number line = p.follow (line.moves p.settings values number) := by
  rw [playLine, Line.moves, follow_append, pause_eq_follow]
  split
  · simp [make]
  · simp [playParts_eq_follow, commit_eq_make]

/-- Playing lines is making the moves of their script. -/
theorem playLines_eq_follow (number : Nat) (lines : List Line) :
    p.playLines values number lines = p.follow (linesMoves p.settings values number lines) := by
  induction lines generalizing number with
  | nil => rfl
  | cons line lines ih => rw [playLines, linesMoves, playLine_eq_follow, follow_append, ih]

/-- Switching windows is a move that leaves the keys alone. -/
theorem focus_bind_playLines (snippet : Snippet) :
    (p.focus >>= fun _ => p.playLines values 1 snippet.lines) =
      p.follow (snippet.script p.settings values) := by
  rw [Snippet.script, follow_append, playLines_eq_follow, focus]
  split <;> simp [make]

/-! ## Playing a snippet -/

theorem ensuring_run (body last : Play Unit) (stage : Stage) :
    (Play.ensuring body last).run stage =
      match body.run stage with
      | .ok _ stage => last.run stage
      | .error e stage =>
        match last.run stage with
        | .ok _ stage => .error e stage
        | .error e stage => .error e stage :=
  rfl

theorem releaseHeld_run (stage : Stage) :
    p.releaseHeld.run stage = (p.releaseKeys stage.tracker.held.reverse none).run stage :=
  rfl

/-- Nothing is released where nothing is held. -/
theorem releaseHeld_run_nil (journal : Journal) :
    p.releaseHeld.run ⟨{}, journal⟩ = .ok () ⟨{}, journal⟩ :=
  rfl

/-- From a stage at which no key is held, playing a snippet is making the moves of its script, then
releasing what is held, whatever stopped them. -/
theorem play_run (snippet : Snippet) (journal : Journal) :
    (p.play snippet values).run ⟨{}, journal⟩ =
      (Play.ensuring (p.follow (snippet.script p.settings values)) p.releaseHeld).run
        ⟨{}, journal⟩ := by
  rw [← focus_bind_playLines, play]
  simp only [Play.ensuring, EStateM.run, focus]
  split
  · simp only [bind, EStateM.bind, Play.perform]
    cases p.keyboard.focus journal with
    | ok _ journal => rfl
    | error fault journal => rfl
  · rfl

end Player

end Typist
