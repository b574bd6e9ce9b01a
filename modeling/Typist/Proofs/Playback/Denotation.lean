import Typist.Proofs.Playback.Unfailing

/-!
# What a snippet denotes

A snippet denotes a row of calls (`Snippet.calls`). The window is switched if the settings say so.
Then each line is a pause, its parts and a click of the commit key, or the pause alone if it is a
comment. A text is typed character by character, with a pause after each, and so is the value of an
argument, whatever it holds. A combo is the events of its chord, and a delay a pause. No pause is
made that is not positive.

`play_calls` : on a keyboard and a clock that never fail, playing makes these calls and no others,
if every argument has a value, every delay is a duration and the commit key is a key. The player
plays a chord one key after the other, on the keys that it holds; what it sends is the events of
`chordEvents` all the same.
-/

namespace Typist

/-! ## The calls of a snippet -/

/-- The calls of a pause : there are none if the delay is not positive. -/
def Duration.calls (d : Duration) : List Call :=
  if d.isPositive then [.sleep d] else []

section

variable (s : Settings) (values : Mapping Text Text) (commitKey : Key)

/-- The calls that type a text. -/
def typingCalls (t : Text) : List Call :=
  t.flatMap fun c => .type [c] :: s.charDelay.calls

/-- The calls of a part. An argument without a value and a delay that is no duration have none. -/
def Part.calls : Part → List Call
  | .text content => typingCalls s content
  | .arg name => typingCalls s ((values.get? name).getD [])
  | .combo keys => (chordEvents keys).map KeyEvent.call
  | .delay milliseconds =>
    if s.honorDelays then (Duration.ofMillis? milliseconds).elim [] Duration.calls else []

/-- The calls of a line. -/
def Line.calls (line : Line) : List Call :=
  s.lineDelay.calls ++
    if line.isComment then [] else line.flatMap (Part.calls s values) ++ [.click commitKey]

/-- The calls of a snippet. -/
def Snippet.calls (snippet : Snippet) : List Call :=
  (if s.focusCycle then [.focus] else []) ++ snippet.lines.flatMap (Line.calls s values commitKey)

end

/-! ## What playing takes for granted -/

/-- Does each argument of a line that is no comment have a value? -/
def Snippet.IsCovered (snippet : Snippet) (values : Mapping Text Text) : Prop :=
  ∀ line ∈ snippet.lines, line.isComment = false → ∀ name, Part.arg name ∈ line →
    values.contains name = true

/-- Is every delay a duration? -/
def Snippet.HasDurations (snippet : Snippet) : Prop :=
  ∀ line ∈ snippet.lines, ∀ milliseconds, Part.delay milliseconds ∈ line →
    (Duration.ofMillis? milliseconds).isSome = true

/-! ## Scripts without stops -/

/-- The calls of moves, none of which fails. -/
def madeCalls (moves : List Move) : List (Call × Option Fault) :=
  Journal.calls (moves.flatMap Move.entries)

@[simp]
theorem madeCalls_append (moves moves' : List Move) :
    madeCalls (moves ++ moves') = madeCalls moves ++ madeCalls moves' := by
  rw [madeCalls, List.flatMap_append, Journal.calls_append]
  rfl

/-- A script without stops comes to the entries of all its moves. -/
theorem scriptEntries_eq_flatMap {moves : List Move} (h : ∀ e, Move.stop e ∉ moves) :
    scriptEntries moves = moves.flatMap Move.entries := by
  induction moves with
  | nil => rfl
  | cons move moves ih =>
    have hstop : ∀ e, move ≠ .stop e := by
      rintro e rfl
      exact h e (List.mem_cons_self ..)
    rw [scriptEntries_cons hstop, ih fun e hmem => h e (List.mem_cons_of_mem _ hmem),
      List.flatMap_cons]

section

variable {s : Settings} {values : Mapping Text Text} {commitKey : Key}

theorem madeCalls_moves (d : Duration) : madeCalls d.moves = unfailing d.calls := by
  rw [Duration.moves, Duration.calls]
  split <;> rfl

theorem madeCalls_typingMoves (t : Text) :
    madeCalls (typingMoves s t) = unfailing (typingCalls s t) := by
  induction t with
  | nil => rfl
  | cons c t ih =>
    have hcalls :
        typingCalls s (c :: t) = [.type [c]] ++ (s.charDelay.calls ++ typingCalls s t) := by
      rw [typingCalls, List.flatMap_cons]
      rfl
    have hmoves : typingMoves s (c :: t) = [.type c] ++ (s.charDelay.moves ++ typingMoves s t) :=
      rfl
    rw [hcalls, hmoves, madeCalls_append, madeCalls_append, madeCalls_moves, ih, unfailing_append,
      unfailing_append]
    rfl

theorem madeCalls_chord (keys : List Key) :
    madeCalls [.chord keys] = unfailing ((chordEvents keys).map KeyEvent.call) := by
  rw [madeCalls, List.flatMap_singleton, unfailing, List.map_map, Move.entries]
  induction chordEvents keys with
  | nil => rfl
  | cons event events ih =>
    rw [List.map_cons, List.map_cons, ← ih]
    rfl

theorem madeCalls_part {part : Part}
    (hvalue : ∀ name, part = .arg name → values.contains name = true)
    (hdelay : ∀ milliseconds, part = .delay milliseconds →
      (Duration.ofMillis? milliseconds).isSome = true) :
    madeCalls (part.moves s values) = unfailing (part.calls s values) := by
  cases part with
  | text content => exact madeCalls_typingMoves content
  | combo keys => exact madeCalls_chord keys
  | arg name =>
    obtain ⟨value, hget⟩ := Option.isSome_iff_exists.mp (hvalue name rfl)
    rw [Part.moves, Part.calls, hget]
    exact madeCalls_typingMoves value
  | delay milliseconds =>
    obtain ⟨d, hd⟩ := Option.isSome_iff_exists.mp (hdelay milliseconds rfl)
    rw [Part.moves, Part.calls, hd]
    split
    · exact madeCalls_moves d
    · rfl

theorem madeCalls_parts {parts : List Part}
    (hvalues : ∀ name, .arg name ∈ parts → values.contains name = true)
    (hdelays : ∀ milliseconds, .delay milliseconds ∈ parts →
      (Duration.ofMillis? milliseconds).isSome = true) :
    madeCalls (parts.flatMap (Part.moves s values)) =
      unfailing (parts.flatMap (Part.calls s values)) := by
  induction parts with
  | nil => rfl
  | cons part parts ih =>
    rw [List.flatMap_cons, List.flatMap_cons, madeCalls_append, unfailing_append,
      ih (fun name hmem => hvalues name (List.mem_cons_of_mem _ hmem))
        (fun milliseconds hmem => hdelays milliseconds (List.mem_cons_of_mem _ hmem)),
      madeCalls_part (fun name hpart => hvalues name (hpart ▸ List.mem_cons_self ..))
        (fun milliseconds hpart => hdelays milliseconds (hpart ▸ List.mem_cons_self ..))]

theorem madeCalls_line (hcommit : s.commit = .ok commitKey) {line : Line} (number : Nat)
    (hvalues : line.isComment = false → ∀ name, .arg name ∈ line → values.contains name = true)
    (hdelays : ∀ milliseconds, .delay milliseconds ∈ line →
      (Duration.ofMillis? milliseconds).isSome = true) :
    madeCalls (line.moves s values number) = unfailing (line.calls s values commitKey) := by
  rw [Line.moves, Line.calls, madeCalls_append, unfailing_append, madeCalls_moves]
  cases hcomment : line.isComment with
  | true => rfl
  | false =>
    have hclick : madeCalls [s.commitMove] = unfailing [.click commitKey] := by
      rw [Settings.commitMove, hcommit]
      rfl
    rw [if_neg Bool.false_ne_true, if_neg Bool.false_ne_true, madeCalls_append, unfailing_append,
      madeCalls_parts (hvalues hcomment) hdelays, hclick]

theorem madeCalls_lines (hcommit : s.commit = .ok commitKey) {lines : List Line} (number : Nat)
    (hvalues : ∀ line ∈ lines, line.isComment = false → ∀ name, .arg name ∈ line →
      values.contains name = true)
    (hdelays : ∀ line ∈ lines, ∀ milliseconds, .delay milliseconds ∈ line →
      (Duration.ofMillis? milliseconds).isSome = true) :
    madeCalls (linesMoves s values number lines) =
      unfailing (lines.flatMap (Line.calls s values commitKey)) := by
  induction lines generalizing number with
  | nil => rfl
  | cons line lines ih =>
    obtain ⟨hvalue, hvalues⟩ := List.forall_mem_cons.mp hvalues
    obtain ⟨hdelay, hdelays⟩ := List.forall_mem_cons.mp hdelays
    rw [linesMoves, List.flatMap_cons, madeCalls_append, unfailing_append,
      madeCalls_line hcommit number hvalue hdelay, ih (number + 1) hvalues hdelays]

variable {snippet : Snippet}

/-- Nothing stops the script. -/
theorem stop_not_mem_script (hcommit : s.commit = .ok commitKey)
    (hvalues : snippet.IsCovered values) (hdelays : snippet.HasDurations) (e : PlayError) :
    Move.stop e ∉ snippet.script s values := by
  rw [stop_mem_script]
  rintro ⟨line, hline, hcomment, ⟨part, hpart, hstops⟩ | ⟨error, herror, -⟩⟩
  · cases hstops with
    | @unresolved name hnone =>
      have hcontains := hvalues line hline hcomment name hpart
      rw [Mapping.contains, hnone] at hcontains
      cases hcontains
    | @delayOutOfRange milliseconds _ hnone =>
      have hsome := hdelays line hline milliseconds hpart
      rw [hnone] at hsome
      cases hsome
  · rw [hcommit] at herror
    cases herror

/-- The script of a snippet makes the calls that the snippet denotes. -/
theorem madeCalls_script (hcommit : s.commit = .ok commitKey) (hvalues : snippet.IsCovered values)
    (hdelays : snippet.HasDurations) :
    madeCalls (snippet.script s values) = unfailing (snippet.calls s values commitKey) := by
  rw [Snippet.script, Snippet.calls, madeCalls_append, unfailing_append,
    madeCalls_lines hcommit 1 hvalues hdelays]
  split <;> rfl

/-- On a keyboard and a clock that never fail, playing a snippet makes the calls that the snippet
denotes and no others, comes to its end and holds no key. -/
theorem play_calls (hcommit : s.commit = .ok commitKey) (hvalues : snippet.IsCovered values)
    (hdelays : snippet.HasDurations) :
    ∃ journal, ((Player.onto s Faults.none).play snippet values).run {} = .ok () ⟨{}, journal⟩ ∧
      journal.calls = unfailing (snippet.calls s values commitKey) := by
  have hstops := stop_not_mem_script hcommit hvalues hdelays
  have haccepted := scriptEntries_accepted (snippet.script s values)
  have hagrees : Faults.none.Agrees [] (scriptEntries (snippet.script s values)) :=
    Faults.agrees_none haccepted
  obtain ⟨hrenders, hrendered⟩ := Player.renders_of_agrees s haccepted hagrees
  refine ⟨scriptEntries (snippet.script s values), ?_, ?_⟩
  · have hrun := Player.play_run_of_renders hrenders
    exact hrun.trans (by rw [show (Player.onto s Faults.none).settings = s from rfl, hrendered,
      scriptEnd_eq_ok_iff.mpr hstops]; rfl)
  · rw [scriptEntries_eq_flatMap hstops]
    exact madeCalls_script hcommit hvalues hdelays

/-- A comment whose argument has no value, then a text, an argument whose value looks like an
argument, two delays and a combo that names a key twice. -/
theorem play_calls_combo :
    let s : Settings :=
      { charDelay := .zero, lineDelay := ⟨7000, by decide⟩, commitKey := .ofText ['x'] }
    let values : Mapping Text Text := .ofList [(['n'], "$n".toList)]
    let combo : List Key := [.code .leftCtrl, .char (.ofText ['c']), .code .leftCtrl,
      .code .leftShift]
    let line : Line := [.text ['a'], .arg ['n'], .delay 5, .delay (-5), .combo combo]
    let snippet : Snippet := { lines := [[.text "##".toList, .arg ['m']], line] }
    s.commit = .ok (.char (.ofText ['x'])) ∧ snippet.IsCovered values ∧ snippet.HasDurations ∧
      ∃ journal, ((Player.onto s Faults.none).play snippet values).run {} = .ok () ⟨{}, journal⟩ ∧
        journal.calls = unfailing
          [.focus, .sleep ⟨7000, by decide⟩, .sleep ⟨7000, by decide⟩, .type ['a'], .type ['$'],
            .type ['n'], .sleep ⟨5000, by decide⟩, .press (.code .leftCtrl),
            .press (.char (.ofText ['c'])), .release (.code .leftCtrl), .press (.code .leftShift),
            .release (.code .leftShift), .release (.char (.ofText ['c'])),
            .click (.char (.ofText ['x']))] := by
  intro s values combo line snippet
  have hcommit : s.commit = .ok (.char (.ofText ['x'])) := rfl
  have hvalues : snippet.IsCovered values := by
    intro line' hline hcomment name hpart
    obtain rfl | hline := List.mem_cons.mp hline
    · cases hcomment
    · obtain rfl := List.mem_singleton.mp hline
      obtain rfl : name = ['n'] := by simpa [line] using hpart
      rfl
  have hdelays : snippet.HasDurations := by
    intro line' hline milliseconds hpart
    obtain rfl | hline := List.mem_cons.mp hline
    · simp at hpart
    · obtain rfl := List.mem_singleton.mp hline
      obtain rfl | rfl : milliseconds = 5 ∨ milliseconds = -5 := by simpa [line] using hpart
      all_goals decide
  obtain ⟨journal, hrun, hcalls⟩ := play_calls hcommit hvalues hdelays
  exact ⟨hcommit, hvalues, hdelays, journal, hrun, hcalls.trans (by decide)⟩

end

end Typist
