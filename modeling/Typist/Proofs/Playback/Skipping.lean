import Typist.Proofs.Playback.LettingGo
import Typist.Proofs.Snippet.Comments

/-!
# Comments that are skipped

Playing tells of each line that it skips, by its number. The numbers that are told are those of the
comments, in order, or the first of them if playing fails (`play_skips`); with a parsed snippet they
can be told from its text (`isComment_iff_source`). The keyboard and the clock are any that do not
tell of skipped lines themselves (`Player.IsDiscreet`), which none here does.
-/

namespace Typist

/-! ## What is told -/

/-- How the notice of a skipped line begins, before its number. -/
def skippingPrefix : String :=
  "Skipping comment line "

/-- The number of the line that the notice says is skipped. -/
def Notice.skipped? (notice : Notice) : Option Nat :=
  if notice.level = .debug then
    (notice.message.toList.dropPrefix? skippingPrefix.toList).map Text.value
  else none

/-- The numbers of the lines that were skipped. -/
def Journal.skipped (j : Journal) : List Nat :=
  j.notices.filterMap Notice.skipped?

@[simp]
theorem Notice.skipped?_skipping (number : Nat) :
    Notice.skipped? ⟨.debug, skippingPrefix ++ (Text.ofNat number).str⟩ = some number := by
  have hdrop : (skippingPrefix.toList ++ Text.ofNat number).dropPrefix? skippingPrefix.toList =
      some (Text.ofNat number) :=
    List.dropPrefix?_eq_some_iff.mpr ⟨_, rfl, beq_self_eq_true _⟩
  rw [skipped?, if_pos rfl, String.toList_append, Text.str, String.toList_ofList, hdrop,
    Option.map_some, Text.value_ofNat]

/-- A notice that begins in another way is not one of a skipped line. -/
theorem Notice.skipped?_eq_none {notice : Notice} (h : notice.message.toList.head? ≠ some 'S') :
    notice.skipped? = none := by
  rw [skipped?]
  split
  · rw [Option.map_eq_none_iff, Option.eq_none_iff_forall_ne_some]
    intro number hnumber
    obtain ⟨start, hmessage, hstart⟩ := List.dropPrefix?_eq_some_iff.mp hnumber
    rw [hmessage, eq_of_beq hstart] at h
    exact h rfl
  · rfl

theorem Journal.skipped_append (j j' : Journal) :
    Journal.skipped (j ++ j') = j.skipped ++ j'.skipped := by
  simp [skipped, notices]

/-! ## Keyboards that do not tell of skipped lines -/

/-- Does an action tell of no skipped line? -/
def Act.IsDiscreet (act : Act Unit) : Prop :=
  ∀ journal, (stateAfter act journal).skipped = journal.skipped

/-- Does a keyboard tell of no skipped line? -/
structure Keyboard.IsDiscreet (k : Keyboard) : Prop where
  press : ∀ key, (k.press key).IsDiscreet
  release : ∀ key, (k.release key).IsDiscreet
  click : ∀ key, (k.click key).IsDiscreet
  type : ∀ t, (k.type t).IsDiscreet
  focus : k.focus.IsDiscreet

namespace Act

variable {act act' : Act Unit}

theorem isDiscreet_pure : (pure () : Act Unit).IsDiscreet := fun _ => rfl

theorem isDiscreet_throw (fault : Fault) : (throw fault : Act Unit).IsDiscreet := fun _ => rfl

theorem isDiscreet_enter {entry : Entry} (h : Journal.skipped [entry] = []) :
    (enter entry).IsDiscreet := by
  intro journal
  show Journal.skipped (journal ++ [entry]) = _
  rw [Journal.skipped_append, h, List.append_nil]

theorem isDiscreet_note {level : Level} {message : String}
    (h : Notice.skipped? ⟨level, message⟩ = none) : (note level message).IsDiscreet :=
  isDiscreet_enter (by simp [Journal.skipped, Journal.notices, h])

theorem isDiscreet_call (faults : Faults) (call : Call) : (Act.call faults call).IsDiscreet := by
  intro journal
  rw [stateAfter_call, Journal.skipped_append]
  exact List.append_nil _

theorem IsDiscreet.bind (h : act.IsDiscreet) (h' : act'.IsDiscreet) :
    (act >>= fun _ => act').IsDiscreet := by
  intro journal
  have hjournal := h journal
  rw [stateAfter] at hjournal ⊢
  rw [EStateM.run_bind]
  cases hrun : act.run journal with
  | error fault journal' => rwa [hrun] at hjournal
  | ok _ journal' =>
    rw [hrun] at hjournal
    exact (h' journal').trans hjournal

end Act

namespace Keyboard

open Act

theorem direct_isDiscreet (faults : Faults) : (direct faults).IsDiscreet :=
  have hcall : ∀ call, (Act.call faults call).IsDiscreet := isDiscreet_call faults
  ⟨fun _ => hcall _, fun _ => hcall _, fun _ => hcall _, fun _ => hcall _, hcall _⟩

theorem guarded_isDiscreet (faults : Faults) {inner : Keyboard} (h : inner.IsDiscreet) :
    (guarded faults inner).IsDiscreet :=
  have hcall : ∀ call, (Act.call faults call).IsDiscreet := isDiscreet_call faults
  have hpress : ∀ key, ((guarded faults inner).press key).IsDiscreet := fun key =>
    (hcall _).bind (h.press key)
  have hrelease : ∀ key, ((guarded faults inner).release key).IsDiscreet := fun key =>
    (hcall _).bind (h.release key)
  ⟨hpress, hrelease, fun key => (hpress key).bind (hrelease key),
    fun t => (hcall _).bind (h.type t), (hcall _).bind h.focus⟩

theorem record_isDiscreet (echo : Bool) (event : KeyEvent) : (record echo event).IsDiscreet := by
  refine (isDiscreet_enter rfl).bind ?_
  split
  · exact isDiscreet_enter rfl
  · exact isDiscreet_pure

theorem recorder_isDiscreet (echo : Bool) {wrapped : Option Keyboard}
    (h : ∀ k ∈ wrapped, k.IsDiscreet) : (recorder wrapped echo).IsDiscreet := by
  have hinner : ∀ {send : Keyboard → Act Unit}, (∀ k ∈ wrapped, (send k).IsDiscreet) →
      (wrapped.forM send).IsDiscreet := by
    intro send hsend
    cases wrapped with
    | none => exact isDiscreet_pure
    | some k => exact hsend k rfl
  have hpress : ∀ key, ((recorder wrapped echo).press key).IsDiscreet := fun key =>
    (record_isDiscreet _ _).bind (hinner fun k hk => (h k hk).press key)
  have hrelease : ∀ key, ((recorder wrapped echo).release key).IsDiscreet := fun key =>
    (record_isDiscreet _ _).bind (hinner fun k hk => (h k hk).release key)
  refine ⟨hpress, hrelease, fun key => (hpress key).bind (hrelease key), fun t =>
    (record_isDiscreet _ _).bind
      ((record_isDiscreet _ _).bind (hinner fun k hk => (h k hk).type t)), ?_⟩
  cases wrapped with
  | none => exact isDiscreet_note rfl
  | some k => exact (h k rfl).focus

theorem controller_isDiscreet (system : System) (faults : Faults) :
    (controller system faults).IsDiscreet := by
  have hstroke : ∀ {key : Key} {send : Stroke → Act Unit}, (∀ stroke, (send stroke).IsDiscreet) →
      (withStroke system key send).IsDiscreet := by
    intro key send hsend
    rw [withStroke]
    split
    · exact hsend _
    · exact isDiscreet_throw _
  have hname : ∀ {name : String} {send : Stroke → Act Unit}, (∀ stroke, (send stroke).IsDiscreet) →
      (withName system name send).IsDiscreet := by
    intro name send hsend
    rw [withName]
    split
    · exact isDiscreet_throw _
    · exact hsend _
  have hcall : ∀ call, (Act.call faults call).IsDiscreet := isDiscreet_call faults
  refine ⟨fun key => hstroke fun stroke => hcall _, fun key => hstroke fun stroke => hcall _,
    fun key => hstroke fun stroke => (hcall _).bind (hcall _),
    fun t => (hcall _).bind (hcall _), ?_⟩
  rw [controller]
  refine hname fun switcher => (isDiscreet_note (Notice.skipped?_eq_none ?_)).bind
    ((hcall _).bind ((hname fun _ => hcall _).bind ((hname fun _ => hcall _).bind (hcall _))))
  simp [String.toList_append]

end Keyboard

/-! ## What playing skips -/

/-- Does an action of a player tell of the skipped lines of these numbers, in order, or of the first
of them if it fails? -/
def Play.Skips {α : Type} (act : Play α) (numbers : List Nat) : Prop :=
  ∀ stage, ∃ told, (stateAfter act stage).journal.skipped = stage.journal.skipped ++ told ∧
    told <+: numbers ∧ ∀ a, outcome act stage = .ok a → told = numbers

namespace Play

variable {α β : Type} {act : Play α} {numbers numbers' : List Nat}

theorem skips_of_journal_eq (h : ∀ stage, (stateAfter act stage).journal = stage.journal) :
    act.Skips [] := by
  intro stage
  exact ⟨[], by rw [h, List.append_nil], List.nil_prefix, fun _ _ => rfl⟩

theorem skips_pure (a : α) : (pure a : Play α).Skips [] :=
  skips_of_journal_eq fun _ => rfl

theorem skips_throw (error : PlayError) : (throw error : Play α).Skips numbers := fun _ =>
  ⟨[], (List.append_nil _).symm, List.nil_prefix, fun _ h => by cases h⟩

/-- Nothing more is told after a failure. -/
theorem Skips.bind (h : act.Skips numbers) {next : α → Play β} (h' : ∀ a, (next a).Skips numbers') :
    (act >>= next).Skips (numbers ++ numbers') := by
  intro stage
  obtain ⟨told, htold, hprefix, hall⟩ := h stage
  rw [stateAfter] at htold
  rw [stateAfter, outcome, EStateM.run_bind]
  cases hrun : act.run stage with
  | error e stage' =>
    rw [hrun] at htold
    exact ⟨told, htold, hprefix.trans (List.prefix_append ..), fun a ha => by cases ha⟩
  | ok a stage' =>
    rw [hrun] at htold
    obtain rfl : told = numbers := hall a (by rw [outcome, hrun])
    obtain ⟨told', htold', hprefix', hall'⟩ := h' a stage'
    refine ⟨told ++ told', ?_, List.prefix_append_right_inj told |>.mpr hprefix',
      fun b hb => congrArg (told ++ ·) (hall' b hb)⟩
    rw [← List.append_assoc, ← htold]
    exact htold'

/-- What tells of nothing can be left out. -/
theorem Skips.after (h : act.Skips []) {next : α → Play β} (h' : ∀ a, (next a).Skips numbers) :
    (act >>= next).Skips numbers :=
  h.bind h'

theorem skips_perform {act : Act Unit} (h : act.IsDiscreet) : (perform act).Skips [] := by
  intro stage
  refine ⟨[], ?_, List.nil_prefix, fun _ _ => rfl⟩
  rw [List.append_nil, ← h stage.journal, stateAfter, stateAfter, EStateM.run, EStateM.run]
  unfold perform
  cases act stage.journal <;> rfl

theorem skips_attempt {act : Act Unit} (h : act.IsDiscreet) : (attempt act).Skips [] := by
  intro stage
  refine ⟨[], ?_, List.nil_prefix, fun _ _ => rfl⟩
  rw [List.append_nil, ← h stage.journal, stateAfter, stateAfter, EStateM.run, EStateM.run]
  unfold attempt
  cases act stage.journal with
  | ok _ journal => rfl
  | error fault journal => cases hfault : fault.isHardware <;> simp [hfault]

theorem Skips.ensuring {body last : Play Unit} (h : body.Skips numbers) (h' : last.Skips []) :
    (Play.ensuring body last).Skips numbers := by
  intro stage
  obtain ⟨told, htold, hprefix, hall⟩ := h stage
  obtain ⟨told', htold', hnil, -⟩ := h' (stateAfter body stage)
  obtain rfl := List.prefix_nil.mp hnil
  refine ⟨told, by rw [stateAfter_ensuring, htold', List.append_nil, htold], hprefix,
    fun a ha => hall a ?_⟩
  rw [outcome, Player.ensuring_run] at ha
  rw [outcome]
  cases hrun : body.run stage with
  | ok _ stage' => rfl
  | error e stage' =>
    rw [hrun] at ha
    cases hlast : last.run stage' <;> simp [hlast] at ha

end Play

namespace Player

open Play

variable {p : Player} {keys : List Key} {t : Text} {values : Mapping Text Text} {part : Part}
  {parts : List Part}

/-- Do the keyboard and the clock of a player tell of no skipped line? -/
structure IsDiscreet (p : Player) : Prop where
  keyboard : p.keyboard.IsDiscreet
  sleep : ∀ d, (p.sleep d).IsDiscreet

theorem through_isDiscreet (settings : Settings) (system : System) (faults : Faults) :
    (through settings system faults).IsDiscreet :=
  ⟨Keyboard.controller_isDiscreet system faults, fun d => Act.isDiscreet_call faults (.sleep d)⟩

theorem sending_isDiscreet (h : p.IsDiscreet) (event : KeyEvent) :
    (p.sending event).IsDiscreet := by
  cases event with
  | press key => exact h.keyboard.press key
  | release key => exact h.keyboard.release key

theorem pause_skips (h : p.IsDiscreet) (d : Duration) : (p.pause d).Skips [] := by
  rw [pause]
  split
  · exact skips_perform (h.sleep d)
  · exact skips_pure ()

theorem typeText_skips (h : p.IsDiscreet) (t : Text) : (p.typeText t).Skips [] := by
  induction t with
  | nil => exact skips_pure ()
  | cons c t ih =>
    exact (skips_perform (h.keyboard.type [c])).after fun _ => (pause_skips h _).after fun _ => ih

theorem releaseKeys_skips (h : p.IsDiscreet) (keys : List Key) (failure : Option Fault) :
    (p.releaseKeys keys failure).Skips [] := by
  induction keys generalizing failure with
  | nil =>
    cases failure with
    | none => exact skips_pure ()
    | some fault => exact skips_throw _
  | cons key keys ih =>
    refine (skips_of_journal_eq fun _ => rfl).after fun _ =>
      (skips_attempt (sending_isDiscreet h (.release key))).after fun failed => ?_
    cases failed with
    | none => exact ih failure
    | some fault => exact (skips_perform (Act.isDiscreet_note rfl)).after fun _ => ih _

theorem releaseHeld_skips (h : p.IsDiscreet) : p.releaseHeld.Skips [] :=
  (skips_of_journal_eq fun _ => rfl).after fun _ => releaseKeys_skips h _ _

theorem toggleKeys_skips (h : p.IsDiscreet) (keys : List Key) : (p.toggleKeys keys).Skips [] := by
  induction keys with
  | nil => exact skips_pure ()
  | cons key keys ih =>
    exact (skips_of_journal_eq fun _ => rfl).after fun _ =>
      (skips_perform (sending_isDiscreet h _)).after fun _ =>
        (skips_of_journal_eq fun _ => rfl).after fun _ => ih

theorem commit_skips (h : p.IsDiscreet) : p.commit.Skips [] := by
  rw [commit]
  split
  · exact skips_throw _
  · exact skips_perform (h.keyboard.click _)

theorem playPart_skips (h : p.IsDiscreet) (values : Mapping Text Text) (part : Part) :
    (p.playPart values part).Skips [] := by
  cases part with
  | text content => exact typeText_skips h content
  | arg name =>
    rw [playPart]
    split
    · exact skips_throw _
    · exact typeText_skips h _
  | combo keys => exact (toggleKeys_skips h keys).after fun _ => releaseHeld_skips h
  | delay milliseconds =>
    rw [playPart]
    split
    · split
      · exact skips_throw _
      · exact pause_skips h _
    · exact skips_pure ()

theorem playParts_skips (h : p.IsDiscreet) (values : Mapping Text Text) (parts : List Part) :
    (p.playParts values parts).Skips [] := by
  induction parts with
  | nil => exact skips_pure ()
  | cons part parts ih => exact (playPart_skips h values part).after fun _ => ih

/-- Of a line it is told that it is skipped if it is a comment. -/
theorem playLine_skips (h : p.IsDiscreet) (values : Mapping Text Text) (number : Nat)
    (line : Line) :
    (p.playLine values number line).Skips (if line.isComment then [number] else []) := by
  refine (pause_skips h _).after fun _ => ?_
  split
  · intro stage
    refine ⟨[number], ?_, List.prefix_rfl, fun _ _ => rfl⟩
    show Journal.skipped (stage.journal ++ [.noticed ⟨.debug,
      skippingPrefix ++ (Text.ofNat number).str⟩]) = _
    rw [Journal.skipped_append]
    simp [Journal.skipped, Journal.notices]
  · exact (playParts_skips h values line).after fun _ => commit_skips h

theorem playLines_skips (h : p.IsDiscreet) (values : Mapping Text Text) (number : Nat)
    (lines : List Line) :
    (p.playLines values number lines).Skips (lines.findIdxs Line.isComment number) := by
  induction lines generalizing number with
  | nil => exact skips_pure ()
  | cons line lines ih =>
    have hnumbers : (line :: lines).findIdxs Line.isComment number =
        (if line.isComment then [number] else []) ++
          lines.findIdxs Line.isComment (number + 1) := by
      rw [List.findIdxs_cons]
      split <;> rfl
    rw [hnumbers]
    exact (playLine_skips h values number line).bind fun _ => ih (number + 1)

/-- Playing skips the comments. -/
theorem play_skips (h : p.IsDiscreet) (snippet : Snippet) (values : Mapping Text Text) :
    (p.play snippet values).Skips (snippet.lines.findIdxs Line.isComment 1) := by
  refine Skips.after ?_ fun _ =>
    (playLines_skips h values 1 snippet.lines).ensuring (releaseHeld_skips h)
  rw [focus]
  split
  · exact skips_perform h.keyboard.focus
  · exact skips_pure ()

end Player

/-- A line that is read is a comment exactly if two number signs are at the start of its source, and
what playing a parsed snippet skips are, by their numbers, the logical lines that start so. -/
theorem isComment_iff_source :
    (∀ (ctx : LineContext) (t : Text) (σ σ' : Snippet) (line : Line),
      (ctx.readLine t).run σ = .ok line σ' → (line.isComment = true ↔ ['#', '#'] <+: t)) ∧
      ∀ (lookup : KeyLookup) (t : Text) (s : Snippet), Snippet.parse lookup t = .ok s →
        ∀ p : Player, p.IsDiscreet → ∀ values : Mapping Text Text,
          (p.play s values).Skips ((logicalLines (physicalLines t)).findIdxs
            LogicalLine.isMarked 1) := by
  refine ⟨fun ctx t σ σ' line hrun => ?_, fun lookup t s hparse p hp values => ?_⟩
  · rw [readLine_run] at hrun
    cases hreading : reading ctx.lookup t with
    | ok line' =>
      rw [hreading] at hrun
      obtain ⟨rfl, -⟩ := EStateM.Result.ok.inj hrun
      exact isComment_reading_iff hreading
    | error fault =>
      rw [hreading] at hrun
      cases hrun
  · rw [← findIdxs_isComment_parse hparse]
    exact Player.play_skips hp s values

/-- Two comments, and lines that come close to being one. -/
def hashText : Text :=
  "##$@a::#$$!$\n#$@$#\n$'0$## late\n##\\\n$!$\n $@::x$##".toList

theorem isComment_iff_source_hashText :
    ∃ s, Snippet.parse Key.standardLookup hashText = .ok s ∧
      (∀ faults, (Player.through {} {} faults).IsDiscreet ∧
        ((Player.through {} {} faults).play s ∅).Skips [1, 4]) ∧
      ∃ line σ, (LineContext.readLine ⟨Key.standardLookup, 2⟩ "#$@$#".toList).run {} = .ok line σ ∧
        line.isComment = false := by
  have hparse : (Snippet.parse Key.standardLookup hashText).isOk = true := by decide +kernel
  obtain ⟨s, hs⟩ : ∃ s, Snippet.parse Key.standardLookup hashText = .ok s := by
    cases hresult : Snippet.parse Key.standardLookup hashText with
    | ok s => exact ⟨s, rfl⟩
    | error e => simp [hresult, Except.isOk, Except.toBool] at hparse
  have hmarked : (logicalLines (physicalLines hashText)).findIdxs LogicalLine.isMarked 1 =
      [1, 4] := by
    decide +kernel
  have hreading : reading Key.standardLookup "#$@$#".toList = .ok [.text "#$@#".toList] := by
    decide +kernel
  have hrun := readLine_run ⟨Key.standardLookup, 2⟩ "#$@$#".toList {}
  rw [hreading] at hrun
  refine ⟨s, hs, fun faults => ?_, _, _, hrun, ?_⟩
  · have hdiscreet := Player.through_isDiscreet {} {} faults
    exact ⟨hdiscreet, hmarked ▸ isComment_iff_source.2 _ _ s hs _ hdiscreet ∅⟩
  · have hunmarked : ¬ ['#', '#'] <+: "#$@$#".toList := by decide
    exact Bool.eq_false_iff.mpr fun hcomment =>
      hunmarked ((isComment_iff_source.1 _ _ _ _ _ hrun).mp hcomment)

end Typist
