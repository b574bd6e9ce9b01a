import Typist.Proofs.Basic
import Typist.Proofs.Snippet.Notes
import Typist.Proofs.Snippet.Scanning

/-!
# Reading a line computes its meaning

`readLine_eq_reading` : whatever the line and whatever the lookup of key names, reading the line as
the first of a snippet gives the line's `reading`, with the defaults it declares. The one difference
is in a fault. A delay of digits only, but of more than `digitLimit` of them, is a malformed delay
by the grammar, and what is raised for it is no fault of a snippet (`LineContext.raised`).

`readSegments_run` is what lies under it, and holds from any snippet on : the segments up to the
first fault add their parts, declare their defaults and are noted.
-/

namespace Typist

open LineContext

/-! ## Faults -/

/-- Is the fault a delay that is a number, but of more digits than a numeral may have? -/
def SnippetFault.isLongNumeral : SnippetFault → Bool
  | .malformedDelay body => body.all Char.isDigit && digitLimit < body.length
  | _ => false

/-- What is raised for a fault of the line. -/
def LineContext.raised (ctx : LineContext) (fault : SnippetFault) : ReadError :=
  if fault.isLongNumeral then .numberTooLong else .snippet ⟨fault, some ctx.number⟩

/-- The snippet with more defaults declared and more diagnostics. -/
def Snippet.grown (σ : Snippet) (defaults : List (Text × Text)) (diagnostics : Diagnostics) :
    Snippet :=
  { σ with defaults := σ.defaults.setAll defaults, diagnostics := σ.diagnostics ++ diagnostics }

theorem Snippet.grown_grown (σ : Snippet) (ds ds' : List (Text × Text)) (ns ns' : Diagnostics) :
    (σ.grown ds ns).grown ds' ns' = σ.grown (ds ++ ds') (ns ++ ns') := by
  simp [grown, Mapping.setAll]

theorem Snippet.grown_nil (σ : Snippet) : σ.grown [] [] = σ := by
  simp [grown, Mapping.setAll]

/-! ## Lines as they grow -/

theorem consText_nil (line : Line) : consText [] line = line := by
  unfold consText
  split <;> simp

theorem consText_append (t u : Text) (line : Line) :
    consText (t ++ u) line = consText t (consText u line) := by
  match line with
  | .text v :: line => simp [consText]
  | [] | .delay _ :: _ | .arg _ :: _ | .combo _ :: _ =>
    by_cases hu : u = [] <;> simp [consText, hu]

/-- The scan with one more part : text goes on with the pending text, and any other part ends it. -/
def Scan.absorb (s : Scan) : Part → Scan
  | .text t => s.literal t
  | part => s.added part

/-- The line that a scan makes of the parts still to come. -/
def Scan.completed (s : Scan) (parts : List Part) : Line :=
  s.parts ++ consText s.pending (Line.merged parts)

theorem Scan.completed_nil (s : Scan) : s.completed [] = s.flushed := by
  by_cases h : s.pending = [] <;> simp [completed, Line.merged, consText, flushed, h]

theorem Scan.completed_absorb (s : Scan) (part : Part) (parts : List Part) :
    (s.absorb part).completed parts = s.completed (part :: parts) := by
  cases part with
  | text t => simp [completed, absorb, literal, Line.merged, consText_append]
  | delay | arg | combo =>
    by_cases h : s.pending = [] <;>
      simp [completed, absorb, added, Line.merged, consText_nil, flushed, h, consText.eq_2]

/-! ## One segment -/

section

variable (ctx : LineContext)

/-- What comes of a line or of a piece of it that has the given fate, with the snippet it leaves. -/
def LineContext.ended {α : Type} (ctx : LineContext) (fate : Except SnippetFault α) (σ : Snippet) :
    EStateM.Result ReadError Snippet α :=
  match fate with
  | .ok a => .ok a σ
  | .error fault => .error (ctx.raised fault) σ

theorem fail_run {α : Type} (fault : SnippetFault) (σ : Snippet) :
    (ctx.fail fault : Reading α).run σ = .error (.snippet ⟨fault, some ctx.number⟩) σ :=
  rfl

theorem closeDelay_run (s : Scan) (body : Text) (closed : Bool) (σ : Snippet) :
    (ctx.closeDelay s body).run σ =
      ctx.ended (((Segment.part .delay body closed).meaning ctx.lookup).map s.absorb) σ := by
  rw [closeDelay, Segment.meaning]
  generalize hall : body.all Char.isDigit = all
  by_cases hdigits : body = [] ∨ all = false
  · have hfault : (SnippetFault.malformedDelay body).isLongNumeral = false := by
      rcases hdigits with rfl | rfl <;> simp [SnippetFault.isLongNumeral, hall]
    rw [if_pos (by simpa using hdigits), if_neg (by rcases hdigits with h | h <;> simp [h]),
      fail_run]
    simp [ended, Except.map, raised, hfault]
  · obtain ⟨hnil, rfl⟩ : body ≠ [] ∧ all = true := by simpa using hdigits
    rw [if_neg (by simp [hnil])]
    by_cases hlong : digitLimit < body.length
    · have hfault : (SnippetFault.malformedDelay body).isLongNumeral = true := by
        simp only [SnippetFault.isLongNumeral, hall, hlong]
        rfl
      rw [if_pos hlong, if_neg (fun h => absurd h.2.2 (by omega))]
      simp [ended, Except.map, raised, hfault]
      rfl
    · rw [if_neg hlong, if_pos ⟨hnil, rfl, by omega⟩]
      rfl

theorem keys_run (tokens : List Text) (σ : Snippet) :
    (ctx.keys tokens).run σ = ctx.ended (namedKeysOf ctx.lookup tokens) σ := by
  induction tokens with
  | nil => rfl
  | cons token tokens ih =>
    rw [keys, namedKeysOf]
    cases ctx.lookup token with
    | none => rfl
    | some key =>
      simp only [EStateM.run_bind, ih]
      cases namedKeysOf ctx.lookup tokens <;> rfl

theorem closeCombo_run (s : Scan) (body : Text) (closed : Bool) (σ : Snippet) :
    (ctx.closeCombo s (comboTokens body)).run σ =
      ctx.ended (((Segment.part .combo body closed).meaning ctx.lookup).map s.absorb) σ := by
  rw [closeCombo.eq_def, Segment.meaning]
  cases comboTokens body with
  | nil => rfl
  | cons token tokens =>
    simp only [EStateM.run_bind, keys_run, reduceCtorEq, if_false]
    cases namedKeysOf ctx.lookup (token :: tokens) <;> rfl

/-- The end of the line leaves the diagnostic for an incomplete part. -/
theorem noteOpen_run (opening : Opening) (body : Text) (σ : Snippet) :
    (ctx.noteOpen (opening.mode.fed body)).run σ =
      .ok () (σ.grown [] ((Segment.part opening body false).incomplete ctx.number)) := by
  cases opening with
  | delay | list => exact congrArg (EStateM.Result.ok ()) (Snippet.grown_nil σ).symm
  | arg =>
    -- what is quoted of the argument is its body, since a name and its default make up the body
    have hwritten :
        ([] ++ (splitDefault body).1) ++ ((splitDefault body).2.map (':' :: ':' :: ·)).getD [] =
          body :=
      splitDefault_append body
    simp only [Opening.mode, Mode.fed, noteOpen, noteOpenArg, hwritten]
    rfl
  | combo =>
    simp only [Opening.mode, Mode.fed, noteOpen, endToken_feedTokens_nil]
    rfl

/-- Declaring a default leaves the diagnostic for what it takes the place of. -/
theorem declare_run (name value : Text) (σ : Snippet) :
    (ctx.declare name value).run σ =
      .ok () (σ.grown [(name, value)] (redeclaration ctx.number σ.defaults (name, value))) := by
  cases h : σ.defaults.get? name with
  | none =>
    simp only [declare, EStateM.run_bind, EStateM.run_get, h, EStateM.run_modify, EStateM.run_pure]
    simp [Snippet.grown, Mapping.setAll, redeclaration, h]
  | some previous =>
    simp only [declare, EStateM.run_bind, EStateM.run_get, h, EStateM.run_modify, note]
    simp [Snippet.grown, Mapping.setAll, redeclaration, h, Snippet.note]

theorem closeArg_run (s : Scan) (body : Text) (closed : Bool) (σ : Snippet) :
    (ctx.closeArg s (splitDefault body).1 (splitDefault body).2).run σ =
      ctx.ended (((Segment.part .arg body closed).meaning ctx.lookup).map s.absorb)
        (σ.grown (Segment.part .arg body closed).declared.toList
          ((Segment.part .arg body closed).redeclared ctx.number σ.defaults)) := by
  rw [closeArg.eq_def, Segment.meaning, Segment.redeclared, Segment.declared]
  by_cases hname : (splitDefault body).1 = []
  · simp only [hname, if_true, Option.toList_none, List.flatMap_nil, Snippet.grown_nil]
    rfl
  · simp only [hname, if_false]
    cases (splitDefault body).2 with
    | none =>
      simp only [Option.map_none, Option.toList_none, List.flatMap_nil, Snippet.grown_nil]
      rfl
    | some value =>
      simp only [EStateM.run_bind, declare_run, Option.map_some, Option.toList_some,
        List.flatMap_singleton]
      rfl

theorem close_run (s : Scan) {opening : Opening} (hlist : opening ≠ .list) (body : Text)
    (closed : Bool) (σ : Snippet) :
    (ctx.close s (opening.mode.fed body)).run σ =
      ctx.ended (((Segment.part opening body closed).meaning ctx.lookup).map s.absorb)
        (σ.grown (Segment.part opening body closed).declared.toList
          ((Segment.part opening body closed).redeclared ctx.number σ.defaults)) := by
  match opening, hlist with
  | .delay, _ =>
    show _ = ctx.ended _ (σ.grown [] [])
    rw [Snippet.grown_nil, ← closeDelay_run]
    rfl
  | .arg, _ => exact closeArg_run ctx s body closed σ
  | .combo, _ =>
    show _ = ctx.ended _ (σ.grown [] [])
    rw [Snippet.grown_nil, ← closeCombo_run, ← endToken_feedTokens_nil]
    rfl

/-- A segment adds the part it stands for to the scan, declares its default and is noted, or its
fault is raised. -/
theorem readSegment_run (s : Scan) (segment : Segment) (σ : Snippet) :
    (ctx.readSegment s segment).run σ =
      ctx.ended ((segment.meaning ctx.lookup).map s.absorb)
        (σ.grown segment.declared.toList (segment.notes ctx.number σ.defaults)) := by
  match segment with
  | .text content =>
    show _ = ctx.ended _ (σ.grown [] [])
    rw [Snippet.grown_nil]
    rfl
  | .part opening body closed =>
    by_cases hlist : opening = .list
    · subst hlist
      show _ = ctx.ended _ (σ.grown [] [])
      rw [Snippet.grown_nil]
      rfl
    rw [readSegment_part ctx s hlist]
    cases closed with
    | true =>
      rw [Segment.notes, incomplete_closed]
      exact close_run ctx s hlist body true σ
    | false =>
      simp only [Bool.not_false, if_true, EStateM.run_bind, noteOpen_run,
        close_run ctx s hlist body false, Snippet.grown_grown]
      rfl

end

/-! ## The line -/

/-- The segments read in order, from any scan on. -/
theorem readSegments_run (ctx : LineContext) (s : Scan) (gs : List Segment) (σ : Snippet) :
    (ctx.readSegments s gs).run σ =
      ctx.ended ((gs.mapM (Segment.meaning ctx.lookup)).map s.completed)
        (σ.grown ((gs.takeWhile fun g => (g.meaning ctx.lookup).isOk).filterMap Segment.declared)
          (notedInOrder (·.declared.toList) (Segment.notes ctx.number) σ.defaults
            (reached ctx.lookup gs))) := by
  induction gs generalizing s σ with
  | nil =>
    rw [List.takeWhile_nil, List.filterMap_nil, reached, notedInOrder, Snippet.grown_nil,
      readSegments, ← Scan.completed_nil]
    rfl
  | cons g gs ih =>
    simp only [readSegments, EStateM.run_bind, readSegment_run, List.mapM_cons,
      List.takeWhile_cons, reached]
    cases hmean : g.meaning ctx.lookup with
    | error fault =>
      rw [declared_of_meaning_error hmean]
      simp only [Except.isOk, Except.toBool, Bool.false_eq_true, if_false, notedInOrder,
        List.append_nil]
      rfl
    | ok part =>
      have hgs := ih (s.absorb part)
        (σ.grown g.declared.toList (g.notes ctx.number σ.defaults))
      have hcompleted : (s.absorb part).completed = fun parts => s.completed (part :: parts) :=
        funext fun parts => s.completed_absorb part parts
      rw [Snippet.grown_grown, hcompleted] at hgs
      simp only [Except.map, ended, hgs]
      have hdeclared :
          (g :: gs.takeWhile fun g => (g.meaning ctx.lookup).isOk).filterMap Segment.declared =
            g.declared.toList ++
              (gs.takeWhile fun g => (g.meaning ctx.lookup).isOk).filterMap Segment.declared := by
        rw [List.filterMap_cons]
        cases g.declared <;> rfl
      rw [show (Except.ok part : Except SnippetFault Part).isOk = true from rfl, if_pos rfl,
        if_pos rfl, hdeclared]
      cases gs.mapM (Segment.meaning ctx.lookup) <;> rfl

/-- A fault raised as it is tells what it is about; only a long numeral is not. -/
theorem raised_eq_snippet_iff (ctx : LineContext) (fault : SnippetFault) :
    ctx.raised fault = .snippet ⟨fault, some ctx.number⟩ ↔ fault.isLongNumeral = false := by
  cases h : fault.isLongNumeral <;> simp [raised, h]

/-- Reading a line as the first of a snippet gives its meaning and declares its defaults. Faults are
raised with the number of the line, unless the first fault from the left is a delay of too many
digits. -/
theorem readLine_eq_reading (ctx : LineContext) (t : Text) :
    outcome (ctx.readLine t) {} = (reading ctx.lookup t).mapError ctx.raised ∧
      (stateAfter (ctx.readLine t) {}).lines = (reading ctx.lookup t).toOption.toList ∧
      (stateAfter (ctx.readLine t) {}).defaults = .ofList (declared ctx.lookup t) ∧
      (outcome (ctx.readLine t) {} =
          (reading ctx.lookup t).mapError (fun fault => .snippet ⟨fault, some ctx.number⟩) ↔
        ∀ fault, reading ctx.lookup t = .error fault → fault.isLongNumeral = false) := by
  have hrun := readSegments_run ctx {} (segments t) {}
  rw [← scan_eq_readSegments ctx {} rfl] at hrun
  have hcompleted : Scan.completed {} = Line.merged := funext fun parts => by
    simp [Scan.completed, consText_nil]
  rw [hcompleted] at hrun
  simp only [outcome, stateAfter, readLine, EStateM.run_bind, hrun, reading, declared]
  cases (segments t).mapM (Segment.meaning ctx.lookup) with
  | ok parts =>
    refine ⟨rfl, rfl, rfl, fun _ fault h => ?_, fun _ => rfl⟩
    cases h
  | error fault =>
    refine ⟨rfl, rfl, rfl, ?_⟩
    simp only [ended, Except.map, Except.mapError, Except.error.injEq, raised_eq_snippet_iff,
      forall_eq']

end Typist
