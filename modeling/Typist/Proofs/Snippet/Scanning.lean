import Typist.Proofs.Snippet.Grammar

/-!
# Scanning segment by segment

The scan of a line goes character by character, with an open part in its `Mode`. An open part takes
the characters up to the next `$` as they come (`scan_append`) : `Mode.fed` is the part once it has
taken some. The `$` closes it (`scan_dollar`), and so does the end of the line, after a diagnostic.
In text the scan goes on to the first opener (`scan_text`).

So a scan reads one segment after the other, each in one step : `scan_eq_readSegments`.
-/

namespace Typist

open LineContext

/-! ## What an open part takes -/

/-- The tokens of a combo once it has taken more characters : those that are complete, and the one
that may go on. -/
def feedTokens (tokens : List Text) (token : Text) : Text → List Text × Text
  | [] => (tokens, token)
  | c :: t =>
    if isComboSeparator c then feedTokens (endToken tokens token) [] t
    else feedTokens tokens (token ++ [c]) t

/-- An open part once it has taken more characters. -/
def Mode.fed : Mode → Text → Mode
  | .text, _ => .text
  | .delay body, t => .delay (body ++ t)
  | .arg name none, t => .arg (name ++ (splitDefault t).1) (splitDefault t).2
  | .arg name (some value), t => .arg name (some (value ++ t))
  | .combo tokens token, t => .combo (feedTokens tokens token t).1 (feedTokens tokens token t).2

theorem modifyHead_self (ts : List Text) : (ts.modifyHead fun t => t) = ts := by
  cases ts <;> rfl

theorem endToken_feedTokens (tokens : List Text) (token t : Text) :
    endToken (feedTokens tokens token t).1 (feedTokens tokens token t).2 =
      tokens ++ ((t.splitOnP isComboSeparator).modifyHead (token ++ ·)).filter (· ≠ []) := by
  induction t generalizing tokens token with
  | nil => by_cases h : token = [] <;> simp [feedTokens, endToken, h]
  | cons c t ih =>
    rw [feedTokens, List.splitOnP_cons_eq_if_modifyHead]
    split
    · rw [ih]
      by_cases h : token = [] <;> simp [endToken, h, modifyHead_self]
    · rw [ih]
      simp [List.modifyHead_modifyHead, Function.comp_def]

/-- The tokens of a whole body. -/
theorem endToken_feedTokens_nil (t : Text) :
    endToken (feedTokens [] [] t).1 (feedTokens [] [] t).2 = comboTokens t := by
  rw [endToken_feedTokens, comboTokens]
  simp [modifyHead_self]

section

variable (ctx : LineContext) (s : Scan)

theorem scan_delay_cons (body : Text) {c : Char} (hc : c ≠ '$') (rest : Text) :
    ctx.scan (s.opened (.delay body)) (c :: rest) =
      ctx.scan (s.opened (.delay (body ++ [c]))) rest :=
  if_neg hc

theorem scan_value_cons (name value : Text) {c : Char} (hc : c ≠ '$') (rest : Text) :
    ctx.scan (s.opened (.arg name (some value))) (c :: rest) =
      ctx.scan (s.opened (.arg name (some (value ++ [c])))) rest :=
  if_neg hc

theorem scan_colons (name rest : Text) :
    ctx.scan (s.opened (.arg name none)) (':' :: ':' :: rest) =
      ctx.scan (s.opened (.arg name (some []))) rest :=
  rfl

theorem scan_name_cons (name : Text) {c : Char} (hc : c ≠ '$') {rest : Text}
    (hcolon : c = ':' → rest.head? ≠ some ':') :
    ctx.scan (s.opened (.arg name none)) (c :: rest) =
      ctx.scan (s.opened (.arg (name ++ [c]) none)) rest := by
  rw [scan.eq_def]
  by_cases h : c = ':'
  · subst h
    match rest, hcolon rfl with
    | [], _ => simp [Scan.opened]
    | d :: rest, hd =>
      have hd' : d ≠ ':' := by simpa using hd
      simp only [Scan.opened, hc, if_false, if_true]
      split
      · simp_all
      · rfl
  · simp [Scan.opened, hc, h]

theorem scan_combo_separator (tokens : List Text) (token : Text) {c : Char}
    (hc : isComboSeparator c = true) (rest : Text) :
    ctx.scan (s.opened (.combo tokens token)) (c :: rest) =
      ctx.scan (s.opened (.combo (endToken tokens token) [])) rest :=
  if_pos hc

theorem scan_combo_cons (tokens : List Text) (token : Text) {c : Char} (hc : c ≠ '$')
    (hsep : isComboSeparator c = false) (rest : Text) :
    ctx.scan (s.opened (.combo tokens token)) (c :: rest) =
      ctx.scan (s.opened (.combo tokens (token ++ [c]))) rest := by
  have hsep : ¬ isComboSeparator c = true := by rw [hsep]; exact Bool.false_ne_true
  exact (if_neg hsep).trans (if_neg hc)

/-- A part that takes every character as it comes takes all before the next `$`. -/
theorem scan_append_of_cons {part : Text → Mode}
    (hcons : ∀ (body : Text) {c : Char}, c ≠ '$' → ∀ rest,
      ctx.scan (s.opened (part body)) (c :: rest) = ctx.scan (s.opened (part (body ++ [c]))) rest)
    {t : Text} (ht : '$' ∉ t) (body rest : Text) :
    ctx.scan (s.opened (part body)) (t ++ rest) = ctx.scan (s.opened (part (body ++ t))) rest := by
  induction t generalizing body with
  | nil => simp
  | cons c t ih =>
    simp only [List.mem_cons, not_or] at ht
    rw [List.cons_append, hcons body (Ne.symm ht.1), ih ht.2, List.append_assoc]
    rfl

theorem scan_value_append {t : Text} (ht : '$' ∉ t) (name value rest : Text) :
    ctx.scan (s.opened (.arg name (some value))) (t ++ rest) =
      ctx.scan (s.opened (.arg name (some (value ++ t)))) rest :=
  scan_append_of_cons ctx s (scan_value_cons ctx s name) ht value rest

/-- The name of an argument goes on up to the first `::`. A `:` at the end of `t` must not be the
first of two. -/
theorem scan_name_append {t rest : Text} (ht : '$' ∉ t) (hrest : rest.head? ≠ some ':')
    (name : Text) :
    ctx.scan (s.opened (.arg name none)) (t ++ rest) =
      ctx.scan (s.opened ((Mode.arg name none).fed t)) rest := by
  induction t using splitDefault.induct generalizing name with
  | case1 t =>
    simp only [List.mem_cons, not_or] at ht
    rw [List.cons_append, List.cons_append, scan_colons, scan_value_append ctx s ht.2.2]
    simp [Mode.fed, splitDefault]
  | case2 c t hcolons ih =>
    simp only [List.mem_cons, not_or] at ht
    have hnext : c = ':' → (t ++ rest).head? ≠ some ':' := by
      rintro rfl
      cases t with
      | nil => simpa using hrest
      | cons d t => exact fun h => hcolons t rfl (by simp at h; rw [h])
    rw [List.cons_append, scan_name_cons ctx s name (Ne.symm ht.1) hnext, ih ht.2,
      Mode.fed, Mode.fed, splitDefault.eq_2 c t hcolons]
    simp
  | case3 => simp [Mode.fed, splitDefault]

theorem scan_combo_append {t : Text} (ht : '$' ∉ t) (tokens : List Text) (token rest : Text) :
    ctx.scan (s.opened (.combo tokens token)) (t ++ rest) =
      ctx.scan (s.opened ((Mode.combo tokens token).fed t)) rest := by
  induction t generalizing tokens token with
  | nil => rfl
  | cons c t ih =>
    simp only [List.mem_cons, not_or] at ht
    rw [List.cons_append, Mode.fed, feedTokens]
    cases hsep : isComboSeparator c with
    | true =>
      rw [scan_combo_separator ctx s tokens token hsep, ih ht.2]
      rfl
    | false =>
      rw [scan_combo_cons ctx s tokens token (Ne.symm ht.1) hsep, ih ht.2]
      rfl

/-- An open part takes the characters before the next `$`. -/
theorem scan_append {t rest : Text} (ht : '$' ∉ t) (hrest : rest.head? ≠ some ':') {mode : Mode}
    (hmode : mode ≠ .text) :
    ctx.scan (s.opened mode) (t ++ rest) = ctx.scan (s.opened (mode.fed t)) rest := by
  match mode, hmode with
  | .delay body, _ => exact scan_append_of_cons ctx s (scan_delay_cons ctx s) ht body rest
  | .arg name none, _ => exact scan_name_append ctx s ht hrest name
  | .arg name (some value), _ => exact scan_value_append ctx s ht name value rest
  | .combo tokens token, _ => exact scan_combo_append ctx s ht tokens token rest

/-! ## Closing -/

/-- Closes an open part. -/
def LineContext.close (ctx : LineContext) (s : Scan) : Mode → Reading Scan
  | .text => return s
  | .delay body => ctx.closeDelay s body
  | .arg name default => ctx.closeArg s name default
  | .combo tokens token => ctx.closeCombo s (endToken tokens token)

/-- The diagnostic for a part that the end of the line leaves open. An open delay gives none. -/
def LineContext.noteOpen (ctx : LineContext) : Mode → Reading Unit
  | .arg name default => ctx.noteOpenArg name default
  | .combo tokens token => ctx.noteOpenCombo (endToken tokens token)
  | _ => return ()

/-- A `$` closes an open part. -/
theorem scan_dollar {mode : Mode} (hmode : mode ≠ .text) (rest : Text) :
    ctx.scan (s.opened mode) ('$' :: rest) =
      ctx.close s mode >>= fun closed => ctx.scan closed rest := by
  match mode, hmode with
  | .delay body, _ => rfl
  | .arg name none, _ =>
    rw [scan.eq_def]
    rfl
  | .arg name (some value), _ => rfl
  | .combo tokens token, _ => rfl

/-- Once a part is closed there is text again, and what goes on from there need only agree on
text. -/
theorem close_bind_congr {α : Type} (mode : Mode) (hs : s.mode = .text) {f g : Scan → Reading α}
    (hfg : ∀ closed : Scan, closed.mode = .text → f closed = g closed) :
    ctx.close s mode >>= f = ctx.close s mode >>= g := by
  have hadded : ∀ part, f (s.added part) = g (s.added part) := fun _ => hfg _ rfl
  have hliteral : ∀ t, f (s.literal t) = g (s.literal t) := fun _ => hfg _ rfl
  cases mode with
  | text => simp [close, hfg s hs]
  | delay body =>
    simp only [close, closeDelay]
    split
    · rfl
    · split
      · rfl
      · simp [hadded]
  | arg name default =>
    cases default <;> simp only [close, closeArg] <;> split <;> simp [hadded, hliteral]
  | combo tokens token =>
    simp only [close]
    unfold closeCombo
    split <;> simp [hadded, hliteral]

/-- The end of the line closes an open part after a diagnostic. -/
theorem scan_open_nil (mode : Mode) (hs : s.mode = .text) :
    ctx.scan (s.opened mode) [] =
      ctx.noteOpen mode >>= fun _ => ctx.close s mode >>= fun closed => ctx.scan closed [] := by
  have hnil : ∀ closed : Scan, closed.mode = .text → ctx.scan closed [] = pure closed.flushed :=
    fun closed h => by
      show ctx.finish closed = _
      rw [finish, h]
  rw [close_bind_congr ctx s mode hs hnil]
  cases mode <;> rfl

/-! ## Text -/

/-- In text a character that starts no opener is literal. -/
theorem scan_text_cons (hs : s.mode = .text) {c : Char} {rest : Text}
    (hnone : opening? (c :: rest) = none) :
    ctx.scan s (c :: rest) = ctx.scan (s.literal [c]) rest := by
  rw [scan.eq_def]
  simp only [hs]
  split
  · subst c
    split <;> simp_all [opening?]
  · rfl

/-- The mode in which the body of a part is scanned. -/
def Opening.mode : Opening → Mode
  | .delay => .delay []
  | .arg => .arg [] none
  | .combo => .combo [] []
  | .list => .text

/-- In text an opener opens a part, unless it opens a list. -/
theorem scan_opening (hs : s.mode = .text) {t rest : Text} {opening : Opening}
    (h : opening? t = some (opening, rest)) :
    ctx.scan s t =
      if opening = .list then ctx.fail .argumentList
      else ctx.scan (s.opened opening.mode) rest := by
  unfold opening? at h
  split at h <;> simp_all <;>
    obtain ⟨rfl, rfl⟩ := h <;> rw [scan.eq_def] <;> simp [hs, Opening.mode]

/-- In text the scan goes on to the first opener. -/
theorem scan_text (t : Text) (hs : s.mode = .text) :
    ctx.scan s t =
      match (textRun t).2 with
      | none => pure (s.literal (textRun t).1).flushed
      | some (opening, rest) =>
        if opening = .list then ctx.fail .argumentList
        else ctx.scan ((s.literal (textRun t).1).opened opening.mode) rest := by
  induction t generalizing s with
  | nil => simp [textRun, Scan.literal, Scan.flushed, scan, finish, hs]
  | cons c t ih =>
    unfold textRun
    cases hopen : opening? (c :: t) with
    | some found =>
      rw [scan_opening ctx s hs hopen]
      simp [Scan.literal, Scan.opened]
    | none =>
      rw [scan_text_cons ctx s hs hopen, ih (s.literal [c]) rfl]
      simp [Scan.literal]

end

/-! ## Segments -/

namespace LineContext

/-- Reads a segment. -/
def readSegment (ctx : LineContext) (s : Scan) : Segment → Reading Scan
  | .text content => return s.literal content
  | .part .list _ _ => ctx.fail .argumentList
  | .part opening body closed => do
    if !closed then ctx.noteOpen (opening.mode.fed body)
    ctx.close s (opening.mode.fed body)

/-- Reads segments in order. -/
def readSegments (ctx : LineContext) (s : Scan) : List Segment → Reading Line
  | [] => return s.flushed
  | segment :: rest => do ctx.readSegments (← ctx.readSegment s segment) rest

end LineContext

theorem readSegment_part (ctx : LineContext) (s : Scan) {opening : Opening}
    (hlist : opening ≠ .list) (body : Text) (closed : Bool) :
    ctx.readSegment s (.part opening body closed) = (do
      if !closed then ctx.noteOpen (opening.mode.fed body)
      ctx.close s (opening.mode.fed body)) := by
  match opening, hlist with
  | .delay, _ => rfl
  | .arg, _ => rfl
  | .combo, _ => rfl

/-- The body of an opened part is read in one step. -/
theorem scan_opened (ctx : LineContext) (s : Scan) (hs : s.mode = .text) {opening : Opening}
    (hlist : opening ≠ .list) (t : Text) {f : Scan → Reading Line}
    (hf : ∀ read : Scan, read.mode = .text → ctx.scan read (afterBody t) = f read) :
    ctx.scan (s.opened opening.mode) t =
      ctx.readSegment s (.part opening (bodyOf t) (t.contains '$')) >>= f := by
  have hmode : opening.mode ≠ .text := by cases opening <;> simp_all [Opening.mode]
  have hfed : opening.mode.fed (bodyOf t) ≠ .text := by
    cases opening <;> simp_all [Opening.mode, Mode.fed]
  have hclose := close_bind_congr ctx s (opening.mode.fed (bodyOf t)) hs hf
  rw [readSegment_part ctx s hlist]
  by_cases h : '$' ∈ t
  · conv => lhs; rw [← bodyOf_append_afterBody h]
    rw [scan_append ctx s (not_mem_bodyOf t) (by simp) hmode, scan_dollar ctx s hfed, hclose]
    simp [h]
  · conv => lhs; rw [← bodyOf_eq_self h, ← List.append_nil (bodyOf t)]
    rw [afterBody_eq_nil h] at hclose
    rw [scan_append ctx s (not_mem_bodyOf t) (by simp) hmode, scan_open_nil ctx s _ hs, hclose]
    simp [h]

/-- A scan reads segment by segment. -/
theorem scan_eq_readSegments (ctx : LineContext) (s : Scan) (hs : s.mode = .text) (t : Text) :
    ctx.scan s t = ctx.readSegments s (segments t) := by
  fun_induction segments t generalizing s with
  | case1 t hnone =>
    rw [scan_text ctx s t hs, hnone]
    rfl
  | case2 t opening rest hsome ih =>
    rw [scan_text ctx s t hs, hsome]
    by_cases hlist : opening = .list
    · subst hlist
      rfl
    · simp only [hlist, if_false, readSegments, readSegment.eq_1, pure_bind]
      exact scan_opened ctx (s.literal (textRun t).1) rfl hlist rest ih

end Typist
