import Mathlib.Tactic.Common
import Typist.Proofs.Snippet.Normal
import Typist.Proofs.Snippet.Reading
import Typist.Proofs.Text.Numeral
import Typist.Snippet.Render

/-!
# Reading undoes writing

A part is written without regard to its neighbours, and read with a scan that looks one character
ahead. What is written for a part is read as that part all the same, whatever comes after it, with
one condition : what follows a text must start with a `$` if it is not the end, so that a `$` at the
end of the text stays literal. In a line in normal form that is so, since what follows a text is
another part.

`readLine_of_render` puts the parts together : reading what is written for a line in normal form
gives the line back and leaves defaults and diagnostics alone.
-/

namespace Typist

open LineContext

/-! ## Openers -/

theorem head?_escaped (t : Text) : (escaped t).head? = t.head? := by
  fun_cases escaped t <;> rfl

theorem opening?_cons_eq_none {c : Char} {t : Text}
    (h : c = '$' → ∀ d ∈ ['\'', '@', '!', '['], t.head? ≠ some d) : opening? (c :: t) = none := by
  unfold opening?
  split <;> simp_all

/-- The characters that open a part. -/
def Opening.opener : Opening → Text
  | .delay => ['$', '\'']
  | .arg => ['$', '@']
  | .combo => ['$', '!']
  | .list => ['$', '[']

theorem opening?_opener (opening : Opening) (rest : Text) :
    opening? (opening.opener ++ rest) = some (opening, rest) := by
  cases opening <;> rfl

/-- A part between its opener and a `$` is read on its own. -/
theorem scan_opener (ctx : LineContext) {s : Scan} (hs : s.mode = .text) {opening : Opening}
    (hlist : opening ≠ .list) {body : Text} (hbody : '$' ∉ body) (rest : Text) :
    ctx.scan s (opening.opener ++ (body ++ '$' :: rest)) =
      ctx.close s (opening.mode.fed body) >>= fun closed => ctx.scan closed rest := by
  have hmode : opening.mode ≠ .text := by
    cases opening <;> simp_all [Opening.mode]
  have hfed : opening.mode.fed body ≠ .text := by
    cases opening <;> simp_all [Opening.mode, Mode.fed]
  rw [scan_opening ctx s hs (opening?_opener opening _), if_neg hlist,
    scan_append ctx s hbody (by simp) hmode, scan_dollar ctx s hfed]

/-! ## Text -/

/-- What is written after a text leaves a `$` at the end of the text literal. -/
def Follows (rest : Text) : Prop :=
  ∀ c, rest.head? = some c → c = '$'

theorem opening?_escaped {t rest : Text} (harg : t.head? ≠ some '@') (hcombo : t.head? ≠ some '!')
    (hdelay : t.head? ≠ some '\'') (hlist : t.head? ≠ some '[') (hrest : Follows rest) :
    opening? ('$' :: (escaped t ++ rest)) = none := by
  refine opening?_cons_eq_none ?_
  intro _ d hd hhead
  rw [List.head?_append, head?_escaped] at hhead
  cases ht : t.head? with
  | none =>
    rw [ht, Option.none_or] at hhead
    rw [hrest d hhead] at hd
    simp at hd
  | some e =>
    obtain rfl : e = d := by simpa [ht] using hhead
    simp only [ht, ne_eq, Option.some.injEq] at harg hcombo hdelay hlist
    simp [harg, hcombo, hdelay, hlist] at hd

/-- Written text is read as the text. -/
theorem scan_escaped (ctx : LineContext) {s : Scan} (hs : s.mode = .text) {content rest : Text}
    (hdelay : Text.holds ['$', '\''] content = false)
    (hlist : Text.holds ['$', '['] content = false) (hrest : Follows rest) :
    ctx.scan s (escaped content ++ rest) = ctx.scan (s.literal content) rest := by
  fun_induction escaped content generalizing s with
  | case1 t ih =>
    have ht := (holds_cons_iff.mp (holds_cons_iff.mp hdelay).2).2
    have ht' := (holds_cons_iff.mp (holds_cons_iff.mp hlist).2).2
    show ctx.scan s (Opening.arg.opener ++ ([] ++ '$' :: (escaped t ++ rest))) = _
    rw [scan_opener ctx hs (by simp) (by simp)]
    show ctx.scan (s.literal ['$', '@']) (escaped t ++ rest) = _
    rw [ih rfl ht ht']
    simp [Scan.literal]
  | case2 t ih =>
    have ht := (holds_cons_iff.mp (holds_cons_iff.mp hdelay).2).2
    have ht' := (holds_cons_iff.mp (holds_cons_iff.mp hlist).2).2
    show ctx.scan s (Opening.combo.opener ++ ([] ++ '$' :: (escaped t ++ rest))) = _
    rw [scan_opener ctx hs (by simp) (by simp)]
    show ctx.scan (s.literal ['$', '!']) (escaped t ++ rest) = _
    rw [ih rfl ht ht']
    simp [Scan.literal]
  | case3 c t harg hcombo ih =>
    have ht := (holds_cons_iff.mp hdelay).2
    have ht' := (holds_cons_iff.mp hlist).2
    have hnone : opening? (c :: (escaped t ++ rest)) = none := by
      by_cases hc : c = '$'
      · subst hc
        refine opening?_escaped ?_ ?_ ((holds_cons_iff.mp hdelay).1 rfl)
          ((holds_cons_iff.mp hlist).1 rfl) hrest
        · intro h
          obtain ⟨u, rfl⟩ := List.head?_eq_some_iff.mp h
          exact harg u rfl rfl
        · intro h
          obtain ⟨u, rfl⟩ := List.head?_eq_some_iff.mp h
          exact hcombo u rfl rfl
      · exact opening?_cons_eq_none fun h => absurd h hc
    rw [List.cons_append, scan_text_cons ctx s hs hnone, ih rfl ht ht']
    simp [Scan.literal]
  | case4 => simp [Scan.literal, ← hs]

/-! ## Other parts -/

theorem splitDefault_eq_self {name : Text} (h : Text.holds [':', ':'] name = false) :
    splitDefault name = (name, none) := by
  fun_induction splitDefault name with
  | case1 rest => simp [Text.holds] at h
  | case2 c rest _ ih => rw [ih (holds_cons_iff.mp h).2]
  | case3 => rfl

/-- The first `::` after a name is the one that is written there. -/
theorem splitDefault_colons {name : Text} (hcolons : Text.holds [':', ':'] name = false)
    (hlast : name.getLast? ≠ some ':') (value : Text) :
    splitDefault (name ++ ':' :: ':' :: value) = (name, some value) := by
  induction name with
  | nil => rfl
  | cons c name ih =>
    obtain ⟨hhead, hrest⟩ := holds_cons_iff.mp hcolons
    have hfirst : ∀ rest, c = ':' → name ++ ':' :: ':' :: value = ':' :: rest → False := by
      rintro rest rfl heq
      cases name with
      | nil => exact hlast rfl
      | cons d name =>
        obtain ⟨rfl, -⟩ := List.cons.inj heq
        exact hhead rfl rfl
    have hlast : name.getLast? ≠ some ':' := by
      cases name with
      | nil => simp
      | cons d name => rwa [List.getLast?_cons_cons] at hlast
    rw [List.cons_append, splitDefault.eq_2 c _ hfirst, ih hrest hlast]

theorem comboTokens_of_isToken {t : Text} (h : IsToken t) : comboTokens t = [t] := by
  obtain ⟨hnil, -, hsep⟩ := h
  rw [comboTokens, List.splitOnP_eq_singleton hsep]
  simp [hnil]

theorem comboTokens_joined : ∀ {tokens : List Text}, (∀ t ∈ tokens, IsToken t) →
    comboTokens (Text.joined ['+'] tokens) = tokens
  | [], _ => comboTokens_nil
  | [t], h => comboTokens_of_isToken (h t (by simp))
  | t :: u :: tokens, h => by
    have ih := comboTokens_joined fun v hv => h v (List.mem_cons_of_mem t hv)
    have hjoined :
        Text.joined ['+'] (t :: u :: tokens) = t ++ '+' :: Text.joined ['+'] (u :: tokens) := by
      simp [Text.joined]
    rw [hjoined, comboTokens_append_cons t _ (by decide), comboTokens_of_isToken (h t (by simp)),
      ih, List.singleton_append]

theorem not_mem_joined : ∀ {tokens : List Text}, (∀ t ∈ tokens, IsToken t) →
    '$' ∉ Text.joined ['+'] tokens
  | [], _ => by simp [Text.joined]
  | [t], h => (h t (by simp)).2.1
  | t :: u :: tokens, h => by
    have ih := not_mem_joined fun v hv => h v (List.mem_cons_of_mem t hv)
    simp [Text.joined, (h t (by simp)).2.1, ih]

/-- The names of keys that a combo can name are tokens, and they are looked up as the keys. -/
theorem keyNames_of_isTypable : ∀ {keys : List Key}, (∀ key ∈ keys, key.IsTypable) →
    ∃ names, keyNames keys = .ok names ∧ (∀ t ∈ names, IsToken t) ∧
      namedKeysOf Key.standardLookup names = .ok keys
  | [], _ => ⟨[], rfl, by simp, rfl⟩
  | key :: keys, h => by
    obtain ⟨names, hnames, htokens, hlookup⟩ :=
      keyNames_of_isTypable fun k hk => h k (List.mem_cons_of_mem key hk)
    obtain ⟨name, hname, htoken, hkey⟩ : ∃ name : Text, key.name? = some (.ofText name) ∧
        IsToken name ∧ Key.standardLookup name = some key := by
      match key, h key (by simp) with
      | .code c, _ => exact name?_code c
      | .char _, ⟨c, rfl, hblank⟩ => exact name?_char hblank
    refine ⟨name :: names, ?_, ?_, ?_⟩
    · rw [keyNames, hname, hnames]
      simp [Except.map, CodePoints.text_ofText]
    · simpa using ⟨htoken, htokens⟩
    · rw [namedKeysOf, hkey, hlookup]
      rfl

/-- The names of the arguments of a line, as often as they are used. -/
def Line.argNames (line : Line) : List Text :=
  line.filterMap Part.argName?

/-- Declares defaults one after the other. -/
def LineContext.declareAll (ctx : LineContext) : List (Text × Text) → Reading Unit
  | [] => return ()
  | (name, value) :: rest => do
    ctx.declare name value
    ctx.declareAll rest

theorem declareAll_append (ctx : LineContext) (ds ds' : List (Text × Text)) :
    ctx.declareAll (ds ++ ds') = ctx.declareAll ds >>= fun _ => ctx.declareAll ds' := by
  induction ds with
  | nil => rfl
  | cons d ds ih => rw [List.cons_append, declareAll, declareAll, ih, bind_assoc]

section

variable {ctx : LineContext} {s : Scan} (hs : s.mode = .text)

include hs

theorem scan_delay {n : Nat} (hlen : (Text.ofNat n).length ≤ digitLimit) (rest : Text) :
    ctx.scan s (['$', '\''] ++ Text.ofNat n ++ ['$'] ++ rest) =
      ctx.scan (s.added (.delay n)) rest := by
  have hbody : '$' ∉ Text.ofNat n := fun h => by simpa using Text.isDigit_of_mem_ofNat h
  have hnil : Text.ofNat n ≠ [] := Text.ofNat_ne_nil n
  have hall : (Text.ofNat n).all Char.isDigit = true :=
    List.all_eq_true.mpr fun _ => Text.isDigit_of_mem_ofNat
  have hvalue : (Text.ofNat n).value = n := Text.value_ofNat n
  have hclose : ctx.close s (Opening.delay.mode.fed (Text.ofNat n)) =
      pure (s.added (.delay n)) := by
    show ctx.closeDelay s (Text.ofNat n) = _
    rw [closeDelay, if_neg (by simp [hnil, hall]), if_neg (by omega), hvalue]
  have hscan := scan_opener ctx hs (Opening.noConfusion : Opening.delay ≠ .list) hbody rest
  rw [hclose, pure_bind] at hscan
  simpa [Opening.opener] using hscan

theorem scan_argument {body : Text} (hbody : '$' ∉ body) (rest : Text) :
    ctx.scan s (['$', '@'] ++ body ++ ['$'] ++ rest) =
      ctx.closeArg s (splitDefault body).1 (splitDefault body).2 >>= fun closed =>
        ctx.scan closed rest := by
  have hscan := scan_opener ctx hs (Opening.noConfusion : Opening.arg ≠ .list) hbody rest
  simpa [Opening.opener, Opening.mode, Mode.fed, close] using hscan

theorem scan_arg {name : Text} (hnil : name ≠ []) (hdollar : '$' ∉ name)
    (hcolons : Text.holds [':', ':'] name = false) (rest : Text) :
    ctx.scan s (['$', '@'] ++ name ++ ['$'] ++ rest) = ctx.scan (s.added (.arg name)) rest := by
  rw [scan_argument hs hdollar, splitDefault_eq_self hcolons, closeArg, if_neg hnil, pure_bind]

theorem scan_default {name value : Text} (hnil : name ≠ []) (hdollar : '$' ∉ name)
    (hcolons : Text.holds [':', ':'] name = false) (hlast : name.getLast? ≠ some ':')
    (hvalue : '$' ∉ value) (rest : Text) :
    ctx.scan s (['$', '@'] ++ name ++ [':', ':'] ++ value ++ ['$'] ++ rest) =
      ctx.declare name value >>= fun _ => ctx.scan (s.added (.arg name)) rest := by
  have hbody : '$' ∉ name ++ ':' :: ':' :: value := by simp [hdollar, hvalue]
  have hscan : ctx.scan s _ = _ := scan_argument hs hbody rest
  rw [splitDefault_colons hcolons hlast, closeArg, if_neg hnil, bind_assoc] at hscan
  simpa using hscan

/-- A combo between its opener and a `$` is closed with the tokens of what stands there. -/
theorem scan_tokens {body : Text} (hbody : '$' ∉ body) (rest : Text) :
    ctx.scan s (['$', '!'] ++ body ++ ['$'] ++ rest) =
      ctx.closeCombo s (comboTokens body) >>= fun closed => ctx.scan closed rest := by
  have hscan := scan_opener ctx hs (Opening.noConfusion : Opening.combo ≠ .list) hbody rest
  rw [← endToken_feedTokens_nil]
  simpa [Opening.opener, Opening.mode, Mode.fed, close] using hscan

theorem scan_combo {names : List Text} {keys : List Key} (hkeys : keys ≠ [])
    (hnames : ∀ t ∈ names, IsToken t) (hlookup : namedKeysOf ctx.lookup names = .ok keys)
    (rest : Text) :
    ctx.scan s (['$', '!'] ++ Text.joined ['+'] names ++ ['$'] ++ rest) =
      ctx.scan (s.added (.combo keys)) rest := by
  have hclose : ctx.closeCombo s (comboTokens (Text.joined ['+'] names)) =
      pure (s.added (.combo keys)) := by
    have hne : names ≠ [] := by
      rintro rfl
      cases hlookup
      exact hkeys rfl
    have hmeaning : (Segment.part .combo (Text.joined ['+'] names) true).meaning ctx.lookup =
        .ok (.combo keys) := by
      rw [Segment.meaning, comboTokens_joined hnames, if_neg hne, hlookup]
      rfl
    funext σ
    exact (closeCombo_run ctx s _ true σ).trans (by rw [hmeaning]; rfl)
  rw [scan_tokens hs (not_mem_joined hnames), hclose, pure_bind]

/-- What is written for a part in normal form is read as the part, whatever comes before, and
declares the default that is written with it. -/
theorem scan_render (hlookup : ctx.lookup = Key.standardLookup) {part : Part}
    (hnormal : part.IsNormal) (htypable : Line.IsTypable [part]) {defaults : Mapping Text Text}
    {t rest : Text} (hrender : part.render defaults = .ok t)
    (hrest : part.isText = true → Follows rest) :
    ctx.scan s (t ++ rest) =
      ctx.declareAll (defaults.entriesOf part.argName?.toList) >>= fun _ =>
        ctx.scan (s.absorb part) rest := by
  cases part with
  | text content =>
    obtain ⟨-, hdelay, hlist⟩ := hnormal
    simp only [Part.render, hdelay, hlist] at hrender
    cases hrender
    exact scan_escaped ctx hs hdelay hlist (hrest rfl)
  | delay milliseconds =>
    obtain ⟨n, rfl⟩ := Int.eq_ofNat_of_zero_le hnormal
    cases hlimit : exceedsDigitLimit n with
    | true => simp [Part.render, hlimit] at hrender
    | false =>
      have hint : Text.ofInt n = Text.ofNat n := rfl
      have ht : t = ['$', '\''] ++ Text.ofNat n ++ ['$'] := by
        simpa [Part.render, hlimit, hint, eq_comm] using hrender
      have hlen : (Text.ofNat n).length ≤ digitLimit := by
        rw [← Bool.not_eq_true, Text.exceedsDigitLimit_iff] at hlimit
        exact Nat.le_of_not_lt hlimit
      rw [ht, scan_delay hs hlen]
      rfl
  | arg name =>
    obtain ⟨hnil, hdollar, hcolons⟩ := hnormal
    rw [Part.render, renderArg.eq_def, if_neg (by simp [hnil, hdollar, hcolons])] at hrender
    cases hdefault : defaults.get? name with
    | none =>
      have hentries : defaults.entriesOf (Part.arg name).argName?.toList = [] := by
        simp [Part.argName?, Mapping.entriesOf, hdefault]
      rw [hdefault] at hrender
      cases hrender
      rw [scan_arg hs hnil hdollar hcolons, hentries]
      rfl
    | some value =>
      have hentries : defaults.entriesOf (Part.arg name).argName?.toList = [(name, value)] := by
        simp [Part.argName?, Mapping.entriesOf, hdefault]
      rw [hdefault] at hrender
      simp only at hrender
      split at hrender
      · cases hrender
      · next hwritable =>
        obtain ⟨hlast, hvalue⟩ : name.getLast? ≠ some ':' ∧ '$' ∉ value := by simpa using hwritable
        cases hrender
        rw [scan_default hs hnil hdollar hcolons hlast hvalue, hentries, declareAll,
          declareAll, bind_assoc, pure_bind]
        rfl
  | combo keys =>
    obtain ⟨names, hnames, htokens, hkeys⟩ := keyNames_of_isTypable (htypable keys (by simp))
    rw [Part.render, hnames] at hrender
    cases hrender
    exact scan_combo hs hnormal htokens (by rw [hlookup, hkeys]) rest

end

/-! ## Lines -/

theorem render_text {content : Text} (h : (Part.text content).IsNormal)
    (defaults : Mapping Text Text) :
    (Part.text content).render defaults = .ok (escaped content) := by
  rw [Part.render, h.2.1, h.2.2]
  rfl

/-- What is written for a part other than text starts and ends with a `$`. -/
theorem render_eq_dollars {defaults : Mapping Text Text} {part : Part} (hpart : part.isText = false)
    {t : Text} (h : part.render defaults = .ok t) : ∃ u, t = '$' :: (u ++ ['$']) := by
  cases part with
  | text content => simp [Part.isText] at hpart
  | delay milliseconds =>
    rw [Part.render] at h
    split at h
    · cases h
    · cases h
      exact ⟨'\'' :: Text.ofInt milliseconds, by simp⟩
  | arg name =>
    rw [Part.render, renderArg.eq_def] at h
    split at h
    · cases h
    · split at h
      · cases h
        exact ⟨'@' :: name, by simp⟩
      · next value _ =>
        split at h
        · cases h
        · cases h
          exact ⟨'@' :: (name ++ ':' :: ':' :: value), by simp⟩
  | combo keys =>
    rw [Part.render] at h
    obtain ⟨names, -, rfl⟩ := map_eq_ok_iff.mp h
    exact ⟨'!' :: Text.joined ['+'] names, by simp⟩

theorem follows_of_render {defaults : Mapping Text Text} {part : Part} (hpart : part.isText = false)
    {t : Text} (h : part.render defaults = .ok t) (rest : Text) : Follows (t ++ rest) := by
  obtain ⟨u, rfl⟩ := render_eq_dollars hpart h
  intro c hc
  simpa using hc.symm

theorem render_cons {defaults : Mapping Text Text} {part : Part} {line : Line} {r : Text} :
    Line.render defaults (part :: line) = .ok r ↔
      ∃ t u, part.render defaults = .ok t ∧ Line.render defaults line = .ok u ∧ r = t ++ u := by
  rw [Line.render, List.map_cons]
  cases part.render defaults with
  | error e => simp [renderedLine]
  | ok t =>
    rw [renderedLine, ← Line.render]
    cases Line.render defaults line <;> simp [Except.map, eq_comm]

theorem render_append {defaults : Mapping Text Text} {line line' : Line} {r : Text} :
    Line.render defaults (line ++ line') = .ok r ↔
      ∃ t u, Line.render defaults line = .ok t ∧ Line.render defaults line' = .ok u ∧
        r = t ++ u := by
  induction line generalizing r with
  | nil =>
    have hnil : Line.render defaults [] = .ok [] := rfl
    simp [hnil]
  | cons part line ih =>
    rw [List.cons_append, render_cons]
    constructor
    · rintro ⟨t, _, ht, hrest, rfl⟩
      obtain ⟨u, v, hu, hv, rfl⟩ := ih.mp hrest
      exact ⟨t ++ u, v, render_cons.mpr ⟨t, u, ht, hu, rfl⟩, hv, (List.append_assoc ..).symm⟩
    · rintro ⟨_, v, hline, hv, rfl⟩
      obtain ⟨t, u, ht, hu, rfl⟩ := render_cons.mp hline
      exact ⟨t, u ++ v, ht, ih.mpr ⟨u, v, hu, hv, rfl⟩, List.append_assoc ..⟩

/-- A line is not written only if one of its parts is not. -/
theorem render_eq_error {defaults : Mapping Text Text} {e : RenderError} :
    ∀ {line : Line}, Line.render defaults line = .error e →
      ∃ part ∈ line, part.render defaults = .error e
  | [], h => by cases h
  | part :: line, h => by
    rw [Line.render, List.map_cons] at h
    cases hpart : part.render defaults with
    | error e' =>
      rw [hpart, renderedLine] at h
      cases h
      exact ⟨part, by simp, hpart⟩
    | ok t =>
      rw [hpart, renderedLine, ← Line.render] at h
      obtain ⟨p, hp, hrender⟩ := render_eq_error (map_eq_error_iff.mp h)
      exact ⟨p, List.mem_cons_of_mem part hp, hrender⟩

/-- A line is written only if its parts are. -/
theorem part_render_of_mem {defaults : Mapping Text Text} {line : Line} {r : Text}
    (h : Line.render defaults line = .ok r) {part : Part} (hpart : part ∈ line) :
    ∃ t, part.render defaults = .ok t := by
  obtain ⟨before, after, rfl⟩ := List.append_of_mem hpart
  obtain ⟨-, u, -, hu, -⟩ := render_append.mp h
  obtain ⟨t, -, ht, -, -⟩ := render_cons.mp hu
  exact ⟨t, ht⟩

/-- A scan of what is written for a line goes through its parts, and declares the defaults that are
written with them. -/
theorem scan_line_declaring {ctx : LineContext} (hlookup : ctx.lookup = Key.standardLookup)
    {defaults : Mapping Text Text} :
    ∀ {line : Line}, Line.IsNormal line → Line.IsTypable line →
      ∀ {r : Text}, Line.render defaults line = .ok r → ∀ {s : Scan}, s.mode = .text →
        ctx.scan s r =
          ctx.declareAll (defaults.entriesOf line.argNames) >>= fun _ => pure (s.completed line)
  | [], _, _, r, hr, s, hs => by
    cases hr
    rw [Scan.completed_nil, scan, finish, hs]
    rfl
  | part :: line, hnormal, htypable, r, hr, s, hs => by
    obtain ⟨t, u, ht, hu, rfl⟩ := render_cons.mp hr
    have hfollows : part.isText = true → Follows u := by
      intro hpart
      cases part with
      | text content =>
        cases line with
        | nil =>
          cases hu
          simp [Follows]
        | cons next line =>
          obtain ⟨v, w, hv, -, rfl⟩ := render_cons.mp hu
          exact follows_of_render hnormal.next hv w
      | delay | arg | combo => simp [Part.isText] at hpart
    have hmode : (s.absorb part).mode = .text := by cases part <;> rfl
    obtain ⟨hpart, hline⟩ := Line.isTypable_cons.mp htypable
    have hnames : Line.argNames (part :: line) = part.argName?.toList ++ Line.argNames line := by
      cases part <;> rfl
    rw [scan_render hs hlookup (hnormal.parts part (by simp)) hpart ht hfollows,
      scan_line_declaring hlookup hnormal.tail hline hu hmode, Scan.completed_absorb, hnames,
      Mapping.entriesOf_append, declareAll_append, bind_assoc]

/-- A scan of what is written for a line without defaults gives the line. -/
theorem scan_line {ctx : LineContext} (hlookup : ctx.lookup = Key.standardLookup) {line : Line}
    (hnormal : Line.IsNormal line) (htypable : Line.IsTypable line) {r : Text}
    (hr : Line.render ∅ line = .ok r) {s : Scan} (hs : s.mode = .text) :
    ctx.scan s r = pure (s.completed line) := by
  rw [scan_line_declaring hlookup hnormal htypable hr hs, Mapping.entriesOf_empty]
  rfl

/-- Reading what is written for a line declares the defaults that are written with it, and adds the
line. -/
theorem readLine_rendered {line : Line} (hnormal : Line.IsNormal line)
    (htypable : Line.IsTypable line) {defaults : Mapping Text Text} {r : Text}
    (hr : Line.render defaults line = .ok r) (number : Int) :
    (⟨Key.standardLookup, number⟩ : LineContext).readLine r = do
      (⟨Key.standardLookup, number⟩ : LineContext).declareAll (defaults.entriesOf line.argNames)
      modify fun s => { s with lines := s.lines ++ [line] }
      return line := by
  have hline : Scan.completed {} line = line := by
    rw [Scan.completed, consText_nil, merged_eq_self hnormal]
    rfl
  rw [readLine, scan_line_declaring rfl hnormal htypable hr rfl, hline, bind_assoc]
  rfl

/-- Key names fail at a key that has none. -/
theorem exists_of_keyNames_eq_error {keys : List Key} {e : RenderError}
    (h : keyNames keys = .error e) : ∃ key ∈ keys, key.name? = none ∧ e = .unnamedKey key := by
  induction keys with
  | nil => cases h
  | cons key keys ih =>
    rw [keyNames] at h
    cases hname : key.name? with
    | none =>
      rw [hname] at h
      cases h
      exact ⟨key, List.mem_cons_self .., hname, rfl⟩
    | some name =>
      rw [hname] at h
      obtain ⟨key', hkey', hnone, he⟩ := ih (map_eq_error_iff.mp h)
      exact ⟨key', List.mem_cons_of_mem _ hkey', hnone, he⟩

/-- The keys whose names are written have names. -/
theorem name?_ne_none_of_keyNames {keys : List Key} {names : List Text}
    (h : keyNames keys = .ok names) {key : Key} (hkey : key ∈ keys) : key.name? ≠ none := by
  induction keys generalizing names with
  | nil => cases hkey
  | cons first keys ih =>
    rw [keyNames] at h
    cases hname : first.name? with
    | none => simp [hname] at h
    | some name =>
      rw [hname] at h
      obtain ⟨rest, hrest, -⟩ := map_eq_ok_iff.mp h
      rcases List.mem_cons.mp hkey with rfl | hkey
      · simp [hname]
      · exact ih hrest hkey

/-- A part in normal form is not written only if it is a delay of too many digits or a combo with a
key that has no name. -/
theorem part_render_eq_error {defaults : Mapping Text Text} {part : Part} (hnormal : part.IsNormal)
    (hdefaults : ∀ name value, part = .arg name → defaults.get? name = some value →
      IsWritableDefault name value) {e : RenderError} (h : part.render defaults = .error e) :
    (e = .numberTooLong ∧ ∃ milliseconds, part = .delay milliseconds ∧
      exceedsDigitLimit milliseconds = true) ∨
      ∃ keys key, part = .combo keys ∧ key ∈ keys ∧ key.name? = none ∧ e = .unnamedKey key := by
  cases part with
  | text content =>
    obtain ⟨-, hdelay, hlist⟩ := hnormal
    simp [Part.render, hdelay, hlist] at h
  | delay milliseconds =>
    rw [Part.render] at h
    split at h
    · next hlimit =>
      cases h
      exact .inl ⟨rfl, milliseconds, rfl, hlimit⟩
    · cases h
  | arg name =>
    obtain ⟨hnil, hdollar, hcolons⟩ := hnormal
    rw [Part.render, renderArg.eq_def, if_neg (by simp [hnil, hdollar, hcolons])] at h
    cases hdefault : defaults.get? name with
    | none =>
      rw [hdefault] at h
      cases h
    | some value =>
      obtain ⟨-, hlast, hvalue⟩ := hdefaults name value rfl hdefault
      simp [hdefault, hlast, hvalue] at h
  | combo keys =>
    rw [Part.render] at h
    obtain ⟨key, hkey, hnone, he⟩ := exists_of_keyNames_eq_error (map_eq_error_iff.mp h)
    exact .inr ⟨keys, key, rfl, hkey, hnone, he⟩

/-- A key that a combo can name has a name. -/
theorem name?_ne_none_of_isTypable {key : Key} (h : key.IsTypable) : key.name? ≠ none := by
  match key, h with
  | .code c, _ =>
    obtain ⟨name, hname, -⟩ := name?_code c
    simp [hname]
  | .char _, ⟨c, rfl, hblank⟩ =>
    obtain ⟨name, hname, -⟩ := name?_char hblank
    simp [hname]

/-- A part in normal form that combos can name is not written only if it is a delay of too many
digits. -/
theorem render_eq_error_of_isNormal {part : Part} (hnormal : part.IsNormal)
    (htypable : Line.IsTypable [part]) {e : RenderError} (h : part.render ∅ = .error e) :
    e = .numberTooLong ∧ ∃ milliseconds, part = .delay milliseconds ∧
      exceedsDigitLimit milliseconds = true := by
  have hnone : ∀ name, (∅ : Mapping Text Text).get? name = none := fun _ => rfl
  rcases part_render_eq_error hnormal (by simp [hnone]) h with
    hlong | ⟨keys, key, rfl, hkey, hname, -⟩
  · exact hlong
  · exact absurd hname (name?_ne_none_of_isTypable (htypable keys (by simp) key hkey))

/-- What is written for a line in normal form whose combos can be named is read as the line, with no
default declared and no diagnostic recorded. Only a delay of too many digits keeps such a line from
being written. -/
theorem readLine_of_render {line : Line} (hnormal : Line.IsNormal line)
    (htypable : Line.IsTypable line) :
    (∀ r, Line.render ∅ line = .ok r → ∀ (number : Int) (σ : Snippet),
      (⟨Key.standardLookup, number⟩ : LineContext).readLine r σ =
        .ok line { σ with lines := σ.lines ++ [line] }) ∧
    (∀ e, Line.render ∅ line = .error e →
      e = .numberTooLong ∧
        ∃ milliseconds, Part.delay milliseconds ∈ line ∧
          exceedsDigitLimit milliseconds = true) := by
  constructor
  · intro r hr number σ
    have hline : Scan.completed {} line = line := by
      rw [Scan.completed, consText_nil, merged_eq_self hnormal]
      rfl
    rw [readLine, scan_line rfl hnormal htypable hr rfl, hline, pure_bind]
    rfl
  · intro e he
    obtain ⟨part, hpart, hrender⟩ := render_eq_error he
    obtain ⟨rfl, milliseconds, rfl, hlimit⟩ :=
      render_eq_error_of_isNormal (hnormal.parts part hpart)
      (fun keys hkeys => htypable keys (List.mem_singleton.mp hkeys ▸ hpart)) hrender
    exact ⟨rfl, milliseconds, hpart, hlimit⟩

/-- A line in which every part ends or starts with a character that its neighbour could take for its
own. -/
def crowdedLine : Line :=
  [.text "a$@$!$$".toList, .delay 250, .arg "n:".toList,
    .combo [.char [.char '+'], .code .leftCtrl, .char [.char '$']], .text "$".toList]

theorem readLine_of_render_crowdedLine :
    Line.IsNormal crowdedLine ∧ Line.IsTypable crowdedLine ∧
      Line.render ∅ crowdedLine = .ok "a$@$$!$$$$'250$$@n:$$!plus+ctrl+dollar$$".toList ∧
      (⟨Key.standardLookup, 1⟩ : LineContext).readLine
        "a$@$$!$$$$'250$$@n:$$!plus+ctrl+dollar$$".toList {} =
          .ok crowdedLine { lines := [crowdedLine] } := by
  have hnormal : Line.IsNormal crowdedLine :=
    ⟨by simp [crowdedLine, Part.IsNormal]; decide, by simp [crowdedLine, Part.isText]⟩
  have htypable : Line.IsTypable crowdedLine := by
    simp [Line.IsTypable, crowdedLine, Key.IsTypable]
    decide
  have hrender :
      Line.render ∅ crowdedLine = .ok "a$@$$!$$$$'250$$@n:$$!plus+ctrl+dollar$$".toList := by
    decide +kernel
  exact ⟨hnormal, htypable, hrender, (readLine_of_render hnormal htypable).1 _ hrender 1 {}⟩

end Typist
