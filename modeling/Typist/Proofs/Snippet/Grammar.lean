import Mathlib.Data.List.TakeWhile
import Typist.Snippet.Tokenizer

/-!
# The grammar of a line

A line is a row of segments. Text runs up to the first opener, two characters of which the first is
`$`, and a `$` before anything else belongs to the text. What an opener opens has a body :
everything up to the next `$`, or up to the end of the line. After that `$` text begins again.

`segments` cuts a line so, and `Segment.meaning` gives the part that each segment stands for, or the
fault it is. Segments that stand for text lie side by side and may be empty; `Line.merged` makes one
part of each row of them. `reading` is what a line means : the merged meanings of its segments, or
the first fault from the left. `declared` are the defaults it declares, those up to the fault if
there is one.

Nothing here reads a line character by character. `readLine` does, and is shown to agree with
`reading`.
-/

namespace Typist

/-! ## Segments -/

/-- What an opener opens. -/
inductive Opening
  | delay | arg | combo
  /-- A list of arguments, which no line may have. -/
  | list
  deriving DecidableEq, Repr

/-- The opener at the start of the text, and what follows it. -/
def opening? : Text → Option (Opening × Text)
  | '$' :: '\'' :: rest => some (.delay, rest)
  | '$' :: '@' :: rest => some (.arg, rest)
  | '$' :: '!' :: rest => some (.combo, rest)
  | '$' :: '[' :: rest => some (.list, rest)
  | _ => none

/-- The text before the first opener, and that opener with what follows it. -/
def textRun : Text → Text × Option (Opening × Text)
  | [] => ([], none)
  | c :: rest =>
    match opening? (c :: rest) with
    | some found => ([], some found)
    | none => (c :: (textRun rest).1, (textRun rest).2)

/-- What is before the next `$`. -/
def bodyOf (t : Text) : Text :=
  t.takeWhile (· ≠ '$')

/-- What is after the next `$`. -/
def afterBody (t : Text) : Text :=
  (t.dropWhile (· ≠ '$')).tail

theorem not_mem_bodyOf (t : Text) : '$' ∉ bodyOf t := by
  intro h
  simpa using List.mem_takeWhile_imp h

theorem forall_ne_dollar {t : Text} (h : '$' ∉ t) : ∀ c ∈ t, decide (c ≠ '$') = true :=
  fun c hc => decide_eq_true fun he : c = '$' => h (he ▸ hc)

theorem bodyOf_append_cons {t : Text} (h : '$' ∉ t) (rest : Text) :
    bodyOf (t ++ '$' :: rest) = t := by
  rw [bodyOf, List.takeWhile_append_of_pos (forall_ne_dollar h),
    List.takeWhile_cons_of_neg (by simp), List.append_nil]

theorem afterBody_append_cons {t : Text} (h : '$' ∉ t) (rest : Text) :
    afterBody (t ++ '$' :: rest) = rest := by
  rw [afterBody, List.dropWhile_append_of_pos (forall_ne_dollar h),
    List.dropWhile_cons_of_neg (by simp), List.tail_cons]

theorem bodyOf_append_afterBody {t : Text} (h : '$' ∈ t) : bodyOf t ++ '$' :: afterBody t = t := by
  have hne : t.dropWhile (· ≠ '$') ≠ [] := by
    rw [Ne, List.dropWhile_eq_nil_iff]
    exact fun hall => by simpa using hall '$' h
  have hhead : (t.dropWhile (· ≠ '$')).head hne = '$' := by
    simpa using List.head_dropWhile_not (fun c => decide (c ≠ '$')) hne
  have hdrop : t.dropWhile (· ≠ '$') = '$' :: afterBody t := by
    rw [← List.cons_head_tail hne, hhead, afterBody]
  rw [← hdrop, bodyOf, List.takeWhile_append_dropWhile]

theorem bodyOf_eq_self {t : Text} (h : '$' ∉ t) : bodyOf t = t :=
  List.takeWhile_eq_self_iff.mpr (forall_ne_dollar h)

theorem afterBody_eq_nil {t : Text} (h : '$' ∉ t) : afterBody t = [] := by
  rw [afterBody, List.dropWhile_eq_nil_iff.mpr (forall_ne_dollar h), List.tail_nil]

/-- A segment of a line. -/
inductive Segment
  | text (content : Text)
  /-- What an opener opens, with its body. The end of the line may take the place of the closing
  `$`. -/
  | part (opening : Opening) (body : Text) (closed : Bool)
  deriving DecidableEq, Repr

theorem length_lt_of_opening? {t rest : Text} {opening : Opening}
    (h : opening? t = some (opening, rest)) : rest.length < t.length := by
  have hlength : ∀ {c d : Char} {u : Text}, u.length < (c :: d :: u).length := by
    intro c d u
    rw [List.length_cons, List.length_cons]
    omega
  unfold opening? at h
  split at h <;> cases h
  all_goals exact hlength

theorem length_lt_of_textRun {opening : Opening} {rest : Text} :
    ∀ {t : Text}, (textRun t).2 = some (opening, rest) → rest.length < t.length
  | [], h => by simp [textRun] at h
  | c :: t, h => by
    unfold textRun at h
    split at h
    · next found hfound =>
      obtain rfl : found = (opening, rest) := by simpa using h
      exact length_lt_of_opening? hfound
    · exact Nat.lt_trans (length_lt_of_textRun h) (by simp)

theorem length_afterBody_le (t : Text) : (afterBody t).length ≤ t.length := by
  rw [afterBody, List.length_tail]
  exact Nat.le_trans (Nat.sub_le _ _) (List.dropWhile_suffix _).length_le

/-- The segments of a line. -/
def segments (t : Text) : List Segment :=
  match _h : (textRun t).2 with
  | none => [.text (textRun t).1]
  | some (opening, rest) =>
    .text (textRun t).1 :: .part opening (bodyOf rest) (rest.contains '$') ::
      segments (afterBody rest)
termination_by t.length
decreasing_by exact Nat.lt_of_le_of_lt (length_afterBody_le rest) (length_lt_of_textRun _h)

/-! ## Bodies -/

/-- The name and the default of an argument : what is before the first `::`, and what is after
it. -/
def splitDefault : Text → Text × Option Text
  | ':' :: ':' :: rest => ([], some rest)
  | c :: rest => (c :: (splitDefault rest).1, (splitDefault rest).2)
  | [] => ([], none)

/-- A name and its default are what the body is made of. -/
theorem splitDefault_append (t : Text) :
    (splitDefault t).1 ++ ((splitDefault t).2.map (':' :: ':' :: ·)).getD [] = t := by
  fun_induction splitDefault t with
  | case1 rest => rfl
  | case2 c rest _ ih => rw [List.cons_append, ih]
  | case3 => rfl

/-- The tokens of a combo : the runs between its separators, the empty ones left out. -/
def comboTokens (body : Text) : List Text :=
  (body.splitOnP isComboSeparator).filter (· ≠ [])

theorem comboTokens_nil : comboTokens [] = [] := by
  simp [comboTokens]

/-- A separator ends the token before it. -/
theorem comboTokens_append_cons (t u : Text) {c : Char} (hc : isComboSeparator c = true) :
    comboTokens (t ++ c :: u) = comboTokens t ++ comboTokens u := by
  rw [comboTokens, comboTokens, comboTokens, List.splitOnP_append_cons t u hc, List.filter_append]

/-- The keys that the tokens name. The first token that names none is a fault. -/
def namedKeysOf (lookup : KeyLookup) : List Text → Except SnippetFault (List Key)
  | [] => .ok []
  | token :: tokens =>
    match lookup token with
    | none => .error (.unknownKeyToken token)
    | some key => (namedKeysOf lookup tokens).map (key :: ·)

/-! ## Meanings -/

namespace Segment

/-- The part that a segment stands for. -/
def meaning (lookup : KeyLookup) : Segment → Except SnippetFault Part
  | text content => .ok (.text content)
  | part .delay body _ =>
    if body ≠ [] ∧ body.all Char.isDigit ∧ body.length ≤ digitLimit then .ok (.delay body.value)
    else .error (.malformedDelay body)
  | part .arg body _ =>
    if (splitDefault body).1 = [] then .ok (.text ['$', '@']) else .ok (.arg (splitDefault body).1)
  | part .combo body _ =>
    if comboTokens body = [] then .ok (.text ['$', '!'])
    else (namedKeysOf lookup (comboTokens body)).map .combo
  | part .list _ _ => .error .argumentList

/-- The default that a segment declares. An argument without a name declares none. -/
def declared : Segment → Option (Text × Text)
  | part .arg body _ =>
    if (splitDefault body).1 = [] then none
    else (splitDefault body).2.map fun value => ((splitDefault body).1, value)
  | _ => none

end Segment

/-- A segment at fault declares nothing. -/
theorem declared_of_meaning_error {lookup : KeyLookup} {segment : Segment} {fault : SnippetFault}
    (h : segment.meaning lookup = .error fault) : segment.declared = none := by
  match segment with
  | .text content => rfl
  | .part .arg body closed =>
    rw [Segment.meaning] at h
    split at h <;> cases h
  | .part .delay body closed => rfl
  | .part .combo body closed => rfl
  | .part .list body closed => rfl

/-- Puts text before a line. Text that the line starts with goes on with it, and no text is no
part. -/
def consText (t : Text) : Line → Line
  | .text u :: line => .text (t ++ u) :: line
  | line => if t = [] then line else .text t :: line

/-- Makes one part of neighbouring texts, and none of those that are empty. -/
def Line.merged : List Part → Line
  | [] => []
  | .text t :: parts => consText t (merged parts)
  | part :: parts => part :: merged parts

/-- What a line means : its parts, or the first fault from the left. -/
def reading (lookup : KeyLookup) (t : Text) : Except SnippetFault Line :=
  ((segments t).mapM (Segment.meaning lookup)).map Line.merged

/-- The defaults that a line declares, in order; those before the first fault if it has one. -/
def declared (lookup : KeyLookup) (t : Text) : List (Text × Text) :=
  ((segments t).takeWhile fun segment => (segment.meaning lookup).isOk).filterMap Segment.declared

end Typist
