import Typist.Proofs.Mapping
import Typist.Proofs.Snippet.Parsing
import Typist.Proofs.Snippet.RoundTrip

/-!
# What reading produces

A text runs up to an opener, so it holds none, and the only texts that come after it in the same
part are the `$@` and `$!` of parts that stand for text, which begin with a `$` and do not end in
one. So merging the meanings of segments never makes an opener where the pieces meet
(`isNormal_reading`). A name runs up to the first `::`, so it holds none, and where a default
follows it does not end in `:` (`splitDefault`).

`parse_isNormal` says so of all that a snippet is made of. What it is made of can be written then,
with the defaults of the snippet or without : only a key that has no name keeps a line from being
written.
-/

namespace Typist

/-! ## Names and their defaults -/

theorem mem_of_mem_splitDefault {t : Text} {c : Char} :
    (c ∈ (splitDefault t).1 → c ∈ t) ∧ ∀ value, (splitDefault t).2 = some value →
      c ∈ value → c ∈ t := by
  have happend := splitDefault_append t
  refine ⟨fun hc => ?_, fun value hvalue hc => ?_⟩
  · rw [← happend]
    exact List.mem_append_left _ hc
  · rw [hvalue] at happend
    rw [← happend]
    exact List.mem_append_right _ (List.mem_cons_of_mem _ (List.mem_cons_of_mem _ hc))

/-- A name holds no `::`. -/
theorem holds_splitDefault (t : Text) : Text.holds [':', ':'] (splitDefault t).1 = false := by
  fun_induction splitDefault t with
  | case1 rest => rfl
  | case2 c rest hcolons ih =>
    refine holds_cons_iff.mpr ⟨?_, ih⟩
    intro hc hhead
    obtain ⟨name, hname⟩ := List.head?_eq_some_iff.mp hhead
    have happend := splitDefault_append rest
    rw [hname, List.cons_append] at happend
    exact hcolons _ hc happend.symm
  | case3 => rfl

/-- A name that a default follows does not end in `:`, which would be the first of two. -/
theorem getLast?_splitDefault {t value : Text} (h : (splitDefault t).2 = some value) :
    (splitDefault t).1.getLast? ≠ some ':' := by
  fun_induction splitDefault t with
  | case1 rest => simp
  | case2 c rest hcolons ih =>
    have happend := splitDefault_append rest
    simp only at h
    cases hname : (splitDefault rest).1 with
    | nil =>
      rw [hname, h] at happend
      rw [List.getLast?_singleton]
      exact fun hc => hcolons _ (Option.some.inj hc) happend.symm
    | cons d name =>
      rw [List.getLast?_cons_cons, ← hname]
      exact ih h
  | case3 => cases h

/-! ## Texts -/

/-- Can the text be written, with escapes for `$@` and `$!`? -/
def Text.IsWritable (t : Text) : Prop :=
  Text.holds ['$', '\''] t = false ∧ Text.holds ['$', '['] t = false

theorem Text.IsWritable.append {t u : Text} (ht : t.IsWritable) (hu : u.IsWritable)
    (hmeet : t.getLast? = some '$' → u.head? ≠ some '\'' ∧ u.head? ≠ some '[') :
    (t ++ u).IsWritable :=
  ⟨holds_append ht.1 hu.1 fun h => (hmeet h).1, holds_append ht.2 hu.2 fun h => (hmeet h).2⟩

theorem head?_textRun {t : Text} {c : Char} (h : (textRun t).1.head? = some c) :
    t.head? = some c := by
  cases t with
  | nil => cases h
  | cons d t =>
    rw [textRun] at h
    split at h
    · cases h
    · exact h

/-- The text before an opener holds none. -/
theorem isWritable_textRun (t : Text) : Text.IsWritable (textRun t).1 := by
  induction t with
  | nil => exact ⟨rfl, rfl⟩
  | cons c t ih =>
    rw [textRun]
    split
    · exact ⟨rfl, rfl⟩
    · next hnone =>
      have hhead : ∀ d, c = '$' → (textRun t).1.head? = some d →
          opening? ('$' :: d :: t.tail) = none := by
        rintro d rfl hd
        obtain ⟨u, rfl⟩ := List.head?_eq_some_iff.mp (head?_textRun hd)
        exact hnone
      exact ⟨holds_cons_iff.mpr ⟨fun hc hd => absurd (hhead _ hc hd) (by simp [opening?]), ih.1⟩,
        holds_cons_iff.mpr ⟨fun hc hd => absurd (hhead _ hc hd) (by simp [opening?]), ih.2⟩⟩

/-! ## Merging -/

theorem Line.isNormal_nil : Line.IsNormal [] :=
  ⟨by simp, List.isChain_nil⟩

theorem Line.isNormal_cons {part : Part} {line : Line} (hpart : part.IsNormal)
    (htext : part.isText = false) (hline : Line.IsNormal line) : Line.IsNormal (part :: line) := by
  refine ⟨List.forall_mem_cons.mpr ⟨hpart, hline.parts⟩, ?_⟩
  cases line with
  | nil => exact List.isChain_singleton _
  | cons next line => exact List.isChain_cons_cons.mpr ⟨by simp [htext], hline.apart⟩

/-- Text before a line in normal form leaves it so if no opener comes about where they meet. -/
theorem isNormal_consText {t : Text} {line : Line} (ht : t.IsWritable) (hline : Line.IsNormal line)
    (hmeet : ∀ u rest, line = .text u :: rest → (t ++ u).IsWritable) :
    Line.IsNormal (consText t line) := by
  have hcons (hnext : ∀ next ∈ line.head?, next.isText = false) :
      Line.IsNormal (if t = [] then line else .text t :: line) := by
    split
    · exact hline
    · next hnil =>
      refine ⟨List.forall_mem_cons.mpr ⟨⟨hnil, ht⟩, hline.parts⟩, ?_⟩
      cases line with
      | nil => exact List.isChain_singleton _
      | cons next line =>
        exact List.isChain_cons_cons.mpr ⟨by simp [hnext next rfl], hline.apart⟩
  match line with
  | .text u :: rest =>
    have hu := (hline.parts (.text u) (by simp)).1
    refine ⟨List.forall_mem_cons.mpr ⟨⟨by simp [hu], hmeet u rest rfl⟩, hline.tail.parts⟩, ?_⟩
    cases rest with
    | nil => exact List.isChain_singleton _
    | cons next rest => exact List.isChain_cons_cons.mpr ⟨by simp [hline.next], hline.tail.apart⟩
  | [] => exact hcons (by simp)
  | .delay _ :: _ | .arg _ :: _ | .combo _ :: _ => exact hcons (by simp [Part.isText])

/-- Merging keeps all parts other than texts. -/
theorem mem_merged {part : Part} (hpart : part.isText = false) :
    ∀ {parts : List Part}, part ∈ Line.merged parts ↔ part ∈ parts
  | [] => Iff.rfl
  | .text t :: parts => by
    have hne : ∀ u, part ≠ .text u := by
      rintro u rfl
      simp [Part.isText] at hpart
    have hcons : ∀ line : Line, part ∈ consText t line ↔ part ∈ line := by
      intro line
      unfold consText
      split
      · simp [hne]
      · split <;> simp [hne]
    rw [Line.merged, hcons, mem_merged hpart]
    simp [hne]
  | .delay _ :: parts | .arg _ :: parts | .combo _ :: parts => by
    simp only [Line.merged, List.mem_cons, mem_merged hpart]

/-! ## What segments stand for -/

/-- Can the delay, if the part is one, be written as a numeral? -/
def Part.IsShort : Part → Prop
  | delay milliseconds => exceedsDigitLimit milliseconds = false
  | _ => True

variable {lookup : KeyLookup}

theorem namedKeysOf_ne_nil {tokens : List Text} {keys : List Key} (htokens : tokens ≠ [])
    (h : namedKeysOf lookup tokens = .ok keys) : keys ≠ [] := by
  cases tokens with
  | nil => exact absurd rfl htokens
  | cons token tokens =>
    rw [namedKeysOf] at h
    cases hkey : lookup token with
    | none => simp [hkey] at h
    | some key =>
      rw [hkey] at h
      obtain ⟨rest, -, rfl⟩ := map_eq_ok_iff.mp h
      exact List.cons_ne_nil _ _

/-- A part that an opener opened is in normal form, or it stands for the text of its opener. -/
theorem meaning_part {opening : Opening} {body : Text} {closed : Bool} {part : Part}
    (hbody : '$' ∉ body) (h : (Segment.part opening body closed).meaning lookup = .ok part) :
    (part.isText = false ∧ part.IsNormal ∧ part.IsShort) ∨
      ∃ c, part = .text ['$', c] ∧ (c = '@' ∨ c = '!') := by
  cases opening with
  | delay =>
    rw [Segment.meaning] at h
    split at h
    · next hdigits =>
      cases h
      exact .inl ⟨rfl, Int.natCast_nonneg _,
        Text.exceedsDigitLimit_value (List.all_eq_true.mp hdigits.2.1) hdigits.2.2⟩
    · cases h
  | arg =>
    rw [Segment.meaning] at h
    split at h
    · cases h
      exact .inr ⟨_, rfl, .inl rfl⟩
    · next hname =>
      cases h
      exact .inl ⟨rfl, ⟨hname, fun hmem => hbody (mem_of_mem_splitDefault.1 hmem),
        holds_splitDefault body⟩, trivial⟩
  | combo =>
    rw [Segment.meaning] at h
    split at h
    · cases h
      exact .inr ⟨_, rfl, .inr rfl⟩
    · next htokens =>
      obtain ⟨keys, hkeys, rfl⟩ := map_eq_ok_iff.mp h
      exact .inl ⟨rfl, namedKeysOf_ne_nil htokens hkeys, trivial⟩
  | list => cases h

theorem not_mem_of_mem_segments {t body : Text} {opening : Opening} {closed : Bool}
    (h : .part opening body closed ∈ segments t) : '$' ∉ body := by
  fun_induction segments t with
  | case1 t hnone => simp at h
  | case2 t opening' rest hsome ih =>
    rcases List.mem_cons.mp h with h | h
    · cases h
    · rcases List.mem_cons.mp h with h | h
      · obtain ⟨-, rfl, -⟩ := Segment.part.inj h
        exact not_mem_bodyOf rest
      · exact ih h

/-! ## The parts of a line -/

theorem consText_cons_eq (c : Char) (t : Text) (line : Line) :
    ∃ u rest, consText (c :: t) line = .text (c :: u) :: rest := by
  match line with
  | .text u :: rest => exact ⟨t ++ u, rest, rfl⟩
  | [] => exact ⟨t, [], rfl⟩
  | .delay _ :: _ | .arg _ :: _ | .combo _ :: _ => exact ⟨t, _, rfl⟩

/-- What the segments of a line stand for is in normal form once neighbouring texts are merged. -/
theorem isNormal_merged {t : Text} {parts : List Part}
    (hparts : (segments t).mapM (Segment.meaning lookup) = .ok parts) :
    Line.IsNormal (Line.merged parts) := by
  fun_induction segments t generalizing parts with
  | case1 t hnone =>
    obtain ⟨part, rest, hpart, hrest, rfl⟩ := mapM_cons_eq_ok.mp hparts
    cases hpart
    cases hrest
    exact isNormal_consText (isWritable_textRun t) Line.isNormal_nil (by simp [Line.merged])
  | case2 t opening rest hsome ih =>
    obtain ⟨run, tail, hrun, htail, rfl⟩ := mapM_cons_eq_ok.mp hparts
    obtain ⟨part, later, hpart, hlater, rfl⟩ := mapM_cons_eq_ok.mp htail
    cases hrun
    have hrun := isWritable_textRun t
    have hnormal := ih hlater
    rcases meaning_part (not_mem_bodyOf rest) hpart with ⟨htext, hpartNormal, -⟩ | ⟨c, rfl, hc⟩
    · have hmerged : Line.merged (part :: later) = part :: Line.merged later := by
        cases part with
        | text u => simp [Part.isText] at htext
        | delay | arg | combo => rfl
      rw [Line.merged, hmerged]
      refine isNormal_consText hrun (Line.isNormal_cons hpartNormal htext hnormal) ?_
      rintro u rest heq
      obtain ⟨rfl, -⟩ := List.cons.inj heq
      simp [Part.isText] at htext
    · -- The text of an opener starts with a `$` and ends in another character.
      have hopener : Text.IsWritable ['$', c] ∧ c ≠ '$' := by
        rcases hc with rfl | rfl <;> exact ⟨⟨rfl, rfl⟩, by decide⟩
      have hopened : Line.IsNormal (consText ['$', c] (Line.merged later)) := by
        refine isNormal_consText hopener.1 hnormal ?_
        rintro u rest heq
        rw [heq] at hnormal
        refine hopener.1.append (hnormal.parts (.text u) (by simp)).2 ?_
        intro hlast
        exact absurd (Option.some.inj hlast) hopener.2
      rw [Line.merged, Line.merged]
      refine isNormal_consText hrun hopened ?_
      rintro u rest heq
      obtain ⟨v, rest', hcons⟩ := consText_cons_eq '$' [c] (Line.merged later)
      rw [hcons] at heq hopened
      obtain ⟨rfl, -⟩ : '$' :: v = u ∧ rest' = rest := by simpa using heq
      exact hrun.append (hopened.parts (.text ('$' :: v)) (by simp)).2 (by simp)

theorem reading_eq_ok {t : Text} {line : Line} (h : reading lookup t = .ok line) :
    ∃ parts, (segments t).mapM (Segment.meaning lookup) = .ok parts ∧ Line.merged parts = line :=
  map_eq_ok_iff.mp h

/-- What a line means is in normal form. -/
theorem isNormal_reading {t : Text} {line : Line} (h : reading lookup t = .ok line) :
    Line.IsNormal line := by
  obtain ⟨parts, hparts, rfl⟩ := reading_eq_ok h
  exact isNormal_merged hparts

/-- The delays of a line can be written. -/
theorem isShort_reading {t : Text} {line : Line} (h : reading lookup t = .ok line) :
    ∀ part ∈ line, part.IsShort := by
  obtain ⟨parts, hparts, rfl⟩ := reading_eq_ok h
  intro part hpart
  cases htext : part.isText with
  | true =>
    cases part with
    | text u => trivial
    | delay | arg | combo => simp [Part.isText] at htext
  | false =>
    obtain ⟨segment, hsegment, hmeaning⟩ := exists_of_mem_mapM hparts ((mem_merged htext).mp hpart)
    cases segment with
    | text u =>
      cases hmeaning
      trivial
    | part opening body closed =>
      rcases meaning_part (not_mem_of_mem_segments hsegment) hmeaning with
        ⟨-, -, hshort⟩ | ⟨c, rfl, -⟩
      · exact hshort
      · trivial

/-- A default that a line declares is that of an argument written in it. -/
theorem exists_of_mem_declared {t name value : Text} (h : (name, value) ∈ declared lookup t) :
    ∃ body closed, .part .arg body closed ∈ segments t ∧ (splitDefault body).1 = name ∧
      (splitDefault body).2 = some value ∧ name ≠ [] := by
  obtain ⟨segment, hsegment, hdeclared⟩ := List.mem_filterMap.mp h
  have hsegment := (List.takeWhile_sublist _).mem hsegment
  match segment with
  | .part .arg body closed =>
    rw [Segment.declared] at hdeclared
    split at hdeclared
    · cases hdeclared
    · next hname =>
      obtain ⟨value', hvalue, heq⟩ := Option.map_eq_some_iff.mp hdeclared
      obtain ⟨rfl, rfl⟩ := Prod.mk.inj heq
      exact ⟨body, closed, hsegment, rfl, hvalue, hname⟩
  | .text _ | .part .delay _ _ | .part .combo _ _ | .part .list _ _ => cases hdeclared

/-- The argument whose default a line declares is a part of the line. -/
theorem arg_mem_of_mem_declared {t name value : Text} {line : Line}
    (hline : reading lookup t = .ok line) (h : (name, value) ∈ declared lookup t) :
    Part.arg name ∈ line := by
  obtain ⟨body, closed, hsegment, rfl, -, hname⟩ := exists_of_mem_declared h
  obtain ⟨parts, hparts, rfl⟩ := reading_eq_ok hline
  obtain ⟨part, hpart, hmeaning⟩ := exists_mem_of_mapM hparts hsegment
  rw [Segment.meaning, if_neg hname] at hmeaning
  cases hmeaning
  exact (mem_merged rfl).mpr hpart

theorem isWritableDefault_of_mem_declared {t name value : Text}
    (h : (name, value) ∈ declared lookup t) : IsWritableDefault name value := by
  obtain ⟨body, closed, hsegment, rfl, hvalue, hname⟩ := exists_of_mem_declared h
  have hbody := not_mem_of_mem_segments hsegment
  exact ⟨⟨hname, fun hmem => hbody (mem_of_mem_splitDefault.1 hmem), holds_splitDefault body⟩,
    getLast?_splitDefault hvalue, fun hmem => hbody (mem_of_mem_splitDefault.2 value hvalue hmem)⟩

/-! ## The characters of a line -/

theorem suffix_of_opening? {t rest : Text} {opening : Opening}
    (h : opening? t = some (opening, rest)) : rest <:+ t := by
  unfold opening? at h
  split at h <;> cases h
  all_goals exact ⟨[_, _], rfl⟩

theorem suffix_of_textRun {opening : Opening} {rest : Text} :
    ∀ {t : Text}, (textRun t).2 = some (opening, rest) → rest <:+ t
  | [], h => by simp [textRun] at h
  | c :: t, h => by
    rw [textRun] at h
    split at h
    · next found hfound =>
      obtain rfl : found = (opening, rest) := by simpa using h
      exact suffix_of_opening? hfound
    · exact (suffix_of_textRun h).trans (List.suffix_cons c t)

theorem mem_of_mem_textRun {c : Char} : ∀ {t : Text}, c ∈ (textRun t).1 → c ∈ t
  | [], h => h
  | d :: t, h => by
    rw [textRun] at h
    split at h
    · cases h
    · rcases List.mem_cons.mp h with rfl | h
      · exact List.mem_cons_self ..
      · exact List.mem_cons_of_mem _ (mem_of_mem_textRun h)

/-- The characters of a segment : those of its text or of its body. -/
def Segment.chars : Segment → Text
  | text content => content
  | part _ body _ => body

theorem mem_of_mem_segments {t : Text} {segment : Segment} (h : segment ∈ segments t) {c : Char}
    (hc : c ∈ segment.chars) : c ∈ t := by
  fun_induction segments t with
  | case1 t hnone =>
    obtain rfl := List.mem_singleton.mp h
    exact mem_of_mem_textRun hc
  | case2 t opening rest hsome ih =>
    have hrest : ∀ {d : Char}, d ∈ rest → d ∈ t := (suffix_of_textRun hsome).mem
    rcases List.mem_cons.mp h with rfl | h
    · exact mem_of_mem_textRun hc
    · rcases List.mem_cons.mp h with rfl | h
      · exact hrest ((List.takeWhile_sublist _).mem hc)
      · exact hrest (((List.tail_sublist _).trans (List.dropWhile_sublist _)).mem (ih h))

/-- The characters of a part that are written as they are : those of its text or of its name. -/
def Part.chars : Part → Text
  | text content => content
  | arg name => name
  | _ => []

theorem flatMap_chars_merged : ∀ parts : List Part,
    (Line.merged parts).flatMap Part.chars = parts.flatMap Part.chars
  | [] => rfl
  | .text t :: parts => by
    have hcons : ∀ line : Line,
        (consText t line).flatMap Part.chars = t ++ line.flatMap Part.chars := by
      intro line
      unfold consText
      split
      · simp [Part.chars]
      · split
        · next hnil => simp [hnil]
        · simp [Part.chars]
    rw [Line.merged, hcons, flatMap_chars_merged parts]
    rfl
  | .delay _ :: parts | .arg _ :: parts | .combo _ :: parts => by
    rw [Line.merged, List.flatMap_cons, List.flatMap_cons, flatMap_chars_merged parts]
    simp

theorem mem_chars_of_meaning {segment : Segment} {part : Part}
    (h : segment.meaning lookup = .ok part) {c : Char} (hc : c ∈ part.chars) :
    c ∈ segment.chars ∨ c ∈ ['$', '@', '!'] := by
  match segment with
  | .text content =>
    cases h
    exact .inl hc
  | .part .delay body closed =>
    rw [Segment.meaning] at h
    split at h <;> cases h
    cases hc
  | .part .arg body closed =>
    rw [Segment.meaning] at h
    split at h <;> cases h
    · have hc : c = '$' ∨ c = '@' := by simpa [Part.chars] using hc
      exact .inr (by rcases hc with rfl | rfl <;> simp)
    · exact .inl (mem_of_mem_splitDefault.1 hc)
  | .part .combo body closed =>
    rw [Segment.meaning] at h
    split at h
    · cases h
      have hc : c = '$' ∨ c = '!' := by simpa [Part.chars] using hc
      exact .inr (by rcases hc with rfl | rfl <;> simp)
    · obtain ⟨keys, -, rfl⟩ := map_eq_ok_iff.mp h
      cases hc
  | .part .list body closed => cases h

/-- A line is made of the characters it is read of, and of those that openers are made of. -/
theorem mem_chars_of_reading {t : Text} {line : Line} (h : reading lookup t = .ok line)
    {part : Part} (hpart : part ∈ line) {c : Char} (hc : c ∈ part.chars) :
    c ∈ t ∨ c ∈ ['$', '@', '!'] := by
  obtain ⟨parts, hparts, rfl⟩ := reading_eq_ok h
  have hmem : c ∈ parts.flatMap Part.chars := by
    rw [← flatMap_chars_merged]
    exact List.mem_flatMap.mpr ⟨part, hpart, hc⟩
  obtain ⟨source, hsource, hc⟩ := List.mem_flatMap.mp hmem
  obtain ⟨segment, hsegment, hmeaning⟩ := exists_of_mem_mapM hparts hsource
  exact (mem_chars_of_meaning hmeaning hc).imp_left (mem_of_mem_segments hsegment)

/-! ## The keys of a line -/

theorem exists_token_of_mem_namedKeysOf {tokens : List Text} {keys : List Key}
    (h : namedKeysOf lookup tokens = .ok keys) {key : Key} (hkey : key ∈ keys) :
    ∃ token ∈ tokens, lookup token = some key := by
  induction tokens generalizing keys with
  | nil =>
    cases h
    cases hkey
  | cons token tokens ih =>
    rw [namedKeysOf] at h
    cases htoken : lookup token with
    | none => simp [htoken] at h
    | some first =>
      rw [htoken] at h
      obtain ⟨rest, hrest, rfl⟩ := map_eq_ok_iff.mp h
      rcases List.mem_cons.mp hkey with rfl | hkey
      · exact ⟨token, List.mem_cons_self .., htoken⟩
      · obtain ⟨other, hother, hlookup⟩ := ih hrest hkey
        exact ⟨other, List.mem_cons_of_mem _ hother, hlookup⟩

/-- Each key of a line is what a token names. -/
theorem exists_token_of_reading {t : Text} {line : Line} (h : reading lookup t = .ok line)
    {keys : List Key} (hkeys : Part.combo keys ∈ line) {key : Key} (hkey : key ∈ keys) :
    ∃ token, lookup token = some key := by
  obtain ⟨parts, hparts, rfl⟩ := reading_eq_ok h
  obtain ⟨segment, -, hmeaning⟩ := exists_of_mem_mapM hparts ((mem_merged rfl).mp hkeys)
  match segment with
  | .part .combo body closed =>
    rw [Segment.meaning] at hmeaning
    split at hmeaning
    · cases hmeaning
    · obtain ⟨named, hnamed, heq⟩ := map_eq_ok_iff.mp hmeaning
      obtain rfl := Part.combo.inj heq
      obtain ⟨token, -, hlookup⟩ := exists_token_of_mem_namedKeysOf hnamed hkey
      exact ⟨token, hlookup⟩
  | .text _ => cases hmeaning
  | .part .delay _ _ | .part .arg _ _ =>
    rw [Segment.meaning] at hmeaning
    split at hmeaning <;> cases hmeaning
  | .part .list _ _ => cases hmeaning

/-- What a token names without aliases is a key that a combo can name, but for a blank. -/
theorem isTypable_of_standardLookup {token : Text} {key : Key}
    (h : Key.standardLookup token = some key) (hblank : ¬key.IsBlank) : key.IsTypable := by
  have hchar : ∀ c, key = .char [.char c] → key.IsTypable := by
    rintro c rfl
    exact ⟨c, rfl, Bool.eq_false_iff.mpr fun hc => hblank ⟨c, rfl, hc⟩⟩
  rw [standardLookup_eq_named?] at h
  rcases Key.named?_cases h with ⟨c, htoken, rfl⟩ | ⟨e, -, rfl⟩ | ⟨e, -, rfl⟩
  · obtain ⟨d, -, rfl⟩ := List.map_eq_singleton_iff.mp htoken
    exact hchar d rfl
  · trivial
  · exact hchar e.2 rfl

/-- Combos can name the keys of a line, but for blanks. -/
theorem isTypable_of_reading {t : Text} {line : Line} (h : reading Key.standardLookup t = .ok line)
    (hblank : ∀ keys, Part.combo keys ∈ line → ∀ key ∈ keys, ¬key.IsBlank) :
    Line.IsTypable line := by
  intro keys hcombo key hkey
  obtain ⟨token, htoken⟩ := exists_token_of_reading h hcombo hkey
  exact isTypable_of_standardLookup htoken (hblank keys hcombo key hkey)

/-! ## The snippet of a text -/

section

variable {t : Text} {s : Snippet}

/-- Each line of a snippet is the meaning of one of its logical lines. -/
theorem exists_reading_of_mem_lines (h : Snippet.parse lookup t = .ok s) {line : Line}
    (hline : line ∈ s.lines) :
    ∃ l ∈ logicalLines (physicalLines t), reading lookup l.text = .ok line := by
  have hlines := parse_lines lookup t
  rw [h] at hlines
  obtain ⟨l, hl, hread⟩ := exists_of_mem_mapM hlines.symm hline
  exact ⟨l, hl, LogicalLine.reading_eq_ok.mp hread⟩

/-- Each logical line of a text that is a snippet has its meaning among the lines. -/
theorem exists_mem_lines_of_parse (h : Snippet.parse lookup t = .ok s) {l : LogicalLine}
    (hl : l ∈ logicalLines (physicalLines t)) :
    ∃ line ∈ s.lines, reading lookup l.text = .ok line := by
  have hlines := parse_lines lookup t
  rw [h] at hlines
  obtain ⟨line, hline, hread⟩ := exists_mem_of_mapM hlines.symm hl
  exact ⟨line, hline, LogicalLine.reading_eq_ok.mp hread⟩

theorem line_isNormal_of_parse (h : Snippet.parse lookup t = .ok s) {line : Line}
    (hline : line ∈ s.lines) : Line.IsNormal line := by
  obtain ⟨l, -, hread⟩ := exists_reading_of_mem_lines h hline
  exact isNormal_reading hread

/-- A default of a snippet is one that a logical line declares. -/
theorem exists_declared_of_parse (h : Snippet.parse lookup t = .ok s) {name value : Text}
    (hdefault : (name, value) ∈ s.defaults.entries) :
    ∃ l ∈ logicalLines (physicalLines t), (name, value) ∈ declared lookup l.text := by
  rw [parse_defaults h] at hdefault
  exact List.mem_flatMap.mp (Mapping.mem_of_mem_ofList hdefault)

/-- Is the snippet made of lines in normal form, and of defaults that can be written? -/
structure Snippet.IsNormal (s : Snippet) : Prop where
  lines : ∀ line ∈ s.lines, Line.IsNormal line
  /-- A default is that of an argument in the lines. -/
  used : ∀ name value, (name, value) ∈ s.defaults.entries → ∃ line ∈ s.lines, Part.arg name ∈ line
  writable : ∀ name value, (name, value) ∈ s.defaults.entries → IsWritableDefault name value

/-- A snippet that was read is in normal form. Its lines can be written, with its defaults or
without any, unless a combo holds a key that has no name. -/
theorem parse_isNormal (h : Snippet.parse lookup t = .ok s) :
    s.IsNormal ∧ ∀ line ∈ s.lines, ∀ defaults, defaults = ∅ ∨ defaults = s.defaults →
      ∀ e, Line.render defaults line = .error e →
        ∃ keys key, Part.combo keys ∈ line ∧ key ∈ keys ∧ key.name? = none ∧
          e = .unnamedKey key := by
  have hwritable : ∀ name value, (name, value) ∈ s.defaults.entries →
      IsWritableDefault name value := by
    intro name value hdefault
    obtain ⟨l, -, hdeclared⟩ := exists_declared_of_parse h hdefault
    exact isWritableDefault_of_mem_declared hdeclared
  refine ⟨⟨fun line hline => line_isNormal_of_parse h hline, ?_, hwritable⟩, ?_⟩
  · intro name value hdefault
    obtain ⟨l, hl, hdeclared⟩ := exists_declared_of_parse h hdefault
    obtain ⟨line, hline, hread⟩ := exists_mem_lines_of_parse h hl
    exact ⟨line, hline, arg_mem_of_mem_declared hread hdeclared⟩
  · intro line hline defaults hdefaults e he
    obtain ⟨l, -, hread⟩ := exists_reading_of_mem_lines h hline
    obtain ⟨part, hpart, hrender⟩ := render_eq_error he
    have hown : ∀ name value, part = .arg name → defaults.get? name = some value →
        IsWritableDefault name value := by
      intro name value _ hvalue
      rcases hdefaults with rfl | rfl
      · cases hvalue
      · exact hwritable name value (Mapping.mem_of_get? hvalue)
    rcases part_render_eq_error ((isNormal_reading hread).parts part hpart) hown hrender with
      ⟨-, milliseconds, rfl, hlong⟩ | ⟨keys, key, rfl, hkey, hname, rfl⟩
    · have hshort : exceedsDigitLimit milliseconds = false := isShort_reading hread _ hpart
      rw [hshort] at hlong
      cases hlong
    · exact ⟨keys, key, hpart, hkey, hname, rfl⟩

end

/-- A text in which escapes, a literal `$` and colons meet, and in which a combo that is left open
names a key without a name. -/
def crowdedText : Text :=
  "a$$@$b$'5$$@n:::x$$!$\n$@n::y$$!c+\t".toList

/-- Its second line. -/
def tabLine : Line :=
  [.arg ['n'], .combo [.char [.char 'c'], .char [.char '\t']]]

theorem parse_isNormal_crowdedText :
    ∃ s, Snippet.parse Key.standardLookup crowdedText = .ok s ∧
      s.lines = [[.text "a$$@b".toList, .delay 5, .arg ['n'], .text ['$', '!']], tabLine] ∧
      s.defaults.entries = [(['n'], ['y'])] ∧ s.IsNormal ∧
      Line.render s.defaults tabLine = .error (.unnamedKey (.char [.char '\t'])) ∧
      ∃ keys key, Part.combo keys ∈ tabLine ∧ key ∈ keys ∧ key.name? = none ∧
        RenderError.unnamedKey (.char [.char '\t']) = .unnamedKey key := by
  have hparts :
      (Snippet.parse Key.standardLookup crowdedText).map (fun s => (s.lines, s.defaults)) =
        .ok ([[.text "a$$@b".toList, .delay 5, .arg ['n'], .text ['$', '!']], tabLine],
          .ofList [(['n'], ['y'])]) := by
    decide +kernel
  cases hparse : Snippet.parse Key.standardLookup crowdedText with
  | error e =>
    rw [hparse] at hparts
    cases hparts
  | ok s =>
    rw [hparse] at hparts
    obtain ⟨hlines, hdefaults⟩ := Prod.mk.inj (Except.ok.inj hparts)
    have hrender : Line.render s.defaults tabLine = .error (.unnamedKey (.char [.char '\t'])) := by
      rw [hdefaults]
      decide +kernel
    obtain ⟨hnormal, hwritten⟩ := parse_isNormal hparse
    exact ⟨s, rfl, hlines, by rw [hdefaults]; rfl, hnormal, hrender,
      hwritten tabLine (by rw [hlines]; simp) s.defaults (.inr rfl) _ hrender⟩

end Typist
