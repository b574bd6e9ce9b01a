import Typist.Proofs.Json.Scalars
import Typist.Proofs.Mapping

/-!
# The grammar of documents

`Reads` says what a document is, without a budget of steps and with the members of an object as they
are written, names that come again included. The fields of an object are its members set one after
the other. `Exceeds` says that a text begins as a document does, up to an array or object at a level
beyond those there may be.

What is read off a text is never nothing (`Reads.length_lt`), and a document either keeps to the
levels there are or exceeds them (`Reads.keeps_or_exceeds`).
-/

namespace Typist.Json

/-- What a stretch of a document gives. -/
inductive Form
  | value (v : Json)
  /-- The items of an array, of which the text goes on to the end of the array. -/
  | items (vs : List Json)
  /-- The members of an object as they are written, of which the text goes on to the end of the
  object. -/
  | members (ms : List (CodePoints × Json))
  /-- An object by its members as they are written. -/
  | object (ms : List (CodePoints × Json))

/-- The object that members make. Of members with the same name the last gives the value. -/
def ofMembers (ms : List (CodePoints × Json)) : Json :=
  .obj (Mapping.ofList ms).entries

/-- The kinds of stretches. -/
inductive Kind
  | value | items | members

/-- The kind of a form. An object is a value. -/
def Form.kind : Form → Kind
  | value _ | object _ => .value
  | items _ => .items
  | members _ => .members

/-- Reads the name of a member and the colon after it. -/
def memberName (t : Text) : Except ReadError (CodePoints × Text) :=
  match t with
  | '"' :: rest =>
    match stringAfterQuote rest with
    | .error e => .error e
    | .ok (name, rest) =>
      match skipSpace rest with
      | ':' :: rest => .ok (name, skipSpace rest)
      | rest => .error (.malformed .noColon rest.length)
  | t => .error (.malformed .noName t.length)

/-- Does the text start with a stretch of a document of the given form, in which arrays and objects
are nested no more than so many levels? The last text is what follows. -/
inductive Reads : Nat → Text → Form → Text → Prop
  | str {n : Nat} {t rest : Text} {p : CodePoints} : stringAfterQuote t = .ok (p, rest) →
      Reads n ('"' :: t) (.value (.str p)) rest
  | scalar {n : Nat} {t rest : Text} {v : Json} :
      Json.scalar t = .ok (v, rest) → Reads n t (.value v) rest
  | emptyArray {n : Nat} {t rest : Text} :
      skipSpace t = ']' :: rest → Reads (n + 1) ('[' :: t) (.value (.arr [])) rest
  | array {n : Nat} {t rest : Text} {vs : List Json} : Reads n (skipSpace t) (.items vs) rest →
      Reads (n + 1) ('[' :: t) (.value (.arr vs)) rest
  | lastItem {n : Nat} {t rest rest' : Text} {v : Json} :
      Reads n t (.value v) rest → skipSpace rest = ']' :: rest' → Reads n t (.items [v]) rest'
  | item {n : Nat} {t rest rest' rest'' : Text} {v : Json} {vs : List Json} :
      Reads n t (.value v) rest →
      skipSpace rest = ',' :: rest' → Reads n (skipSpace rest') (.items vs) rest'' →
        Reads n t (.items (v :: vs)) rest''
  | emptyObject {n : Nat} {t rest : Text} :
      skipSpace t = '\x7d' :: rest → Reads (n + 1) ('\x7b' :: t) (.object []) rest
  | object {n : Nat} {t rest : Text} {ms : List (CodePoints × Json)} :
      Reads n (skipSpace t) (.members ms) rest → Reads (n + 1) ('\x7b' :: t) (.object ms) rest
  | ofObject {n : Nat} {t rest : Text} {ms : List (CodePoints × Json)} :
      Reads n t (.object ms) rest → Reads n t (.value (ofMembers ms)) rest
  | lastMember {n : Nat} {t t' rest rest' : Text} {name : CodePoints} {v : Json} :
      memberName t = .ok (name, t') →
      Reads n t' (.value v) rest → skipSpace rest = '\x7d' :: rest' →
        Reads n t (.members [(name, v)]) rest'
  | member {n : Nat} {t t' rest rest' rest'' : Text} {name : CodePoints} {v : Json}
      {ms : List (CodePoints × Json)} :
      memberName t = .ok (name, t') → Reads n t' (.value v) rest → skipSpace rest = ',' :: rest' →
      Reads n (skipSpace rest') (.members ms) rest'' → Reads n t (.members ((name, v) :: ms)) rest''

/-- Does the text begin as a stretch of a document does, up to an array or object beyond so many
levels? -/
inductive Exceeds : Nat → Text → Kind → Prop
  | array {t : Text} : Exceeds 0 ('[' :: t) .value
  | object {t : Text} : Exceeds 0 ('\x7b' :: t) .value
  | inArray {n : Nat} {t : Text} :
      Exceeds n (skipSpace t) .items → Exceeds (n + 1) ('[' :: t) .value
  | inObject {n : Nat} {t : Text} :
      Exceeds n (skipSpace t) .members → Exceeds (n + 1) ('\x7b' :: t) .value
  | inItem {n : Nat} {t : Text} : Exceeds n t .value → Exceeds n t .items
  | afterItem {n : Nat} {t rest rest' : Text} {v : Json} :
      Reads n t (.value v) rest → skipSpace rest = ',' :: rest' →
      Exceeds n (skipSpace rest') .items → Exceeds n t .items
  | inMember {n : Nat} {t t' : Text} {name : CodePoints} :
      memberName t = .ok (name, t') → Exceeds n t' .value → Exceeds n t .members
  | afterMember {n : Nat} {t t' rest rest' : Text} {name : CodePoints} {v : Json} :
      memberName t = .ok (name, t') →
      Reads n t' (.value v) rest → skipSpace rest = ',' :: rest' →
        Exceeds n (skipSpace rest') .members → Exceeds n t .members

/-! ## Documents -/

/-- Is the text a document of the form? There may be white space around it, but no byte order mark
before it. -/
def IsDocument (n : Nat) (t : Text) (form : Form) : Prop :=
  t.head? ≠ some '\ufeff' ∧ ∃ rest, Reads n (skipSpace t) form rest ∧ skipSpace rest = []

/-- Does the text begin as a document does, up to an array or object beyond so many levels? -/
def NestsBeyond (n : Nat) (t : Text) : Prop :=
  t.head? ≠ some '\ufeff' ∧ Exceeds n (skipSpace t) .value

/-! ## How much is used up -/

section

variable {n : Nat} {t rest rest' : Text} {form : Form}

theorem length_skipSpace_le (t : Text) : (skipSpace t).length ≤ t.length :=
  (List.dropWhile_suffix _).length_le

theorem length_lt_of_skipSpace {c : Char} (h : skipSpace t = c :: rest) :
    rest.length < t.length := by
  have hle := length_skipSpace_le t
  rw [h, List.length_cons] at hle
  exact hle

theorem memberName_advances (t : Text) : Advances t (memberName t) := by
  unfold memberName
  split
  · next u =>
    have hname := stringAfterQuote_advances u
    split
    · next e he => exact fun heq => hname.ne_tooDeep (heq ▸ he)
    · next name after hafter =>
      have hlength := hname.length_lt hafter
      split
      · next rest hcolon =>
        have hrest := length_lt_of_skipSpace hcolon
        have hspace := length_skipSpace_le rest
        show (skipSpace rest).length < u.length + 1
        omega
      · exact advances_malformed _ _ _
  · exact advances_malformed _ _ _

/-- A stretch of a document has characters. -/
theorem Reads.length_lt (h : Reads n t form rest) : rest.length < t.length := by
  induction h with
  | str h => exact Nat.lt_succ_of_lt ((stringAfterQuote_advances _).length_lt h)
  | scalar h => exact (scalar_advances _).length_lt h
  | emptyArray h | emptyObject h => exact Nat.lt_succ_of_lt (length_lt_of_skipSpace h)
  | array _ ih | object _ ih =>
    exact Nat.lt_succ_of_lt (Nat.lt_of_lt_of_le ih (length_skipSpace_le _))
  | ofObject _ ih => exact ih
  | lastItem _ hclose ih => exact Nat.lt_trans (length_lt_of_skipSpace hclose) ih
  | item _ hcomma _ ih ih' =>
    exact Nat.lt_trans ih' (Nat.lt_of_le_of_lt (length_skipSpace_le _)
      (Nat.lt_trans (length_lt_of_skipSpace hcomma) ih))
  | lastMember hname _ hclose ih =>
    exact Nat.lt_trans (length_lt_of_skipSpace hclose)
      (Nat.lt_trans ih ((memberName_advances _).length_lt hname))
  | member hname _ hcomma _ ih ih' =>
    exact Nat.lt_trans ih' (Nat.lt_of_le_of_lt (length_skipSpace_le _)
      (Nat.lt_trans (length_lt_of_skipSpace hcomma)
        (Nat.lt_trans ih ((memberName_advances _).length_lt hname))))

/-- What comes after a stretch and a mark is shorter. -/
theorem Reads.length_after {c : Char} (h : Reads n t form rest)
    (hmark : skipSpace rest = c :: rest') : (skipSpace rest').length < t.length :=
  Nat.lt_of_le_of_lt (length_skipSpace_le _)
    (Nat.lt_trans (length_lt_of_skipSpace hmark) h.length_lt)

/-- A text that starts with a value is not the end of an array. -/
theorem Reads.value_ne_close {n : Nat} {t u rest : Text} {v : Json}
    (h : Reads n t (.value v) rest) : t ≠ ']' :: u := by
  rintro rfl
  cases h with
  | scalar h => exact not_mem_of_scalar h (by simp)
  | ofObject h => cases h

/-- A stretch of a document keeps to the levels there are or exceeds them. -/
theorem Reads.keeps_or_exceeds {n : Nat} {t rest : Text} {form : Form}
    (h : Reads n t form rest) (m : Nat) : Reads m t form rest ∨ Exceeds m t form.kind := by
  induction h generalizing m with
  | str h => exact .inl (.str h)
  | scalar h => exact .inl (.scalar h)
  | emptyArray h =>
    cases m with
    | zero => exact .inr .array
    | succ m => exact .inl (.emptyArray h)
  | array h ih =>
    cases m with
    | zero => exact .inr .array
    | succ m => exact (ih m).imp .array .inArray
  | emptyObject h =>
    cases m with
    | zero => exact .inr .object
    | succ m => exact .inl (.emptyObject h)
  | object h ih =>
    cases m with
    | zero => exact .inr .object
    | succ m => exact (ih m).imp .object .inObject
  | ofObject h ih => exact (ih m).imp_left .ofObject
  | lastItem h hclose ih => exact (ih m).imp (.lastItem · hclose) .inItem
  | item h hcomma h' ih ih' =>
    rcases ih m with hkeeps | hexceeds
    · exact (ih' m).imp (.item hkeeps hcomma) (.afterItem hkeeps hcomma)
    · exact .inr (.inItem hexceeds)
  | lastMember hname h hclose ih => exact (ih m).imp (.lastMember hname · hclose) (.inMember hname)
  | member hname h hcomma h' ih ih' =>
    rcases ih m with hkeeps | hexceeds
    · exact (ih' m).imp (.member hname hkeeps hcomma) (.afterMember hname hkeeps hcomma)
    · exact .inr (.inMember hname hexceeds)

/-- Brackets that open and do not close exceed the levels there are, if they are more. -/
theorem exceeds_replicate {k : Nat} (h : n < k) (t : Text) :
    Exceeds n (List.replicate k '[' ++ t) .value := by
  induction n generalizing k with
  | zero =>
    obtain ⟨k, rfl⟩ := Nat.exists_eq_succ_of_ne_zero (Nat.ne_of_gt h)
    exact .array
  | succ n ih =>
    obtain ⟨k, rfl⟩ := Nat.exists_eq_succ_of_ne_zero (Nat.ne_of_gt (Nat.zero_lt_of_lt h))
    have hmore : n < k := Nat.lt_of_succ_lt_succ h
    refine .inArray (.inItem ?_)
    have hskip : skipSpace (List.replicate k '[' ++ t) = List.replicate k '[' ++ t := by
      obtain ⟨k, rfl⟩ := Nat.exists_eq_succ_of_ne_zero (Nat.ne_of_gt (Nat.zero_lt_of_lt hmore))
      rfl
    exact hskip ▸ ih hmore

end

end Typist.Json
