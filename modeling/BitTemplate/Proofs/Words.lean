import BitTemplate.Program.Text
import BitTemplate.Text.Blank
import BitTemplate.Text.Identifier

/-!
The words in the text of a function. A word is a longest run of characters that may stand in a
name, if it starts as a name does, so that numbers are no words. The text of a function holds its
own name, its variables, the names that it calls, the letters that it quotes and a few words of the
language, and no other word.
-/
namespace BitTemplate

namespace Text

def isBreak (c : Char) : Bool := !isNamePart c

def wordsOf (cs : List Char) : List String :=
  ((cs.splitOnP isBreak).filter fun run => run.head?.any isNameStart).map String.ofList

def words (s : String) : List String := wordsOf s.toList

/-- Whether a text starts with a character that is in no word. -/
def opens (s : String) : Bool := s.toList.head?.any isBreak

/-- Whether a text ends with a character that is in no word. -/
def closes (s : String) : Bool := s.toList.getLast?.any isBreak

/-- A break belongs to no word, so that the words before it and after it are apart. -/
theorem wordsOf_append_break (xs ys : List Char) {c : Char} (h : isBreak c) :
    wordsOf (xs ++ c :: ys) = wordsOf xs ++ wordsOf ys := by
  rw [wordsOf, List.splitOnP_append_cons _ _ h, List.filter_append, List.map_append]
  rfl

theorem wordsOf_cons_break (ys : List Char) {c : Char} (h : isBreak c) :
    wordsOf (c :: ys) = wordsOf ys :=
  wordsOf_append_break [] ys h

theorem wordsOf_concat_break (xs : List Char) {c : Char} (h : isBreak c) :
    wordsOf (xs ++ [c]) = wordsOf xs := by
  rw [wordsOf_append_break xs [] h]
  exact List.append_nil _

theorem words_append_of_opens (s : String) {t : String} (h : opens t) :
    words (s ++ t) = words s ++ words t := by
  unfold words opens at *
  rw [String.toList_append]
  cases hlist : t.toList with
  | nil => simp [hlist] at h
  | cons c rest =>
    have hc : isBreak c := by simpa [hlist] using h
    rw [wordsOf_append_break _ _ hc, wordsOf_cons_break _ hc]

theorem words_append_of_closes {s : String} (h : closes s) (t : String) :
    words (s ++ t) = words s ++ words t := by
  unfold words closes at *
  rw [String.toList_append]
  rcases List.eq_nil_or_concat s.toList with hlist | ⟨rest, c, hlist⟩
  · simp [hlist] at h
  · have hc : isBreak c := by simpa [hlist] using h
    rw [hlist, List.concat_eq_append, wordsOf_concat_break _ hc, List.append_assoc]
    exact wordsOf_append_break _ _ hc

theorem closes_append (s : String) {t : String} (h : closes t) : closes (s ++ t) := by
  unfold closes at *
  rw [String.toList_append]
  rcases List.eq_nil_or_concat t.toList with hlist | ⟨rest, c, hlist⟩
  · simp [hlist] at h
  · simpa [hlist] using h

/-- A text of signs, which starts and ends with a break and has no words. -/
def isMark (s : String) : Bool := opens s && closes s && (words s).isEmpty

theorem words_mark_append {mark : String} (h : isMark mark) (s : String) :
    words (mark ++ s) = words s := by
  simp only [isMark, Bool.and_eq_true, List.isEmpty_iff] at h
  rw [words_append_of_closes h.1.2, h.2, List.nil_append]

theorem words_append_mark (s : String) {mark : String} (h : isMark mark) :
    words (s ++ mark) = words s := by
  simp only [isMark, Bool.and_eq_true, List.isEmpty_iff] at h
  rw [words_append_of_opens s h.1.1, h.2, List.append_nil]

/-- Signs between two texts keep their words apart. -/
theorem words_append_mark_append {mark : String} (h : isMark mark) (s t : String) :
    words (s ++ mark ++ t) = words s ++ words t := by
  have hcloses : closes mark := by
    simp only [isMark, Bool.and_eq_true] at h
    exact h.1.2
  rw [words_append_of_closes (closes_append s hcloses), words_append_mark s h]

theorem words_intercalate {mark : String} (h : isMark mark) (texts : List String) :
    words (mark.intercalate texts) = texts.flatMap words := by
  induction texts with
  | nil => rfl
  | cons s rest ih =>
    cases rest with
    | nil => simp
    | cons t rest =>
      rw [String.intercalate_cons_cons, words_append_mark_append h, ih]
      rfl

theorem isFreeName_iff {s : String} : isFreeName s ↔ isIdentifier s ∧ s ∉ keywords := by
  simp [isFreeName]

/-- A name is one word. -/
theorem words_of_isIdentifier {s : String} (h : isIdentifier s) : words s = [s] := by
  unfold isIdentifier at h
  unfold words
  cases hlist : s.toList with
  | nil => simp [hlist] at h
  | cons c rest =>
    simp only [hlist, Bool.and_eq_true, List.all_eq_true] at h
    have hparts : ∀ c' ∈ c :: rest, isBreak c' = false := by
      rw [List.forall_mem_cons]
      exact ⟨by simp [isBreak, isNamePart, h.1], fun c' hc' => by simp [isBreak, h.2 c' hc']⟩
    have hword : String.ofList (c :: rest) = s := by rw [← hlist, String.ofList_toList]
    rw [wordsOf, List.splitOnP_eq_singleton hparts]
    simp [h.1, hword]

/-- A run that does not start as a name does is no word. -/
theorem words_of_number {s : String} (hparts : ∀ c ∈ s.toList, isNamePart c)
    (hhead : s.toList.head?.any isNameStart = false) : words s = [] := by
  have hbreaks : ∀ c ∈ s.toList, isBreak c = false := fun c hc => by simp [isBreak, hparts c hc]
  rw [words, wordsOf, List.splitOnP_eq_singleton hbreaks]
  simp [hhead]

theorem bounds_of_isAlphanum {c : Char} (h : c.isAlphanum) : 48 ≤ c.toNat ∧ c.toNat ≤ 122 := by
  delta Char.isAlphanum Char.isAlpha Char.isUpper Char.isLower Char.isDigit at h
  simp only [Bool.or_eq_true, Bool.and_eq_true, decide_eq_true_eq, UInt32.le_iff_toNat_le] at h
  change ((65 ≤ c.toNat ∧ c.toNat ≤ 90) ∨ (97 ≤ c.toNat ∧ c.toNat ≤ 122)) ∨
    (48 ≤ c.toNat ∧ c.toNat ≤ 57) at h
  omega

theorem toNat_of_isAlphanum {c : Char} (h : c.isAlphanum) : c.toNat < 128 := by
  have hbounds := bounds_of_isAlphanum h
  omega

theorem not_blank_of_isAlphanum {c : Char} (h : c.isAlphanum) : isBlank c = false := by
  have hbounds := bounds_of_isAlphanum h
  simp only [isBlank, Bool.or_eq_false_iff, Bool.and_eq_false_iff, decide_eq_false_iff_not,
    beq_eq_false_iff_ne]
  omega

theorem isNameStart_of_isAlpha {c : Char} (h : c.isAlpha) : isNameStart c := by
  have hascii : c.toNat < 128 := toNat_of_isAlphanum (by simp [Char.isAlphanum, h])
  simp [isNameStart, hascii, h]

theorem isNamePart_of_isAlphanum {c : Char} (h : c.isAlphanum) : isNamePart c := by
  have hascii := toNat_of_isAlphanum h
  simp only [Char.isAlphanum, Bool.or_eq_true] at h
  rcases h with h | h
  · simp [isNamePart, isNameStart_of_isAlpha h]
  · simp [isNamePart, hascii, h]

theorem isNameStart_of_isDigit {c : Char} (h : c.isDigit) : isNameStart c = false := by
  have hascii : c.toNat < 128 := toNat_of_isAlphanum (by simp [Char.isAlphanum, h])
  have halpha : c.isAlpha = false := by
    rw [Bool.eq_false_iff]
    intro halpha
    delta Char.isAlpha Char.isUpper Char.isLower at halpha
    delta Char.isDigit at h
    simp only [Bool.or_eq_true, Bool.and_eq_true, decide_eq_true_eq, UInt32.le_iff_toNat_le]
      at h halpha
    change 48 ≤ c.toNat ∧ c.toNat ≤ 57 at h
    change (65 ≤ c.toNat ∧ c.toNat ≤ 90) ∨ (97 ≤ c.toNat ∧ c.toNat ≤ 122) at halpha
    omega
  have hunderscore : c ≠ '_' := by
    rintro rfl
    exact absurd h (by decide)
  simp [isNameStart, hascii, halpha, hunderscore]

theorem isDigit_of_mem_decimalNat {n : Nat} {c : Char} (h : c ∈ (decimalNat n).toList) :
    c.isDigit := by
  rw [decimalNat, String.toList_ofList] at h
  exact Nat.isDigit_of_mem_toDigits (by decide) (by decide) h

theorem isNamePart_of_mem_decimalNat {n : Nat} {c : Char} (h : c ∈ (decimalNat n).toList) :
    isNamePart c :=
  isNamePart_of_isAlphanum (by simp [Char.isAlphanum, isDigit_of_mem_decimalNat h])

theorem not_blank_of_mem_decimalNat {n : Nat} {c : Char} (h : c ∈ (decimalNat n).toList) :
    isBlank c = false :=
  not_blank_of_isAlphanum (by simp [Char.isAlphanum, isDigit_of_mem_decimalNat h])

theorem words_decimalNat (n : Nat) : words (decimalNat n) = [] := by
  refine words_of_number (fun c hc => isNamePart_of_mem_decimalNat hc) ?_
  cases hlist : (decimalNat n).toList with
  | nil => rfl
  | cons c rest =>
    exact isNameStart_of_isDigit (isDigit_of_mem_decimalNat (hlist ▸ List.mem_cons_self))

/-- A number after a name is part of the name. -/
theorem isIdentifier_append_decimalNat {s : String} (h : isIdentifier s) (n : Nat) :
    isIdentifier (s ++ decimalNat n) := by
  unfold isIdentifier at *
  rw [String.toList_append]
  cases hlist : s.toList with
  | nil => simp [hlist] at h
  | cons c rest =>
    simp only [hlist, Bool.and_eq_true, List.all_eq_true] at h
    simp only [List.cons_append, List.all_append, Bool.and_eq_true, List.all_eq_true]
    exact ⟨h.1, h.2, fun c hc => isNamePart_of_mem_decimalNat hc⟩

theorem isAlphanum_of_mem_lastDigits {count n : Nat} {c : Char} (h : c ∈ lastDigits 16 count n) :
    c.isAlphanum := by
  have hdigits : ∀ d < 16, (digitChar d).isAlphanum := by decide
  obtain ⟨d, hd, rfl⟩ := exists_digit_of_mem_lastDigits (by decide) h
  exact hdigits d hd

theorem words_fixedHex (n width : Nat) : words (fixedHex n width) = [] := by
  have hlist : (fixedHex n width).toList = '0' :: 'x' :: lastDigits 16 (hexDigitCount width) n := by
    simp [fixedHex]
  refine words_of_number ?_ ?_
  · rw [hlist, List.forall_mem_cons, List.forall_mem_cons]
    exact ⟨by decide, by decide,
      fun c hc => isNamePart_of_isAlphanum (isAlphanum_of_mem_lastDigits hc)⟩
  · rw [hlist]
    rfl

end Text

namespace Letter

open Text

theorem not_blank (a : Letter) : isBlank a.char = false :=
  not_blank_of_isAlphanum (by simp [Char.isAlphanum, a.isAlpha])

theorem words_text (a : Letter) : words a.text = [a.text] := by
  refine words_of_isIdentifier ?_
  simp [isIdentifier, text, isNameStart_of_isAlpha a.isAlpha]

/-- A letter is quoted as it is. -/
theorem quoted_eq (a : Letter) : a.quoted = "'" ++ a.text ++ "'" := by
  have hne {c : Char} (hc : c.isAlpha = false) : a.char ≠ c := by
    intro h
    rw [← h, a.isAlpha] at hc
    cases hc
  have hprintable : isPrintable a.char := by
    have hbounds := Text.bounds_of_isAlphanum (c := a.char) (by simp [Char.isAlphanum, a.isAlpha])
    have hascii : a.char.toNat < 128 := by omega
    simp only [isPrintable, if_pos hascii, Bool.and_eq_true, decide_eq_true_eq]
    omega
  have hmark : enclosingMark [a.char] = '\x27' := by
    simp [enclosingMark, (hne (c := '\x27') (by decide)).symm]
  have hescape : escape '\x27' a.char = [a.char] := by
    simp [escape, hne (c := '\x27') (by decide), hne (c := '\\') (by decide),
      hne (c := '\t') (by decide), hne (c := '\n') (by decide), hne (c := '\r') (by decide),
      hprintable]
  apply String.toList_inj.mp
  simp [quoted, quote, text, hmark, hescape]

theorem words_quoted (a : Letter) : words a.quoted = [a.text] := by
  rw [quoted_eq, words_append_mark _ (by decide), words_mark_append (by decide), words_text]

end Letter

namespace Program

open Text

/-- A variable is one word. -/
theorem Name.words_text (x : Name) : words x.text = [x.text] := by
  cases x with
  | value => exact words_of_isIdentifier (by decide)
  | target => exact words_of_isIdentifier (by decide)
  | letter a => exact a.words_text
  | input index => exact words_of_isIdentifier (isIdentifier_append_decimalNat (by decide) index)
  | saturated index =>
    exact words_of_isIdentifier (isIdentifier_append_decimalNat (by decide) index)

theorem Constant.words_text (c : Constant) : words c.text = [] := words_fixedHex c.value c.width

/-! The names in a function, part by part. -/

def Term.names : Term → List Name
  | .name x => [x]
  | .constant _ => []
  | .mask t _ => t.names
  | .left t _ => t.names
  | .right t _ => t.names

theorem Term.words_text (t : Term) : words t.text = t.names.map Name.text := by
  induction t with
  | name x => exact x.words_text
  | constant c => exact c.words_text
  | mask t c ih =>
    rw [text, words_append_mark _ (by decide), words_append_mark_append (by decide),
      words_mark_append (by decide), ih, c.words_text, List.append_nil]
    rfl
  | left t distance ih =>
    rw [text, words_append_mark _ (by decide), words_append_mark_append (by decide),
      words_mark_append (by decide), ih, words_decimalNat, List.append_nil]
    rfl
  | right t distance ih =>
    rw [text, words_append_mark _ (by decide), words_append_mark_append (by decide),
      words_mark_append (by decide), ih, words_decimalNat, List.append_nil]
    rfl

theorem words_unionText (terms : List Term) :
    words (unionText terms) = (terms.flatMap Term.names).map Name.text := by
  cases terms with
  | nil => decide
  | cons t rest =>
    rw [unionText, words_intercalate (by decide), List.flatMap_map, List.map_flatMap]
    · simp only [Term.words_text]
    · exact List.cons_ne_nil _ _

def Expr.names : Expr → List Name
  | .union terms => terms.flatMap Term.names
  | .bounded terms _ => terms.flatMap Term.names
  | .test x _ => [x]

theorem Expr.words_text (e : Expr) : words e.text = e.names.map Name.text := by
  cases e with
  | union terms => exact words_unionText terms
  | bounded terms c =>
    rw [text, words_append_mark_append (by decide), words_mark_append (by decide),
      words_unionText, c.words_text, List.append_nil]
    rfl
  | test x c =>
    have hzero : words ") != 0" = [] := by decide
    rw [text, words_append_of_opens _ (by decide), words_append_mark_append (by decide),
      words_mark_append (by decide), x.words_text, c.words_text, hzero]
    rfl

namespace Step

/-- The variables that a step mentions, beside the one that it assigns. A letter may be quoted. -/
def mentions : Step → List Name
  | .refuse x field _ => [x, .letter field]
  | .clamp _ source _ => [source]
  | .assign _ e => e.names

def assigns : Step → List Name
  | .refuse _ _ _ => []
  | .clamp x _ _ => [x]
  | .assign x _ => [x]

/-- The functions that a step calls. -/
def calls : Step → List String
  | .refuse _ _ _ => ["overflow"]
  | .clamp _ _ _ => ["min"]
  | .assign _ _ => []

/-- The words of a step in the order of its text. -/
def words : Step → List String
  | .refuse x field _ => ["if", x.text, "overflow", field.text, x.text]
  | .clamp x source _ => [x.text, "min", source.text]
  | .assign x e => x.text :: e.names.map Name.text

end Step

theorem words_exprs (items : List Expr) :
    (items.map Expr.text).flatMap words = (items.flatMap Expr.names).map Name.text := by
  rw [List.flatMap_map, List.map_flatMap]
  simp only [Expr.words_text]

theorem words_tupleText (texts : List String) : words (tupleText texts) = texts.flatMap words := by
  unfold tupleText
  split
  · rw [words_append_mark _ (by decide), words_mark_append (by decide), List.flatMap_singleton]
  · rw [words_append_mark _ (by decide), words_mark_append (by decide),
      words_intercalate (by decide)]

namespace Return

def names : Return → List Name
  | .value e => e.names
  | .tuple items => items.flatMap Expr.names
  | .record _ items => items.flatMap Expr.names

def record? : Return → Option String
  | .record name _ => some name
  | _ => none

theorem words_text (result : Return) (h : ∀ r, result.record? = some r → isIdentifier r) :
    Text.words result.text = result.record?.toList ++ result.names.map Name.text := by
  cases result with
  | value e => exact e.words_text
  | tuple items => exact (words_tupleText _).trans (words_exprs items)
  | record name items =>
    rw [text, words_append_mark _ (by decide), words_append_mark_append (by decide),
      words_of_isIdentifier (h name rfl), words_intercalate (by decide), words_exprs]
    rfl

end Return

end Program

namespace Text.Listing

/-- Whether all lines of a listing are ended. -/
def Ended (l : Listing) : Prop := l.text = "" ∨ closes l.text

theorem wordsOf_spaces (n : Nat) (cs : List Char) :
    wordsOf (List.replicate n ' ' ++ cs) = wordsOf cs := by
  induction n with
  | zero => rfl
  | succ n ih => rw [List.replicate_succ, List.cons_append, wordsOf_cons_break _ (by decide), ih]

theorem words_append {l : Listing} (h : l.Ended) (code : String) :
    words (l.append code).text = words l.text ++ words code := by
  have hcode : words (indentation l.level ++ code) = words code := by
    unfold words
    rw [indentation, String.toList_append, String.toList_ofList, wordsOf_spaces]
  rw [append, words_append_mark _ (by decide), String.append_assoc]
  rcases h with h | h
  · rw [h, String.empty_append, hcode]
    rfl
  · rw [words_append_of_closes h, hcode]

theorem ended_append (l : Listing) (code : String) : (l.append code).Ended :=
  .inr (closes_append _ (by decide))

/-- A line and one below it that is indented. -/
theorem words_append_nested {l : Listing} (h : l.Ended) (outer inner : String) :
    words ((l.append outer).indent.append inner).dedent.text =
      words l.text ++ words outer ++ words inner := by
  have hended : (l.append outer).indent.Ended := l.ended_append outer
  exact (words_append hended inner).trans (congrArg (· ++ words inner) (words_append h outer))

end Text.Listing

namespace Program

open Text

/-- A step adds its words to a listing. -/
theorem Step.words_write {l : Listing} (h : l.Ended) (step : Step) :
    Text.words (step.write l).text = Text.words l.text ++ step.words ∧ (step.write l).Ended := by
  cases step with
  | refuse x field limit =>
    have htest : Text.words ("if " ++ x.text ++ " > " ++ limit.text ++ ":") = ["if", x.text] := by
      have hif : Text.words "if " = ["if"] := by decide
      rw [words_append_mark _ (by decide), words_append_mark_append (by decide),
        words_append_of_closes (by decide), hif, x.words_text, limit.words_text]
      rfl
    have hcall : Text.words ("overflow(" ++ field.quoted ++ ", " ++ x.text ++ ", " ++
        decimalNat limit.width ++ ")") = ["overflow", field.text, x.text] := by
      have hoverflow : Text.words "overflow(" = ["overflow"] := by decide
      rw [words_append_mark _ (by decide), words_append_mark_append (by decide),
        words_append_mark_append (by decide), words_append_of_closes (by decide), hoverflow,
        field.words_quoted, x.words_text, words_decimalNat]
      rfl
    refine ⟨?_, Listing.ended_append _ _⟩
    rw [write, Listing.words_append_nested h, htest, hcall, List.append_assoc]
    rfl
  | clamp x source limit =>
    have hline : Text.words (x.text ++ " = min(" ++ source.text ++ ", " ++ limit.text ++ ")") =
        [x.text, "min", source.text] := by
      have hmin : Text.words " = min(" = ["min"] := by decide
      rw [words_append_mark _ (by decide), words_append_mark_append (by decide),
        words_append_of_closes (closes_append _ (by decide)), words_append_of_opens _ (by decide),
        hmin, x.words_text, source.words_text, limit.words_text]
      rfl
    refine ⟨?_, l.ended_append _⟩
    rw [write, Listing.words_append h, hline]
    rfl
  | assign x e =>
    have hline : Text.words (x.text ++ " = " ++ e.text) = x.text :: e.names.map Name.text := by
      rw [words_append_mark_append (by decide), x.words_text, e.words_text]
      rfl
    refine ⟨?_, l.ended_append _⟩
    rw [write, Listing.words_append h, hline]
    rfl

theorem Step.words_foldl_write {l : Listing} (h : l.Ended) (steps : List Step) :
    Text.words (steps.foldl write l).text = Text.words l.text ++ steps.flatMap Step.words ∧
      (steps.foldl write l).Ended := by
  induction steps generalizing l with
  | nil => exact ⟨(List.append_nil _).symm, h⟩
  | cons step rest ih =>
    obtain ⟨hwords, hended⟩ := words_write h step
    obtain ⟨ihwords, ihended⟩ := ih hended
    rw [List.foldl_cons, List.flatMap_cons, ← List.append_assoc, ← hwords]
    exact ⟨ihwords, ihended⟩

namespace Function

theorem words_header (f : Function) (h : isIdentifier f.name) :
    words f.header = "def" :: f.name :: f.params.map Name.text := by
  have hdef : words "def " = ["def"] := by decide
  have hparams : (f.params.map Name.text).flatMap words = f.params.map Name.text := by
    rw [List.flatMap_map, List.map_eq_flatMap]
    simp only [Name.words_text]
  rw [header, words_append_mark _ (by decide), words_append_mark_append (by decide),
    words_append_of_closes (by decide), hdef, words_of_isIdentifier h,
    words_intercalate (by decide), hparams]
  rfl

/-- The words of a function after its name, in the order of its text. -/
def laterWords (f : Function) : List String :=
  f.params.map Name.text ++ f.steps.flatMap Step.words ++
    "return" :: (f.result.record?.toList ++ f.result.names.map Name.text)

theorem words_text (f : Function) (hname : isIdentifier f.name)
    (hrecord : ∀ r, f.result.record? = some r → isIdentifier r) :
    words f.text = "def" :: f.name :: f.laterWords := by
  have hreturn : words ("return " ++ f.result.text) =
      "return" :: (f.result.record?.toList ++ f.result.names.map Name.text) := by
    rw [words_append_of_closes (by decide), f.result.words_text hrecord]
    rfl
  have hstart : (({} : Listing).append f.header).indent.Ended := Listing.ended_append _ _
  obtain ⟨hsteps, hended⟩ := Step.words_foldl_write hstart f.steps
  have hheader : words (({} : Listing).append f.header).indent.text =
      "def" :: f.name :: f.params.map Name.text := by
    rw [← words_header f hname]
    exact Listing.words_append (.inl rfl) f.header
  rw [hheader] at hsteps
  have htext := Listing.words_append hended ("return " ++ f.result.text)
  rw [hsteps, hreturn] at htext
  exact htext

end Function

end Program

end BitTemplate
