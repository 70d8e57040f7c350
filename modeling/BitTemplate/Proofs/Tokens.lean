import BitTemplate.Proofs.Script
import BitTemplate.Proofs.Words
import Mathlib.Data.List.Basic
import Mathlib.Tactic.IntervalCases

/-!
Writing tokens and reading them. A number in hexadecimal digits of a width that it fits, or in
decimal, is read as the same number. A text stands for some tokens if they are read off it in front
of anything that does not go on with its last word; signs between spaces, parentheses, commas and
quoted letters end the word before them, so texts with such a mark between them stand for the tokens
of all three. Whatever can be read as tokens is a single line.
-/
namespace BitTemplate.Script

open Text

theorem digit?_digitChar {d : Nat} (h : d < 16) : digit? (Text.digitChar d) = some d := by
  interval_cases d <;> rfl

theorem digit?_nat_digitChar {d : Nat} (h : d < 10) : digit? d.digitChar = some d := by
  interval_cases d <;> rfl

theorem numberIn?_concat (radix : Nat) (digits : List Char) (c : Char) :
    numberIn? radix (digits ++ [c]) = (numberIn? radix digits).bind fun n =>
      (digit? c).bind fun d => if d < radix then some (radix * n + d) else none := by
  rw [numberIn?, List.foldlM_append]
  simp [numberIn?, bind]

/-- The last digits of a number write what is left of it there. -/
theorem numberIn?_lastDigits {radix : Nat} (hpos : 0 < radix) (hradix : radix ≤ 16)
    (count n : Nat) : numberIn? radix (lastDigits radix count n) = some (n % radix ^ count) := by
  induction count generalizing n with
  | zero =>
    rw [pow_zero, Nat.mod_one]
    rfl
  | succ count ih =>
    have hlt : n % radix < radix := Nat.mod_lt n hpos
    rw [lastDigits_succ, numberIn?_concat, ih, digit?_digitChar (hlt.trans_le hradix),
      Option.bind_some, Option.bind_some, if_pos hlt, pow_succ', Nat.mod_mul, Nat.add_comm]

theorem numberIn?_toDigits (n : Nat) : numberIn? 10 (Nat.toDigits 10 n) = some n := by
  induction n using Nat.strong_induction_on with
  | _ n ih =>
    by_cases hlt : n < 10
    · rw [Nat.toDigits_of_lt_base hlt, ← List.nil_append [_], numberIn?_concat,
        digit?_nat_digitChar hlt]
      simp [numberIn?, hlt]
    · have hmod : n % 10 < 10 := Nat.mod_lt n (by decide)
      rw [Nat.toDigits_of_base_le (by decide) (by omega), numberIn?_concat, ih _ (by omega),
        digit?_nat_digitChar hmod, Option.bind_some, Option.bind_some, if_pos hmod]
      congr 1
      omega

/-- Digits in decimal start with zero for zero only. -/
theorem head?_toDigits (n : Nat) : (Nat.toDigits 10 n).head? = some '0' ↔ n = 0 := by
  induction n using Nat.strong_induction_on with
  | _ n ih =>
    by_cases hlt : n < 10
    · rw [Nat.toDigits_of_lt_base hlt]
      interval_cases n <;> decide
    · have hne : Nat.toDigits 10 (n / 10) ≠ [] := Nat.toDigits_ne_nil
      rw [Nat.toDigits_of_base_le (by decide) (by omega), List.head?_append_of_ne_nil _ hne,
        ih _ (by omega)]
      omega

theorem number?_decimalNat (n : Nat) : number? (decimalNat n).toList = some n := by
  rw [decimalNat, String.toList_ofList]
  have hnumber := numberIn?_toDigits n
  have hhead := head?_toDigits n
  by_cases hzero : n = 0
  · subst hzero
    rfl
  · cases hdigits : Nat.toDigits 10 n with
    | nil => exact absurd hdigits Nat.toDigits_ne_nil
    | cons c rest =>
      rw [hdigits] at hnumber hhead
      have hc : c ≠ '0' := by
        intro heq
        rw [heq] at hhead
        exact hzero (hhead.mp rfl)
      unfold number?
      split
      · rename_i heq
        exact absurd (List.cons.inj heq).1 hc
      · rename_i heq
        exact absurd (List.cons.inj heq).1 hc
      · rename_i c' rest' _ _ heq
        obtain ⟨rfl, rfl⟩ := List.cons.inj heq
        rw [if_neg hc, hnumber]
      · rename_i heq
        cases heq

/-- The hexadecimal digits of a width are enough for its numbers. -/
theorem lt_pow_hexDigitCount {n width : Nat} (h : n < 2 ^ width) :
    n < 16 ^ hexDigitCount width := by
  have hpow : (16 : Nat) ^ hexDigitCount width = 2 ^ (4 * hexDigitCount width) := by
    rw [pow_mul]
    rfl
  rw [hpow]
  refine h.trans_le (Nat.pow_le_pow_right (by decide) ?_)
  unfold hexDigitCount
  omega

theorem number?_fixedHex {n width : Nat} (h : n < 2 ^ width) :
    number? (fixedHex n width).toList = some n := by
  have hlist : (fixedHex n width).toList = '0' :: 'x' :: lastDigits 16 (hexDigitCount width) n := by
    simp [fixedHex]
  have hcount : lastDigits 16 (hexDigitCount width) n ≠ [] := by
    intro hnil
    have hlength := length_lastDigits 16 (hexDigitCount width) n
    rw [hnil, hexDigitCount] at hlength
    simp at hlength
    omega
  rw [hlist, number?, if_neg (by simpa using hcount), numberIn?_lastDigits (by decide) le_rfl,
    Nat.mod_eq_of_lt (lt_pow_hexDigitCount h)]

/-- Whether a text cannot go on with the last word of the text before it. -/
def Ends (rest : List Char) : Prop := ∀ c ∈ rest.head?, isNamePart c = false

/-- A text that stands for some tokens, if what follows does not go on with its last word. -/
def Lexes (s : String) (tokens : List Token) : Prop :=
  ∀ rest, Ends rest → tokens? (s.toList ++ rest) = (tokens? rest).map (tokens ++ ·)

/-- A text that stands for some tokens whatever follows, and that is no part of a word. -/
structure Marks (s : String) (tokens : List Token) : Prop where
  opens : opens s = true
  lexes : ∀ rest, tokens? (s.toList ++ rest) = (tokens? rest).map (tokens ++ ·)

theorem ends_of_opens {s : String} (h : opens s = true) (rest : List Char) :
    Ends (s.toList ++ rest) := by
  unfold opens at h
  cases hlist : s.toList with
  | nil => simp [hlist] at h
  | cons c cs =>
    have hc : isBreak c = true := by simpa [hlist] using h
    intro c' hc'
    simp only [List.cons_append, List.head?_cons, Option.mem_def, Option.some.injEq] at hc'
    subst hc'
    simpa [isBreak] using hc

theorem map_append_append (tokens tokens' : List Token) (x : Option (List Token)) :
    (x.map (tokens' ++ ·)).map (tokens ++ ·) = x.map (tokens ++ tokens' ++ ·) := by
  cases x <;> simp

namespace Marks

variable {s t : String} {tokens tokens' : List Token}

theorem toLexes (h : Marks s tokens) : Lexes s tokens := fun rest _ => h.lexes rest

/-- What follows a mark starts anew. -/
theorem append (h : Marks s tokens) (h' : Lexes t tokens') :
    Lexes (s ++ t) (tokens ++ tokens') := by
  intro rest hrest
  rw [String.toList_append, List.append_assoc, h.lexes, h' rest hrest, map_append_append]

theorem append_marks (h : Marks s tokens) (h' : Marks t tokens') :
    Marks (s ++ t) (tokens ++ tokens') := by
  refine ⟨?_, ?_⟩
  · have hopens := h.opens
    unfold Text.opens at hopens ⊢
    rw [String.toList_append]
    cases hlist : s.toList with
    | nil => simp [hlist] at hopens
    | cons c cs => simpa [hlist] using hopens
  · intro rest
    rw [String.toList_append, List.append_assoc, h.lexes, h'.lexes, map_append_append]

end Marks

namespace Lexes

variable {s t : String} {tokens tokens' : List Token}

/-- A mark ends a word. -/
theorem append_mark (h : Lexes s tokens) (h' : Marks t tokens') :
    Lexes (s ++ t) (tokens ++ tokens') := by
  intro rest _
  rw [String.toList_append, List.append_assoc, h _ (ends_of_opens h'.opens rest), h'.lexes,
    map_append_append]

/-- A mark between two texts parts them. -/
theorem mark {u : String} {tokens'' : List Token} (h : Lexes s tokens) (h' : Marks t tokens')
    (h'' : Lexes u tokens'') : Lexes (s ++ t ++ u) (tokens ++ tokens' ++ tokens'') := by
  intro rest hrest
  rw [String.toList_append, String.toList_append, List.append_assoc, List.append_assoc,
    h _ (ends_of_opens h'.opens _), h'.lexes, h'' rest hrest, map_append_append,
    map_append_append, List.append_assoc]

/-- All tokens of a text. -/
theorem tokens?_eq (h : Lexes s tokens) : tokens? s.toList = some tokens := by
  have hall := h [] (by simp [Ends])
  rw [List.append_nil] at hall
  rw [hall, tokens?]
  simp

theorem intercalate {mark : String} {comma : List Token} (hmark : Marks mark comma) {α : Type}
    {text : α → String} {tokensOf : α → List Token} (items : List α)
    (h : ∀ a ∈ items, Lexes (text a) (tokensOf a)) :
    Lexes (mark.intercalate (items.map text)) (comma.intercalate (items.map tokensOf)) := by
  induction items with
  | nil =>
    intro rest _
    simp
  | cons a items ih =>
    rw [List.forall_mem_cons] at h
    cases items with
    | nil => simpa using h.1
    | cons b items =>
      rw [List.map_cons, List.map_cons, List.map_cons, List.map_cons,
        String.intercalate_cons_cons, List.intercalate_cons_cons]
      exact h.1.mark hmark (ih h.2)

end Lexes

theorem tokens?_space (rest : List Char) : tokens? (' ' :: rest) = tokens? rest := by
  rw [tokens?, if_pos rfl]

theorem marks_space : Marks " " [] := by
  refine ⟨by decide, ?_⟩
  intro rest
  exact (tokens?_space rest).trans (by simp)

theorem tokens?_word {w rest : List Char} {token : Token} (hw : w ≠ [])
    (hparts : ∀ c ∈ w, isNamePart c = true) (hrest : Ends rest) (htoken : word? w = some token) :
    tokens? (w ++ rest) = (tokens? rest).map (token :: ·) := by
  obtain ⟨c, cs, rfl⟩ := List.exists_cons_of_ne_nil hw
  rw [List.forall_mem_cons] at hparts
  have hspace : c ≠ ' ' := by
    rintro rfl
    exact absurd hparts.1 (by decide)
  have hstop : rest.takeWhile isNamePart = [] ∧ rest.dropWhile isNamePart = rest := by
    cases rest with
    | nil => exact ⟨rfl, rfl⟩
    | cons c' cs' => simp [hrest c' rfl]
  rw [List.cons_append, tokens?, if_neg hspace, if_pos hparts.1,
    List.takeWhile_append_of_pos hparts.2, List.dropWhile_append_of_pos hparts.2, hstop.1, hstop.2,
    List.append_nil, htoken, Option.bind_some]

theorem apart_of_isSignPart {c : Char} (h : isSignPart c = true) :
    c ≠ ' ' ∧ isNamePart c = false := by
  simp only [isSignPart, List.contains_iff_mem, List.mem_cons, List.not_mem_nil, or_false] at h
  obtain rfl | rfl | rfl | rfl | rfl | rfl := h
  all_goals decide

/-- A sign ends at a space. -/
theorem tokens?_sign {w : List Char} {token : Token} (hw : w ≠ [])
    (hparts : ∀ c ∈ w, isSignPart c = true) (htoken : sign? w = some token) (rest : List Char) :
    tokens? (w ++ ' ' :: rest) = (tokens? rest).map (token :: ·) := by
  obtain ⟨c, cs, rfl⟩ := List.exists_cons_of_ne_nil hw
  rw [List.forall_mem_cons] at hparts
  obtain ⟨hspace, hname⟩ := apart_of_isSignPart hparts.1
  have hstop : (' ' :: rest).takeWhile isSignPart = [] ∧
      (' ' :: rest).dropWhile isSignPart = ' ' :: rest := ⟨rfl, rfl⟩
  rw [List.cons_append, tokens?, if_neg hspace, if_neg (by simp [hname]), if_pos hparts.1,
    List.takeWhile_append_of_pos hparts.2, List.dropWhile_append_of_pos hparts.2, hstop.1, hstop.2,
    List.append_nil, htoken, Option.bind_some, tokens?_space]

theorem tokens?_point {c : Char} {token : Token} (h : point? c = some token) (rest : List Char) :
    tokens? (c :: rest) = (tokens? rest).map (token :: ·) := by
  have hapart : c ≠ ' ' ∧ isNamePart c = false ∧ isSignPart c = false ∧ c ≠ '\'' := by
    unfold point? at h
    split at h
    · decide
    · decide
    · decide
    · decide
    · cases h
  obtain ⟨hspace, hname, hsign, hquote⟩ := hapart
  rw [tokens?, if_neg hspace, if_neg (by simp [hname]), if_neg (by simp [hsign]), if_neg hquote, h,
    Option.bind_some]

theorem lexes_word {s : String} {token : Token} (hparts : ∀ c ∈ s.toList, isNamePart c = true)
    (htoken : word? s.toList = some token) : Lexes s [token] := by
  intro rest hrest
  refine tokens?_word ?_ hparts hrest htoken
  intro hnil
  rw [hnil] at htoken
  cases htoken

/-- The characters of a name may stand in a name, and the first is no digit. -/
theorem parts_of_isIdentifier {s : String} (h : isIdentifier s = true) :
    (∀ c ∈ s.toList, isNamePart c = true) ∧ s.toList.head?.any Char.isDigit = false := by
  unfold isIdentifier at h
  cases hlist : s.toList with
  | nil => simp [hlist] at h
  | cons c rest =>
    simp only [hlist, Bool.and_eq_true, List.all_eq_true] at h
    constructor
    · rw [List.forall_mem_cons]
      exact ⟨by simp [isNamePart, h.1], h.2⟩
    · rw [List.head?_cons, Option.any_some, Bool.eq_false_iff]
      intro hdigit
      rw [isNameStart_of_isDigit hdigit] at h
      exact absurd h.1 (by decide)

theorem word?_of_isIdentifier {s : String} (h : isIdentifier s = true) :
    word? s.toList = some (if s ∈ keywords then .reserved s else .name s) := by
  obtain ⟨_, hhead⟩ := parts_of_isIdentifier h
  rw [word?, hhead, String.ofList_toList, if_neg (by decide), if_pos h]
  split <;> rfl

theorem lexes_name {s : String} (h : isFreeName s = true) : Lexes s [.name s] := by
  obtain ⟨hidentifier, hfree⟩ := isFreeName_iff.mp h
  refine lexes_word (parts_of_isIdentifier hidentifier).1 ?_
  rw [word?_of_isIdentifier hidentifier, if_neg hfree]

/-- A word of the language is followed by a space. -/
theorem lexes_reserved {s : String} (h : isIdentifier s = true) (hs : s ∈ keywords) {t : String}
    {tokens : List Token} (ht : Lexes t tokens) :
    Lexes (s ++ " " ++ t) (.reserved s :: tokens) := by
  have hword : Lexes s [.reserved s] := by
    refine lexes_word (parts_of_isIdentifier h).1 ?_
    rw [word?_of_isIdentifier h, if_pos hs]
  exact hword.mark marks_space ht

theorem lexes_decimalNat (n : Nat) : Lexes (decimalNat n) [.number n] := by
  refine lexes_word (fun c hc => isNamePart_of_mem_decimalNat hc) ?_
  have hhead : (decimalNat n).toList.head?.any Char.isDigit = true := by
    cases hlist : (decimalNat n).toList with
    | nil =>
      rw [decimalNat, String.toList_ofList] at hlist
      exact absurd hlist Nat.toDigits_ne_nil
    | cons c rest => exact isDigit_of_mem_decimalNat (hlist ▸ List.mem_cons_self ..)
  rw [word?, if_pos hhead, number?_decimalNat]
  rfl

theorem lexes_fixedHex {n width : Nat} (h : n < 2 ^ width) :
    Lexes (fixedHex n width) [.number n] := by
  have hlist : (fixedHex n width).toList = '0' :: 'x' :: lastDigits 16 (hexDigitCount width) n := by
    simp [fixedHex]
  refine lexes_word ?_ ?_
  · rw [hlist, List.forall_mem_cons, List.forall_mem_cons]
    exact ⟨by decide, by decide,
      fun c hc => isNamePart_of_isAlphanum (isAlphanum_of_mem_lastDigits hc)⟩
  · have hhead : (fixedHex n width).toList.head?.any Char.isDigit = true := by
      rw [hlist]
      rfl
    rw [word?, if_pos hhead, number?_fixedHex h]
    rfl

theorem marks_point {s : String} {c : Char} (hs : s.toList = [c]) {token : Token}
    (h : point? c = some token) : Marks s [token] := by
  refine ⟨?_, ?_⟩
  · unfold opens point? at *
    rw [hs]
    split at h
    · decide
    · decide
    · decide
    · decide
    · cases h
  · intro rest
    rw [hs]
    exact tokens?_point h rest

/-- A sign between spaces. -/
theorem marks_sign {s : String} {w : List Char} (hs : s.toList = ' ' :: (w ++ [' ']))
    {token : Token} (h : sign? w = some token) : Marks s [token] := by
  refine ⟨by rw [opens, hs]; rfl, ?_⟩
  have hw : w ≠ [] ∧ ∀ c ∈ w, isSignPart c = true := by
    unfold sign? at h
    split at h
    case h_8 => cases h
    all_goals simp [isSignPart]
  intro rest
  rw [hs, List.cons_append, tokens?_space, List.append_assoc]
  exact tokens?_sign hw.1 hw.2 h rest

/-- A comma and a space. -/
theorem marks_comma : Marks ", " [.comma] := by
  refine ⟨by decide, ?_⟩
  intro rest
  exact (tokens?_point rfl (' ' :: rest)).trans (by rw [tokens?_space]; rfl)

theorem plain_of_isAlpha {c : Char} (h : c.isAlpha = true) : c ≠ '\'' ∧ isPlain c = true := by
  have hne {d : Char} (hd : d.isAlpha = false) : c ≠ d := by
    rintro rfl
    exact absurd (h.symm.trans hd) (by decide)
  refine ⟨hne (by decide), ?_⟩
  simp [isPlain, isLineBreak, hne (d := '\\') (by decide), hne (d := '\n') (by decide),
    hne (d := '\r') (by decide)]

theorem marks_quoted (a : Letter) : Marks a.quoted [.text a.text] := by
  have hlist : a.quoted.toList = ['\'', a.char, '\''] := by
    rw [a.quoted_eq]
    simp [Letter.text]
  refine ⟨by rw [opens, hlist]; rfl, ?_⟩
  intro rest
  obtain ⟨hquote, hplain⟩ := plain_of_isAlpha a.isAlpha
  have htake : (a.char :: '\'' :: rest).takeWhile (· ≠ '\'') = [a.char] := by simp [hquote]
  have hdrop : (a.char :: '\'' :: rest).dropWhile (· ≠ '\'') = '\'' :: rest := by simp [hquote]
  rw [hlist, List.cons_append, List.cons_append, List.cons_append, List.nil_append, tokens?,
    if_neg (by decide), if_neg (by decide), if_neg (by decide), if_pos rfl, htake, hdrop,
    if_pos ⟨by simp [hplain], by simp⟩]
  rfl

/-- Whether a line holds no line break. -/
def Unbroken (cs : List Char) : Prop := ∀ c ∈ cs, isLineBreak c = false

theorem not_isLineBreak {p : Char → Bool} (hline : p '\n' = false) (hreturn : p '\r' = false)
    {c : Char} (h : p c = true) : isLineBreak c = false := by
  have hne {d : Char} (hd : p d = false) : c ≠ d := by
    rintro rfl
    exact absurd (h.symm.trans hd) (by decide)
  simp [isLineBreak, hne hline, hne hreturn]

theorem unbroken_run {p : Char → Bool} (hline : p '\n' = false) (hreturn : p '\r' = false)
    {cs : List Char} (h : Unbroken (cs.dropWhile p)) : Unbroken cs := by
  intro c hc
  rw [← cs.takeWhile_append_dropWhile (p := p), List.mem_append] at hc
  rcases hc with hc | hc
  · exact not_isLineBreak hline hreturn (List.mem_takeWhile_imp hc)
  · exact h c hc

/-- Only a line has tokens. -/
theorem unbroken_of_tokens? {cs : List Char} {tokens : List Token} (h : tokens? cs = some tokens) :
    Unbroken cs := by
  fun_induction tokens? cs generalizing tokens with
  | case1 => simp [Unbroken]
  | case2 rest ih => exact List.forall_mem_cons.mpr ⟨by decide, ih h⟩
  | case3 c rest _ hname ih =>
    obtain ⟨token, _, hrest⟩ := Option.bind_eq_some_iff.mp h
    obtain ⟨others, hothers, _⟩ := Option.map_eq_some_iff.mp hrest
    exact List.forall_mem_cons.mpr ⟨not_isLineBreak (by decide) (by decide) hname,
      unbroken_run (by decide) (by decide) (ih hothers)⟩
  | case4 c rest _ _ hsign ih =>
    obtain ⟨token, _, hrest⟩ := Option.bind_eq_some_iff.mp h
    obtain ⟨others, hothers, _⟩ := Option.map_eq_some_iff.mp hrest
    exact List.forall_mem_cons.mpr ⟨not_isLineBreak (by decide) (by decide) hsign,
      unbroken_run (by decide) (by decide) (ih hothers)⟩
  | case5 rest hquoted _ _ _ ih =>
    obtain ⟨others, hothers, _⟩ := Option.map_eq_some_iff.mp h
    refine List.forall_mem_cons.mpr ⟨by decide, ?_⟩
    intro c hc
    rw [← rest.takeWhile_append_dropWhile (p := (· ≠ '\'')), List.mem_append,
      ← List.cons_head_tail hquoted.2, List.mem_cons] at hc
    rcases hc with hc | rfl | hc
    · exact not_isLineBreak (by decide) (by decide) (List.all_eq_true.mp hquoted.1 c hc)
    · have hquote := rest.head_dropWhile_not (· ≠ '\'') hquoted.2
      simp only [ne_eq, decide_not, Bool.not_eq_false', decide_eq_true_eq] at hquote
      simp only [ne_eq, decide_not, hquote]
      decide
    · exact ih hothers c hc
  | case6 => cases h
  | case7 c rest _ _ _ _ ih =>
    obtain ⟨token, htoken, hrest⟩ := Option.bind_eq_some_iff.mp h
    obtain ⟨others, hothers, _⟩ := Option.map_eq_some_iff.mp hrest
    have hpoint : isLineBreak c = false :=
      not_isLineBreak (p := fun c => (point? c).isSome) (by decide) (by decide) (by simp [htoken])
    exact List.forall_mem_cons.mpr ⟨hpoint, ih hothers⟩

end BitTemplate.Script
