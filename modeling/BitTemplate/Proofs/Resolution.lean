import BitTemplate.Operation.LooseBinding
import BitTemplate.Proofs.Conformity
import BitTemplate.Proofs.Linking
import BitTemplate.Proofs.Origins
import BitTemplate.Session.Basic

/-!
Where the values of letters come from. A letter takes the value given at its position, else the one
given for it by keyword, else the variable of the caller that it names, local before global. This
succeeds for all letters, or fails for the first reason in a fixed order: too many values, then the
first keyword that cannot be taken, then the first letter without a value, which is reported at the
first character that writes it. What was bound is bound again as it is.
-/
namespace BitTemplate

open Failure

namespace Layout

theorem key?_eq_some_iff (l : Layout) (keyword : Value) (a : Letter) :
    l.key? keyword = some a ↔ a ∈ l.names ∧ keyword = .ofLetter a := by
  unfold key?
  constructor
  · intro h
    split at h
    · rename_i s
      split at h
      · rename_i b hb
        split at h
        · rename_i hmem
          cases h
          exact ⟨by simpa using hmem, by rw [Value.ofLetter, Letter.text_of_ofString? hb]⟩
        · cases h
      · cases h
    · cases h
  · rintro ⟨hmem, rfl⟩
    simp [Value.ofLetter, Letter.ofString?_text, hmem]

/-- The letter and the value of an entry by keyword, beside those that letters already have. -/
def assign (l : Layout) (table : List (Letter × Value)) (entry : Value × Value) :
    Except Error (Letter × Value) :=
  match l.key? entry.1 with
  | none => .error (.unknownKeyword l.template.text entry.1)
  | some a =>
    match table.lookup a with
    | some _ => .error (.boundTwice a)
    | none => .ok (a, entry.2)

/-- Keywords that differ are taken independently of each other. -/
theorem addKeywords_eq_mapM (l : Layout) (table : List (Letter × Value))
    {keywords : List (Value × Value)} (h : (keywords.map Prod.fst).Nodup) :
    l.addKeywords table keywords = (keywords.mapM (l.assign table)).map (table ++ ·) := by
  induction keywords generalizing table with
  | nil =>
    rw [addKeywords, List.mapM_nil]
    exact congrArg Except.ok (List.append_nil table).symm
  | cons entry rest ih =>
    obtain ⟨keyword, value⟩ := entry
    rw [List.map_cons, List.nodup_cons] at h
    obtain ⟨hfresh, hrest⟩ := h
    rw [mapM_cons, addKeywords, assign]
    cases hkey : l.key? keyword with
    | none => rfl
    | some a =>
      simp only
      cases hlookup : table.lookup a with
      | some v => rfl
      | none =>
        have hsame : rest.mapM (l.assign (table ++ [(a, value)])) = rest.mapM (l.assign table) := by
          apply mapM_congr
          intro entry hentry
          unfold assign
          cases hother : l.key? entry.1 with
          | none => rfl
          | some b =>
            have hne : b ≠ a := by
              intro heq
              subst heq
              have hkeyword := ((l.key?_eq_some_iff keyword b).mp hkey).2
              have hentryKey := ((l.key?_eq_some_iff entry.1 b).mp hother).2
              apply hfresh
              change keyword ∈ _
              rw [hkeyword, ← hentryKey]
              exact List.mem_map_of_mem hentry
            simp [List.lookup_append, List.lookup_cons, beq_false_of_ne hne]
        simp only [ok_bind]
        rw [ih _ hrest, hsame, map_map]
        cases rest.mapM (l.assign table) with
        | error e => rfl
        | ok entries => simp

section Assignment

variable {l : Layout} (table : List (Letter × Value)) {entry : Value × Value}

theorem assign_of_unknown (h : ∀ a ∈ l.names, entry.1 ≠ .ofLetter a) :
    l.assign table entry = .error (.unknownKeyword l.template.text entry.1) := by
  have hkey : l.key? entry.1 = none := by
    rw [Option.eq_none_iff_forall_ne_some]
    intro a ha
    obtain ⟨hmem, hentry⟩ := (l.key?_eq_some_iff entry.1 a).mp ha
    exact h a hmem hentry
  rw [assign, hkey]

theorem assign_of_bound {a : Letter} (ha : a ∈ l.names) (hentry : entry.1 = .ofLetter a)
    (h : table.lookup a ≠ none) : l.assign table entry = .error (.boundTwice a) := by
  obtain ⟨v, hv⟩ := Option.ne_none_iff_exists'.mp h
  rw [assign, (l.key?_eq_some_iff entry.1 a).mpr ⟨ha, hentry⟩]
  simp only [hv]

theorem assign_of_free {a : Letter} (ha : a ∈ l.names) (hentry : entry.1 = .ofLetter a)
    (h : table.lookup a = none) : l.assign table entry = .ok (a, entry.2) := by
  rw [assign, (l.key?_eq_some_iff entry.1 a).mpr ⟨ha, hentry⟩]
  simp only [h]

/-- A keyword is unknown, names a letter that has a value, or names one that has none. -/
theorem assign_cases (l : Layout) (table : List (Letter × Value)) (entry : Value × Value) :
    (∀ a ∈ l.names, entry.1 ≠ .ofLetter a) ∨
      (∃ a ∈ l.names, entry.1 = .ofLetter a ∧ table.lookup a ≠ none) ∨
      ∃ a ∈ l.names, entry.1 = .ofLetter a ∧ table.lookup a = none := by
  by_cases hknown : ∃ a ∈ l.names, entry.1 = .ofLetter a
  · obtain ⟨a, ha, hentry⟩ := hknown
    by_cases hlookup : table.lookup a = none
    · exact Or.inr (Or.inr ⟨a, ha, hentry, hlookup⟩)
    · exact Or.inr (Or.inl ⟨a, ha, hentry, hlookup⟩)
  · exact Or.inl fun a ha hentry => hknown ⟨a, ha, hentry⟩

theorem assign_eq_ok {assigned : Letter × Value} (h : l.assign table entry = .ok assigned) :
    ∃ a ∈ l.names, entry.1 = .ofLetter a ∧ table.lookup a = none ∧ assigned = (a, entry.2) := by
  rcases assign_cases l table entry with hunknown | ⟨a, ha, hentry, hbound⟩ | ⟨a, ha, hentry, hfree⟩
  · rw [assign_of_unknown table hunknown] at h
    cases h
  · rw [assign_of_bound table ha hentry hbound] at h
    cases h
  · rw [assign_of_free table ha hentry hfree] at h
    exact ⟨a, ha, hentry, hfree, (Except.ok.inj h).symm⟩

theorem assign_eq_error {e : Error} (h : l.assign table entry = .error e) :
    ((∀ a ∈ l.names, entry.1 ≠ .ofLetter a) ∧ e = .unknownKeyword l.template.text entry.1) ∨
      ∃ a ∈ l.names, entry.1 = .ofLetter a ∧ table.lookup a ≠ none ∧ e = .boundTwice a := by
  rcases assign_cases l table entry with hunknown | ⟨a, ha, hentry, hbound⟩ | ⟨a, ha, hentry, hfree⟩
  · rw [assign_of_unknown table hunknown] at h
    exact Or.inl ⟨hunknown, (Except.error.inj h).symm⟩
  · rw [assign_of_bound table ha hentry hbound] at h
    exact Or.inr ⟨a, ha, hentry, hbound, (Except.error.inj h).symm⟩
  · rw [assign_of_free table ha hentry hfree] at h
    cases h

end Assignment

/-- The letters that keywords were assigned to have the values of these keywords. -/
theorem lookup_assigned {l : Layout} {table entries : List (Letter × Value)}
    {keywords : List (Value × Value)} (h : keywords.mapM (l.assign table) = .ok entries)
    (a : Letter) : entries.lookup a = Value.entry? a.text keywords := by
  rw [mapM_eq_ok_iff] at h
  induction h with
  | nil => rfl
  | @cons entry assigned rest _ hentry _ ih =>
    obtain ⟨b, _, hkey, _, rfl⟩ := assign_eq_ok table hentry
    unfold Value.entry? at ih ⊢
    by_cases hab : a = b
    · subst hab
      have hsame : entry.1.same (.text a.text) = true := (Value.same_text_iff _ _).mpr hkey
      rw [List.lookup_cons, beq_self_eq_true, List.find?_cons, hsame]
      rfl
    · have hother : entry.1.same (.text a.text) = false := by
        rw [← Bool.not_eq_true, Value.same_text_iff, hkey, Value.ofLetter, Value.text.injEq]
        exact fun htext => hab (Letter.eq_of_text_eq htext).symm
      rw [List.lookup_cons, beq_false_of_ne hab, List.find?_cons, hother]
      exact ih

theorem lookup_zip_of_getElem? {names : List Letter} (hnodup : names.Nodup) {i : Nat} {a : Letter}
    (h : names[i]? = some a) (values : List Value) : (names.zip values).lookup a = values[i]? := by
  induction names generalizing i values with
  | nil => simp at h
  | cons b rest ih =>
    rw [List.nodup_cons] at hnodup
    cases values with
    | nil => simp
    | cons v values =>
      rw [List.zip_cons_cons, List.lookup_cons]
      cases i with
      | zero =>
        cases h
        simp
      | succ i =>
        have hne : a ≠ b := fun heq => hnodup.1 (heq ▸ List.mem_of_getElem? h)
        rw [beq_false_of_ne hne]
        exact ih hnodup.2 h values

/-- Whether a letter gets no value by position. -/
def Unplaced (l : Layout) (values : List Value) (a : Letter) : Prop :=
  a ∈ l.names ∧ a ∉ l.names.take values.length

/-- Whether a keyword is a letter that gets no value by position. -/
def Takes (l : Layout) (values : List Value) (keyword : Value) : Prop :=
  ∃ a, l.Unplaced values a ∧ keyword = .ofLetter a

/-- Whether a letter gets a value by position, by keyword or from the variables of a caller. -/
def Provides (l : Layout) (values : List Value) (keywords : List (Value × Value))
    (scope : Option Scope) (a : Letter) : Prop :=
  a ∈ l.names.take values.length ∨ .ofLetter a ∈ keywords.map Prod.fst ∨
    ∃ caller, scope = some caller ∧
      (a.text ∈ caller.locals.map Prod.fst ∨ a.text ∈ caller.globals.map Prod.fst)

/-- What it takes to give every letter one value. -/
structure Resolvable (l : Layout) (values : List Value) (keywords : List (Value × Value))
    (scope : Option Scope) : Prop where
  few : values.length ≤ l.names.length
  takes : ∀ entry ∈ keywords, l.Takes values entry.1
  provides : ∀ a ∈ l.names, l.Provides values keywords scope a

/-- The value of the letter at an index: by position, else by keyword, else a local variable, else
a global one. -/
def valueAt? (values : List Value) (keywords : List (Value × Value)) (scope : Option Scope)
    (i : Nat) (a : Letter) : Option Value :=
  values[i]?.or ((Value.entry? a.text keywords).or
    ((scope.bind fun caller => caller.locals.lookup a.text).or
      (scope.bind fun caller => caller.globals.lookup a.text)))

/-- The first reason why not every letter has one value, and the class it is reported as. An unknown
keyword is shown, and a number in it may have too many digits for that. -/
inductive Reports (l : Layout) (values : List Value) (keywords : List (Value × Value))
    (scope : Option Scope) : ErrorClass → Error → Prop where
  | tooMany (h : l.names.length < values.length) : Reports l values keywords scope .type
      (.tooManyValues l.template.text l.names.length values.length)
  | unknown {before after : List (Value × Value)} {entry : Value × Value}
      (few : values.length ≤ l.names.length) (split : keywords = before ++ entry :: after)
      (first : ∀ earlier ∈ before, l.Takes values earlier.1)
      (h : ∀ a ∈ l.names, entry.1 ≠ .ofLetter a) :
      Reports l values keywords scope (if entry.1.numbers.any Text.isLong then .value else .type)
        (.unknownKeyword l.template.text entry.1)
  | twice {before after : List (Value × Value)} {entry : Value × Value} {a : Letter}
      (few : values.length ≤ l.names.length) (split : keywords = before ++ entry :: after)
      (first : ∀ earlier ∈ before, l.Takes values earlier.1)
      (h : entry.1 = .ofLetter a) (placed : a ∈ l.names.take values.length) :
      Reports l values keywords scope .type (.boundTwice a)
  | unbound {before after : List Letter} {a : Letter}
      (few : values.length ≤ l.names.length) (takes : ∀ entry ∈ keywords, l.Takes values entry.1)
      (split : l.names = before ++ a :: after)
      (first : ∀ b ∈ before, l.Provides values keywords scope b)
      (h : ¬ l.Provides values keywords scope a) :
      Reports l values keywords scope .undefinedField
        (.diagnostic ⟨.unboundField a, l.template.text, l.origin? a⟩)

theorem forall₂_iff_getElem? {α β : Type} {R : α → β → Prop} {xs : List α} {ys : List β} :
    List.Forall₂ R xs ys ↔ ys.length = xs.length ∧
      ∀ (i : Nat) (a : α), xs[i]? = some a → ∃ b, R a b ∧ ys[i]? = some b := by
  rw [List.forall₂_iff_get]
  constructor
  · rintro ⟨hlength, h⟩
    refine ⟨hlength.symm, ?_⟩
    intro i a ha
    obtain ⟨hi, rfl⟩ := List.getElem?_eq_some_iff.mp ha
    have hi' : i < ys.length := hlength ▸ hi
    exact ⟨ys[i], h i hi hi', List.getElem?_eq_getElem hi'⟩
  · rintro ⟨hlength, h⟩
    refine ⟨hlength.symm, ?_⟩
    intro i hi hi'
    obtain ⟨b, hb, hget⟩ := h i _ (List.getElem?_eq_getElem hi)
    rw [List.getElem?_eq_getElem hi', Option.some.injEq] at hget
    rwa [List.get_eq_getElem, List.get_eq_getElem, hget]

theorem entry?_eq_none_iff (key : String) (entries : List (Value × Value)) :
    Value.entry? key entries = none ↔ .text key ∉ entries.map Prod.fst := by
  unfold Value.entry?
  rw [Option.map_eq_none_iff, List.find?_eq_none]
  simp only [Value.same_text_iff, List.mem_map, not_exists, not_and]

theorem lookup_eq_none_iff_notMem (key : String) (entries : List (String × Value)) :
    entries.lookup key = none ↔ key ∉ entries.map Prod.fst := by
  rw [List.lookup_eq_none_iff]
  constructor
  · intro h hmem
    obtain ⟨entry, hentry, rfl⟩ := List.mem_map.mp hmem
    simpa using h entry hentry
  · intro h entry hentry
    rw [bne_iff_ne]
    exact fun heq => h (heq ▸ List.mem_map_of_mem hentry)

section Values

variable {l : Layout} {values : List Value} {keywords : List (Value × Value)}
  {scope : Option Scope} {i : Nat} {a : Letter} (ha : l.names[i]? = some a)

include ha

/-- The first values are those of the first letters. -/
theorem mem_take_iff (n : Nat) : a ∈ l.names.take n ↔ i < n := by
  constructor
  · intro hmem
    obtain ⟨j, hj⟩ := List.mem_iff_getElem?.mp hmem
    rw [List.getElem?_take] at hj
    split at hj
    · rename_i hlt
      have hi := (List.getElem?_eq_some_iff.mp ha).1
      have hij := (List.getElem?_inj hi l.nodup_names).mp (ha.trans hj.symm)
      omega
    · cases hj
  · intro hlt
    apply List.mem_of_getElem?
    rw [List.getElem?_take_of_lt hlt, ha]

theorem lookup_zip_eq_none_iff :
    (l.names.zip values).lookup a = none ↔ a ∉ l.names.take values.length := by
  rw [lookup_zip_of_getElem? l.nodup_names ha, mem_take_iff ha, List.getElem?_eq_none_iff]
  omega

theorem valueAt?_eq_none_iff :
    valueAt? values keywords scope i a = none ↔ ¬ l.Provides values keywords scope a := by
  unfold valueAt? Provides
  rw [mem_take_iff ha, Option.or_eq_none_iff, Option.or_eq_none_iff, Option.or_eq_none_iff,
    List.getElem?_eq_none_iff, entry?_eq_none_iff, not_or, not_or, Nat.not_lt]
  refine and_congr_right fun _ => and_congr_right fun _ => ?_
  cases scope with
  | none => simp
  | some caller =>
    simp only [Option.bind_some, lookup_eq_none_iff_notMem, Option.some.injEq, exists_eq_left',
      not_or]

theorem resolve_eq {entries : List (Letter × Value)}
    (h : keywords.mapM (l.assign (l.names.zip values)) = .ok entries) :
    l.resolve (l.names.zip values ++ entries) scope a =
      match valueAt? values keywords scope i a with
      | some v => .ok v
      | none => .error (.diagnostic ⟨.unboundField a, l.template.text, l.origin? a⟩) := by
  have hlookup : (l.names.zip values ++ entries).lookup a =
      values[i]?.or (Value.entry? a.text keywords) := by
    rw [List.lookup_append, lookup_zip_of_getElem? l.nodup_names ha, lookup_assigned h]
  have horigin : some ((l.origin? a).getD 0) = l.origin? a := by
    obtain ⟨o, ho⟩ := l.exists_origin (List.mem_of_getElem? ha)
    rw [ho]
    rfl
  unfold resolve valueAt?
  rw [hlookup, horigin, ← Option.or_assoc]
  cases values[i]?.or (Value.entry? a.text keywords) with
  | some v => rfl
  | none =>
    cases scope with
    | none => rfl
    | some caller =>
      simp only [Option.bind_some, Scope.find?, Option.none_or]
      cases caller.locals.lookup a.text <;> rfl

end Values

section Resolving

variable {l : Layout} {values : List Value} {keywords : List (Value × Value)}
  {scope : Option Scope} {entries : List (Letter × Value)}
  (h : keywords.mapM (l.assign (l.names.zip values)) = .ok entries) {a : Letter} (ha : a ∈ l.names)

include h ha

theorem exists_resolve_iff :
    (∃ v, l.resolve (l.names.zip values ++ entries) scope a = .ok v) ↔
      l.Provides values keywords scope a := by
  obtain ⟨i, hi⟩ := List.mem_iff_getElem?.mp ha
  rw [resolve_eq hi h, ← not_iff_not, ← valueAt?_eq_none_iff hi]
  cases valueAt? values keywords scope i a <;> simp

theorem resolve_eq_error_iff (e : Error) :
    l.resolve (l.names.zip values ++ entries) scope a = .error e ↔
      ¬ l.Provides values keywords scope a ∧
        e = .diagnostic ⟨.unboundField a, l.template.text, l.origin? a⟩ := by
  obtain ⟨i, hi⟩ := List.mem_iff_getElem?.mp ha
  rw [resolve_eq hi h, ← valueAt?_eq_none_iff hi]
  cases valueAt? values keywords scope i a <;> simp [eq_comm]

end Resolving

section Binding

variable {l : Layout} {values : List Value} {keywords : List (Value × Value)}
  (scope : Option Scope) (hkeys : (keywords.map Prod.fst).Nodup)

include hkeys

theorem bind_eq_of_few (hfew : values.length ≤ l.names.length) :
    l.bind values keywords scope =
      keywords.mapM (l.assign (l.names.zip values)) >>= fun entries =>
        l.names.mapM (l.resolve (l.names.zip values ++ entries) scope) := by
  unfold bind
  rw [if_neg (by omega), addKeywords_eq_mapM l _ hkeys]
  cases keywords.mapM (l.assign (l.names.zip values)) <;> rfl

omit hkeys in
theorem takes_iff (keyword value : Value) : l.Takes values keyword ↔
    ∃ assigned, l.assign (l.names.zip values) (keyword, value) = .ok assigned := by
  constructor
  · rintro ⟨a, ⟨hmem, hplaced⟩, rfl⟩
    obtain ⟨i, hi⟩ := List.mem_iff_getElem?.mp hmem
    exact ⟨_, assign_of_free _ hmem rfl ((lookup_zip_eq_none_iff hi).mpr hplaced)⟩
  · rintro ⟨assigned, h⟩
    obtain ⟨a, hmem, hentry, hfree, _⟩ := assign_eq_ok _ h
    obtain ⟨i, hi⟩ := List.mem_iff_getElem?.mp hmem
    exact ⟨a, ⟨hmem, (lookup_zip_eq_none_iff hi).mp hfree⟩, hentry⟩

/-- What is bound are the values of all letters. -/
theorem bind_eq_ok_iff_valueAt? (bound : List Value) :
    l.bind values keywords scope = .ok bound ↔ values.length ≤ l.names.length ∧
      (∀ entry ∈ keywords, l.Takes values entry.1) ∧ bound.length = l.names.length ∧
      ∀ i a, l.names[i]? = some a → ∃ v, valueAt? values keywords scope i a = some v ∧
        bound[i]? = some v := by
  by_cases hfew : values.length ≤ l.names.length
  · rw [bind_eq_of_few scope hkeys hfew, bind_eq_ok_iff]
    constructor
    · rintro ⟨entries, hentries, hbound⟩
      rw [mapM_eq_ok_iff, forall₂_iff_getElem?] at hbound
      refine ⟨hfew, ?_, hbound.1, ?_⟩
      · intro entry hentry
        exact (takes_iff entry.1 entry.2).mpr (exists_of_mapM hentries hentry)
      · intro i a ha
        obtain ⟨v, hv, hboundAt⟩ := hbound.2 i a ha
        refine ⟨v, ?_, hboundAt⟩
        rw [resolve_eq ha hentries] at hv
        split at hv
        · rename_i w hw
          rw [hw, Except.ok.inj hv]
        · cases hv
    · rintro ⟨_, htakes, hlength, hvalues⟩
      obtain ⟨entries, hentries⟩ := exists_mapM fun entry hentry =>
        (takes_iff entry.1 entry.2).mp (htakes entry hentry)
      refine ⟨entries, hentries, ?_⟩
      rw [mapM_eq_ok_iff, forall₂_iff_getElem?]
      refine ⟨hlength, ?_⟩
      intro i a ha
      obtain ⟨v, hv, hboundAt⟩ := hvalues i a ha
      exact ⟨v, by rw [resolve_eq ha hentries, hv], hboundAt⟩
  · unfold bind
    rw [if_pos (by omega)]
    simp [hfew]

/-- Binding fails for the first reason there is. -/
theorem bind_eq_error_iff_reports (e : Error) :
    l.bind values keywords scope = .error e ↔ l.Reports values keywords scope e.errorClass e := by
  constructor
  · intro h
    by_cases hfew : values.length ≤ l.names.length
    · rw [bind_eq_of_few scope hkeys hfew, bind_eq_error_iff] at h
      rcases h with hassign | ⟨entries, hentries, hresolve⟩
      · obtain ⟨before, entry, after, hsplit, hbefore, hentry⟩ :=
          (mapM_eq_error_iff _ _ _).mp hassign
        have hfirst : ∀ earlier ∈ before, l.Takes values earlier.1 := fun earlier hearlier =>
          (takes_iff earlier.1 earlier.2).mpr (hbefore earlier hearlier)
        rcases assign_eq_error _ hentry with ⟨hunknown, rfl⟩ | ⟨a, hmem, hkey, hbound, rfl⟩
        · exact .unknown hfew hsplit hfirst hunknown
        · obtain ⟨i, hi⟩ := List.mem_iff_getElem?.mp hmem
          rw [ne_eq, lookup_zip_eq_none_iff hi, not_not] at hbound
          exact .twice hfew hsplit hfirst hkey hbound
      · have htakes : ∀ entry ∈ keywords, l.Takes values entry.1 := fun entry hentry =>
          (takes_iff entry.1 entry.2).mpr (exists_of_mapM hentries hentry)
        obtain ⟨before, a, after, hsplit, hbefore, ha⟩ := (mapM_eq_error_iff _ _ _).mp hresolve
        obtain ⟨hmissing, rfl⟩ := (resolve_eq_error_iff hentries (by simp [hsplit]) e).mp ha
        refine .unbound hfew htakes hsplit ?_ hmissing
        intro b hb
        exact (exists_resolve_iff hentries (by simp [hsplit, hb])).mp (hbefore b hb)
    · unfold bind at h
      rw [if_pos (by omega)] at h
      cases h
      exact .tooMany (by omega)
  · intro h
    generalize e.errorClass = reported at h
    cases h with
    | tooMany hmany =>
      unfold bind
      rw [if_pos hmany]
    | unknown hfew hsplit hfirst hunknown =>
      rw [bind_eq_of_few scope hkeys hfew, bind_eq_error_iff]
      refine Or.inl ((mapM_eq_error_iff _ _ _).mpr
        ⟨_, _, _, hsplit, ?_, assign_of_unknown _ hunknown⟩)
      exact fun earlier hearlier => (takes_iff earlier.1 earlier.2).mp (hfirst earlier hearlier)
    | twice hfew hsplit hfirst hkey hplaced =>
      have hmem := List.mem_of_mem_take hplaced
      obtain ⟨i, hi⟩ := List.mem_iff_getElem?.mp hmem
      rw [bind_eq_of_few scope hkeys hfew, bind_eq_error_iff]
      refine Or.inl ((mapM_eq_error_iff _ _ _).mpr ⟨_, _, _, hsplit, ?_, ?_⟩)
      · exact fun earlier hearlier => (takes_iff earlier.1 earlier.2).mp (hfirst earlier hearlier)
      · apply assign_of_bound _ hmem hkey
        rwa [ne_eq, lookup_zip_eq_none_iff hi, not_not]
    | unbound hfew htakes hsplit hfirst hmissing =>
      obtain ⟨entries, hentries⟩ := exists_mapM fun entry hentry =>
        (takes_iff entry.1 entry.2).mp (htakes entry hentry)
      rw [bind_eq_of_few scope hkeys hfew, bind_eq_error_iff]
      refine Or.inr ⟨entries, hentries, (mapM_eq_error_iff _ _ _).mpr ⟨_, _, _, hsplit, ?_, ?_⟩⟩
      · intro b hb
        exact (exists_resolve_iff hentries (by simp [hsplit, hb])).mpr (hfirst b hb)
      · exact (resolve_eq_error_iff hentries (by simp [hsplit]) _).mpr ⟨hmissing, rfl⟩

theorem exists_bind_iff :
    (∃ bound, l.bind values keywords scope = .ok bound) ↔ l.Resolvable values keywords scope := by
  constructor
  · rintro ⟨bound, hbound⟩
    obtain ⟨hfew, htakes, _, hvalues⟩ := (bind_eq_ok_iff_valueAt? scope hkeys bound).mp hbound
    refine ⟨hfew, htakes, ?_⟩
    intro a ha
    obtain ⟨i, hi⟩ := List.mem_iff_getElem?.mp ha
    obtain ⟨v, hv, _⟩ := hvalues i a hi
    by_contra hmissing
    rw [(valueAt?_eq_none_iff hi).mpr hmissing] at hv
    cases hv
  · rintro ⟨hfew, htakes, hprovides⟩
    obtain ⟨entries, hentries⟩ := exists_mapM fun entry hentry =>
      (takes_iff entry.1 entry.2).mp (htakes entry hentry)
    obtain ⟨bound, hbound⟩ := exists_mapM fun a ha =>
      (exists_resolve_iff hentries ha).mpr (hprovides a ha)
    exact ⟨bound, by rw [bind_eq_of_few scope hkeys hfew, hentries, ok_bind, hbound]⟩

/-- Keywords that differ may be given in any order. -/
theorem bind_of_perm {keywords' : List (Value × Value)} (hperm : keywords.Perm keywords')
    {bound : List Value} (h : l.bind values keywords scope = .ok bound) :
    l.bind values keywords' scope = .ok bound := by
  have hkeys' : (keywords'.map Prod.fst).Nodup := (hperm.map Prod.fst).nodup_iff.mp hkeys
  have hentry : ∀ key, Value.entry? key keywords' = Value.entry? key keywords := by
    intro key
    apply Option.ext
    intro v
    rw [Value.entry?_eq_some_iff hkeys', Value.entry?_eq_some_iff hkeys, hperm.mem_iff]
  obtain ⟨hfew, htakes, hlength, hvalues⟩ := (bind_eq_ok_iff_valueAt? scope hkeys bound).mp h
  refine (bind_eq_ok_iff_valueAt? scope hkeys' bound).mpr ⟨hfew, ?_, hlength, ?_⟩
  · intro entry hmem
    exact htakes entry (hperm.mem_iff.mpr hmem)
  · intro i a ha
    unfold valueAt?
    rw [hentry]
    exact hvalues i a ha

end Binding

end Layout

/-- The variables of a caller as dictionaries. -/
def Scope.loose (scope : Scope) : LooseScope where
  locals := .dict (scope.locals.map fun entry => (.text entry.1, entry.2))
  globals := .dict (scope.globals.map fun entry => (.text entry.1, entry.2))

theorem LooseScope.findIn_texts (a : Letter) (entries : List (String × Value)) :
    findIn a (.dict (entries.map fun entry => (.text entry.1, entry.2))) =
      .ok (entries.lookup a.text) := by
  unfold findIn
  refine congrArg Except.ok ?_
  induction entries with
  | nil => rfl
  | cons entry rest ih =>
    rw [List.map_cons, List.lookup_cons, List.find?_cons]
    by_cases htext : a.text = entry.1
    · have hsame : (Value.text entry.1).same (.ofLetter a) = true :=
        (Value.same_text_iff _ _).mpr (by rw [htext])
      simp only [hsame, htext, beq_self_eq_true, Option.map_some]
    · have hother : (Value.text entry.1).same (.ofLetter a) = false := by
        rw [← Bool.not_eq_true, Value.ofLetter, Value.same_text_iff, Value.text.injEq]
        exact fun heq => htext heq.symm
      simp only [hother, beq_false_of_ne htext]
      exact ih

theorem LooseScope.find_loose (scope : Scope) (a : Letter) :
    scope.loose.find a = .ok (scope.find? a) := by
  unfold find Scope.find? Scope.loose
  rw [findIn_texts, findIn_texts, ok_bind]
  cases scope.locals.lookup a.text <;> rfl

namespace Layout

theorem looseResolve_eq_resolve (l : Layout) (table : List (Letter × Value))
    (scope : Option Scope) (a : Letter) :
    l.looseResolve table (scope.map Scope.loose) a = l.resolve table scope a := by
  unfold looseResolve resolve
  cases table.lookup a with
  | some v => rfl
  | none =>
    cases scope with
    | none => rfl
    | some caller =>
      simp only [Option.map_some, Option.bind_some, LooseScope.find_loose, ok_bind]
      cases caller.find? a <;> rfl

/-- Values in a list, keywords in a dictionary and variables of a caller are bound as such. -/
theorem looseBind_eq_bind (l : Layout) (values : List Value) (keywords : List (Value × Value))
    (scope : Option Scope) :
    l.looseBind (.list values) (.dict keywords) (scope.map Scope.loose) =
      l.bind values keywords scope := by
  have hresolve : ∀ table, l.looseResolve table (scope.map Scope.loose) =
      l.resolve table scope := by
    intro table
    funext a
    exact l.looseResolve_eq_resolve table scope a
  unfold looseBind bind
  simp only [looseCount, Value.items?, Value.entries?, ok_bind]
  split
  · rfl
  · simp only [hresolve]

/-- Bound values may be bound again before they are used. -/
theorem bind_again (l : Layout) (values : List Value) (keywords : List (Value × Value))
    (scope : Option Scope) (f : List Value → Except Error Outcome) :
    (l.bind values keywords scope >>= fun bound => l.bind bound [] none >>= f) =
      l.bind values keywords scope >>= f := by
  cases hbound : l.bind values keywords scope with
  | error e => rfl
  | ok bound => rw [ok_bind, ok_bind, l.bind_positional bound none (length_of_bind hbound), ok_bind]

end Layout

/-- Binding gives every letter one value or fails for the first reason in a fixed order. The values
do not depend on the order of the keywords, and bound values are bound as they are, so that it
makes no difference whether an operation that is called with variables of a caller binds again. -/
structure Layout.ResolvesOrReports (l : Layout) (values : List Value)
    (keywords : List (Value × Value)) (scope : Option Scope) : Prop where
  bound_iff : (∃ bound, l.bind values keywords scope = .ok bound) ↔
    l.Resolvable values keywords scope
  length_eq : ∀ bound, l.bind values keywords scope = .ok bound → bound.length = l.names.length
  value_eq : ∀ bound, l.bind values keywords scope = .ok bound → ∀ i a, l.names[i]? = some a →
    bound[i]? = valueAt? values keywords scope i a
  any_order : ∀ bound, l.bind values keywords scope = .ok bound →
    ∀ keywords', keywords.Perm keywords' → l.bind values keywords' scope = .ok bound
  bound_again : ∀ bound, l.bind values keywords scope = .ok bound → l.bind bound [] none = .ok bound
  reported_iff : ∀ e, l.bind values keywords scope = .error e ↔
    l.Reports values keywords scope e.errorClass e
  origin_eq : ∀ text base, Template.parse text base = .ok l.template → ∀ a ∈ l.names,
    a.char ∈ text.toList ∧ l.origin? a = some (text.toList.idxOf a.char)
  loose_eq : l.looseBind (.list values) (.dict keywords) (scope.map Scope.loose) =
    l.bind values keywords scope
  combine_eq : ∀ c : Combination, ∀ caller, c.callFrom caller values keywords =
    c.layout.bind values keywords (some caller) >>= fun bound => c.call bound []
  replace_eq : ∀ r : Replacement, ∀ caller target, r.callFrom caller target values keywords =
    r.layout.bind values keywords (some caller) >>= fun bound => r.call target bound []

theorem bind_resolves_or_reports (l : Layout) (values : List Value)
    (keywords : List (Value × Value)) (scope : Option Scope)
    (hkeys : (keywords.map Prod.fst).Nodup) : l.ResolvesOrReports values keywords scope where
  bound_iff := Layout.exists_bind_iff scope hkeys
  length_eq _ hbound := Layout.length_of_bind hbound
  value_eq bound hbound i a ha := by
    obtain ⟨_, _, _, hvalues⟩ := (Layout.bind_eq_ok_iff_valueAt? scope hkeys bound).mp hbound
    obtain ⟨v, hv, hboundAt⟩ := hvalues i a ha
    rw [hv, hboundAt]
  any_order _ hbound _ hperm := Layout.bind_of_perm scope hkeys hperm hbound
  bound_again bound hbound := l.bind_positional bound none (Layout.length_of_bind hbound)
  reported_iff := Layout.bind_eq_error_iff_reports scope hkeys
  origin_eq _ _ hparse _ ha := Layout.origin?_of_parse hparse ha
  loose_eq := l.looseBind_eq_bind values keywords scope
  combine_eq c caller := (c.layout.bind_again values keywords (some caller) c.run).symm
  replace_eq r caller target :=
    (r.layout.bind_again values keywords (some caller) (r.run target)).symm

/-- One value is given by position, one by keyword, and one is a local variable that hides a global
one. Without the variables its letter is reported at its first character. -/
theorem bind_resolves_or_reports_hidden :
    ∃ (l : Layout) (a : Letter), Template.parse "b a0 cc..b" .binary = .ok l.template ∧
      a ∈ l.names ∧ l.origin? a = some ("b a0 cc..b".toList.idxOf a.char) ∧
      l.bind [.int 1] [(.text "c", .int 3)] (some ⟨[("a", .int 2)], [("a", .int 9)]⟩) =
        .ok [.int 1, .int 2, .int 3] ∧
      l.Resolvable [.int 1] [(.text "c", .int 3)] (some ⟨[("a", .int 2)], [("a", .int 9)]⟩) ∧
      l.bind [.int 1] [(.text "c", .int 3)] none =
        .error (.diagnostic ⟨.unboundField a, "b a0 cc..b", some 2⟩) ∧
      l.Reports [.int 1] [(.text "c", .int 3)] none .undefinedField
        (.diagnostic ⟨.unboundField a, "b a0 cc..b", some 2⟩) := by
  have heval : (Template.parse "b a0 cc..b" .binary).map (fun t =>
      ((⟨t⟩ : Layout).bind [.int 1] [(.text "c", .int 3)]
          (some ⟨[("a", .int 2)], [("a", .int 9)]⟩),
        (⟨t⟩ : Layout).names, (⟨t⟩ : Layout).bind [.int 1] [(.text "c", .int 3)] none)) =
      .ok (.ok [.int 1, .int 2, .int 3], [⟨'b', rfl⟩, ⟨'a', rfl⟩, ⟨'c', rfl⟩],
        .error (.diagnostic ⟨.unboundField ⟨'a', rfl⟩, "b a0 cc..b", some 2⟩)) := by rfl
  rw [map_eq_ok_iff] at heval
  obtain ⟨t, ht, hfacts⟩ := heval
  simp only [Prod.mk.injEq] at hfacts
  obtain ⟨hbound, hnames, hmissing⟩ := hfacts
  have ha : (⟨'a', rfl⟩ : Letter) ∈ (⟨t⟩ : Layout).names := by simp [hnames]
  have hkeys : ([(Value.text "c", Value.int 3)].map Prod.fst).Nodup := List.nodup_singleton _
  refine ⟨⟨t⟩, ⟨'a', rfl⟩, ht, ha, ?_, hbound, ?_, hmissing, ?_⟩
  · exact ((bind_resolves_or_reports ⟨t⟩ [] _ none hkeys).origin_eq _ _ ht _ ha).2
  · exact (bind_resolves_or_reports _ _ _ _ hkeys).bound_iff.mp ⟨_, hbound⟩
  · exact ((bind_resolves_or_reports _ _ _ _ hkeys).reported_iff _).mp hmissing

end BitTemplate
