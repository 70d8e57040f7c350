import BitTemplate.Proofs.Engines
import BitTemplate.Proofs.Session

/-!
When a session warns about a template without fields. The store of extractions holds the ones that
were asked for most recently, up to its capacity, and a warning is given when an extraction has to
be made. So it depends on the call that makes the extraction whether there is a warning: a first
line that switches the warning off silences it for all later calls that still find the extraction,
whatever files they are made from. The first call for a template always makes its extraction, and
in a session that asks for no more extractions than the store holds, no other call does.
-/
namespace BitTemplate

open Failure

section

variable {α : Type} [DecidableEq α] {a : α}

theorem take_filter_of_notMem {xs : List α} {n : Nat} (h : a ∉ xs.take (n + 1)) :
    (xs.filter (· ≠ a)).take n = xs.take n := by
  induction xs generalizing n with
  | nil => rfl
  | cons x rest ih =>
    rw [List.take_succ_cons, List.mem_cons, not_or] at h
    have hx : decide (x ≠ a) = true := decide_eq_true (Ne.symm h.1)
    cases n with
    | zero => rfl
    | succ n => rw [List.filter_cons, if_pos hx, List.take_succ_cons, List.take_succ_cons, ih h.2]

theorem filter_ne_of_notMem {xs : List α} (h : a ∉ xs) : xs.filter (· ≠ a) = xs := by
  rw [List.filter_eq_self]
  intro x hx
  exact decide_eq_true fun heq => h (heq ▸ hx)

theorem take_filter_of_mem {xs : List α} (hnodup : xs.Nodup) {n : Nat} (h : a ∈ xs.take (n + 1)) :
    (xs.filter (· ≠ a)).take n = (xs.take (n + 1)).filter (· ≠ a) := by
  induction xs generalizing n with
  | nil => cases h
  | cons x rest ih =>
    rw [List.nodup_cons] at hnodup
    rw [List.take_succ_cons] at h ⊢
    by_cases hx : x = a
    · subst hx
      have hself : ¬ decide (x ≠ x) = true := by simp
      have hlater : x ∉ rest.take n := fun hmem => hnodup.1 (List.mem_of_mem_take hmem)
      rw [List.filter_cons, List.filter_cons, if_neg hself, if_neg hself,
        filter_ne_of_notMem hnodup.1, filter_ne_of_notMem hlater]
    · have hkept : decide (x ≠ a) = true := decide_eq_true hx
      have hrest : a ∈ rest.take n := by
        rcases List.mem_cons.mp h with heq | hmem
        · exact absurd heq.symm hx
        · exact hmem
      cases n with
      | zero => cases hrest
      | succ n =>
        rw [List.filter_cons, List.filter_cons, if_pos hkept, if_pos hkept, List.take_succ_cons,
          ih hnodup.2 hrest]

end

namespace Cache

variable {κ α ε : Type} {make : κ → Except ε α} {c : Cache κ α} {key : κ}

def keys (c : Cache κ α) : List κ := c.entries.map Prod.fst

theorem keys_store (item : α) : (c.store key item).keys = key :: c.keys.take (capacity - 1) := by
  rw [store, keys, keys, List.map_cons, List.map_take]

variable [DecidableEq κ]

theorem get?_eq_none_iff : c.get? key = none ↔ key ∉ c.keys := by
  rw [get?, List.lookup_eq_none_iff, keys, List.mem_map]
  constructor
  · intro h hmem
    obtain ⟨entry, hentry, rfl⟩ := hmem
    have := h entry hentry
    simp at this
  · intro h entry hentry
    rw [bne_iff_ne]
    intro heq
    exact h ⟨entry, hentry, heq.symm⟩

theorem keys_touch (item : α) : (c.touch key item).keys = key :: c.keys.filter (· ≠ key) := by
  rw [touch, keys, keys, List.map_cons, List.filter_map]
  rfl

/-- The store holds the entries that were asked for most recently. -/
structure Holds (make : κ → Except ε α) (recent : List κ) (c : Cache κ α) : Prop where
  sound : c.Sound make
  keys_eq : c.keys = (firstOccurrences recent).take capacity

theorem holds_empty (make : κ → Except ε α) : ({} : Cache κ α).Holds make [] :=
  ⟨sound_empty make, rfl⟩

/-- An entry that can be made becomes the most recent one, whether it was there or not. -/
theorem Holds.fetch_made {recent : List κ} (h : c.Holds make recent) {item : α}
    (hmake : make key = .ok item) : (c.fetch key make).2.Holds make (key :: recent) := by
  refine ⟨h.sound.fetch key, ?_⟩
  have hkeys : (firstOccurrences (key :: recent)).take capacity =
      key :: ((firstOccurrences recent).filter (· ≠ key)).take (capacity - 1) := by
    rw [firstOccurrences]
    rfl
  rw [hkeys]
  unfold fetch
  cases hget : c.get? key with
  | some found =>
    have hmem : key ∈ (firstOccurrences recent).take (capacity - 1 + 1) := by
      by_contra hnone
      have habsent := get?_eq_none_iff.mpr (h.keys_eq ▸ hnone)
      rw [hget] at habsent
      cases habsent
    rw [keys_touch, h.keys_eq, take_filter_of_mem (nodup_firstOccurrences recent) hmem]
    rfl
  | none =>
    have hnone : key ∉ (firstOccurrences recent).take (capacity - 1 + 1) := by
      have habsent := get?_eq_none_iff.mp hget
      rwa [h.keys_eq] at habsent
    rw [hmake]
    change (c.store key item).keys = _
    rw [keys_store, h.keys_eq, List.take_take, take_filter_of_notMem hnone]
    rfl

/-- What cannot be made leaves the store as it is. -/
theorem Holds.fetch_failed {recent : List κ} (h : c.Holds make recent) {e : ε}
    (hmake : make key = .error e) : (c.fetch key make).2.Holds make recent := by
  refine ⟨h.sound.fetch key, ?_⟩
  unfold fetch
  cases hget : c.get? key with
  | some found =>
    have hfound := h.sound.make_of_get? hget
    rw [hmake] at hfound
    cases hfound
  | none =>
    rw [hmake]
    exact h.keys_eq

/-- An entry is made exactly if it is not among the most recent ones. -/
theorem Holds.new?_fetch {recent : List κ} (h : c.Holds make recent) {item : α}
    (hmake : make key = .ok item) : (c.fetch key make).1.new? =
      if key ∈ (firstOccurrences recent).take capacity then none else some item := by
  rw [← h.keys_eq]
  unfold fetch
  cases hget : c.get? key with
  | some found =>
    have hmem : key ∈ c.keys := by
      by_contra hnone
      rw [get?_eq_none_iff.mpr hnone] at hget
      cases hget
    rw [if_pos hmem]
    rfl
  | none =>
    rw [if_neg (get?_eq_none_iff.mp hget), hmake]
    rfl

end Cache

namespace Request

/-- The extraction that a call asks for, if it comes to that. -/
def extractionKey? (caller : Caller) : Request → Option ExtractionKey
  | .extract form base precision _ template minimum =>
    (ExtractionKey.read template minimum base precision form.named caller.engine).toOption
  | _ => none

end Request

namespace Session

/-- The extraction that a call asks for, if it can be made. -/
def makes? (step : Caller × Request) : Option ExtractionKey :=
  (step.2.extractionKey? step.1).filter fun key => key.make.isOk

theorem makes?_eq_some_iff (step : Caller × Request) (key : ExtractionKey) :
    makes? step = some key ↔
      step.2.extractionKey? step.1 = some key ∧ ∃ x, key.make = .ok x := by
  rw [makes?, Option.filter_eq_some_iff]
  refine and_congr_right fun _ => ?_
  cases key.make <;> simp [Except.isOk, Except.toBool]

/-- The extractions that some calls have asked for, the latest first. -/
def asked (steps : List (Caller × Request)) : List ExtractionKey :=
  steps.reverse.filterMap makes?

/-- The same with each extraction in its latest place only. -/
def recent (steps : List (Caller × Request)) : List ExtractionKey := firstOccurrences (asked steps)

/-- Whether an extraction is still there after some calls. -/
def Kept (steps : List (Caller × Request)) (key : ExtractionKey) : Prop :=
  key ∈ (recent steps).take Cache.capacity

instance (steps : List (Caller × Request)) (key : ExtractionKey) : Decidable (Kept steps key) :=
  inferInstanceAs (Decidable (key ∈ _))

/-- What some calls leave behind. -/
def after (s : Session) (steps : List (Caller × Request)) : Session :=
  steps.foldl (fun s step => (s.step step.1 step.2).2) s

theorem after_concat (s : Session) (steps : List (Caller × Request)) (step : Caller × Request) :
    s.after (steps ++ [step]) = ((s.after steps).step step.1 step.2).2 := by
  rw [after, List.foldl_append]
  rfl

/-- Each call is answered with what the calls before it have left. -/
theorem getElem?_run (s : Session) (steps : List (Caller × Request)) (i : Nat) :
    (s.run steps)[i]? =
      (steps[i]?).map fun step => ((s.after (steps.take i)).step step.1 step.2).1 := by
  induction steps generalizing s i with
  | nil => rfl
  | cons step rest ih =>
    cases i with
    | zero => rfl
    | succ i =>
      rw [List.getElem?_cons_succ, List.take_succ_cons]
      exact ih (s.step step.1 step.2).2 i

section

variable {s : Session} {caller : Caller} {request : Request}

theorem step_of_key {key : ExtractionKey} (h : request.extractionKey? caller = some key) :
    (s.step caller request).2.extractions = (s.extractions.fetch key ExtractionKey.make).2 ∧
      (s.step caller request).1.warnings =
        ((s.extractions.fetch key ExtractionKey.make).1.new?.bind
          fun x => x.warning? caller.firstLine).toList := by
  cases request with
  | extract form base precision value template minimum =>
    rw [Request.extractionKey?] at h
    rw [step, extract]
    cases hread : ExtractionKey.read template minimum base precision form.named caller.engine with
    | error e =>
      rw [hread] at h
      cases h
    | ok found =>
      rw [hread] at h
      cases h
      exact ⟨rfl, rfl⟩
  | _ => cases h

/-- A call that asks for no extraction leaves them alone. -/
theorem step_of_no_key (h : request.extractionKey? caller = none) :
    (s.step caller request).2.extractions = s.extractions := by
  cases request with
  | extract form base precision value template minimum =>
    rw [Request.extractionKey?] at h
    rw [step, extract]
    cases hread : ExtractionKey.read template minimum base precision form.named caller.engine with
    | error e => rfl
    | ok found =>
      rw [hread] at h
      cases h
  | combine base template values keywords overflow =>
    rw [step, combine]
    cases StorageKey.read template overflow base caller.engine <;> rfl
  | replace base target template values keywords overflow =>
    rw [step, replace]
    cases StorageKey.read template overflow base caller.engine <;> rfl
  | transfer base arguments overflow =>
    rw [step, transfer]
    cases Transfer.pairUp arguments with
    | none => rfl
    | some parts =>
      simp only
      cases TransferKey.read parts.2.1 parts.2.2 overflow base caller.engine <;> rfl

end

/-- One more call makes what it asks for the most recent extraction, or fails to make it. -/
theorem holds_step {s : Session} {keys : List ExtractionKey}
    (h : s.extractions.Holds ExtractionKey.make keys) (step : Caller × Request) :
    (s.step step.1 step.2).2.extractions.Holds ExtractionKey.make
      ((makes? step).toList ++ keys) := by
  cases hkey : step.2.extractionKey? step.1 with
  | none =>
    have hnone : makes? step = none := by rw [makes?, hkey, Option.filter_none]
    rw [step_of_no_key hkey, hnone]
    exact h
  | some key =>
    rw [(step_of_key hkey).1]
    cases hmake : key.make with
    | ok x =>
      rw [(makes?_eq_some_iff step key).mpr ⟨hkey, x, hmake⟩]
      exact h.fetch_made hmake
    | error e =>
      have hnone : makes? step = none := by
        rw [makes?, hkey, Option.filter_some, hmake]
        rfl
      rw [hnone]
      exact h.fetch_failed hmake

/-- After any calls the store of extractions holds the most recent ones. -/
theorem holds_after (steps : List (Caller × Request)) :
    (({} : Session).after steps).extractions.Holds ExtractionKey.make (asked steps) := by
  induction steps using List.reverseRecOn with
  | nil => exact Cache.holds_empty _
  | append_singleton steps step ih =>
    have hasked : asked (steps ++ [step]) = (makes? step).toList ++ asked steps := by
      rw [asked, List.reverse_append, List.reverse_singleton, List.singleton_append,
        List.filterMap_cons]
      cases makes? step <;> rfl
    rw [after_concat, hasked]
    exact holds_step ih step

/-- An extraction is made exactly if it is no longer there. -/
theorem new?_after (steps : List (Caller × Request)) {key : ExtractionKey} {x : Extraction}
    (hmake : key.make = .ok x) :
    ((({} : Session).after steps).extractions.fetch key ExtractionKey.make).1.new? =
      if Kept steps key then none else some x :=
  (holds_after steps).new?_fetch hmake

end Session

/-- Whether the first line of the file of a call switches the warning off. -/
def Caller.Silenced (caller : Caller) : Prop :=
  Directive.switch? caller.firstLine Extraction.warningName = some false

instance (caller : Caller) : Decidable caller.Silenced := inferInstanceAs (Decidable (_ = _))

/-- The warning about a template without fields. -/
def fieldlessWarning (text : String) : String :=
  "Template " ++ Text.quote text ++ " has no fields; nothing will be extracted"

theorem Extraction.warning?_of_fieldless {x : Extraction} (h : x.names = []) (caller : Caller) :
    x.warning? caller.firstLine =
      if caller.Silenced then none else some (fieldlessWarning x.layout.template.text) := by
  have hon : (Directive.switch? caller.firstLine warningName).getD true = true ↔
      ¬ caller.Silenced := by
    unfold Caller.Silenced
    rcases Directive.switch? caller.firstLine warningName with _ | _ | _ <;> simp
  rw [warning?, h]
  by_cases hsilenced : caller.Silenced
  · rw [if_pos hsilenced, Bool.eq_false_iff.mpr fun hwarns => hon.mp hwarns hsilenced]
    rfl
  · rw [if_neg hsilenced, hon.mpr hsilenced]
    rfl

/-- Whether a template consists of placeholders only. -/
def Template.Fieldless (t : Template) : Prop := ∀ cell ∈ t.cells, cell = .placeholder

theorem Template.Fieldless.names_eq {t : Template} (h : t.Fieldless) : t.names = [] := by
  rw [List.eq_nil_iff_forall_not_mem]
  intro a ha
  cases h _ ((t.mem_names a).mp ha)

/-- Every extraction of a template without fields that is asked for can be made. -/
theorem ExtractionKey.exists_make_of_fieldless {key : ExtractionKey} {t : Template}
    (ht : Template.ofText (.text key.text) (.base key.base) = .ok t) (hfieldless : t.Fieldless)
    {caller : Caller} {request : Request} (hkey : request.extractionKey? caller = some key) :
    ∃ x, key.make = .ok x ∧ x.names = [] ∧ x.layout.template.text = key.text := by
  cases request with
  | extract form base precision value template minimum =>
    rw [Request.extractionKey?] at hkey
    cases hread : read template minimum base precision form.named caller.engine with
    | error e =>
      rw [hread] at hkey
      cases hkey
    | ok found =>
      rw [hread] at hkey
      cases hkey
      simp only [read, bind_eq_ok_iff] at hread
      obtain ⟨text, _, least, hleast, engine, _, hfound⟩ := hread
      cases hfound
      have hliterals : ∀ cell ∈ t.cells, cell.isLiteral = false := by
        intro cell hcell
        rw [hfieldless cell hcell]
        rfl
      have hmade : ∃ x, make ⟨text, base, precision, least, form.named, engine⟩ = .ok x ∧
          x.layout = ⟨t⟩ ∧ x.named = form.named :=
        Extraction.exists_make (Engine.select_name engine none) ht hliterals rfl
          (Shape.least_of_least hleast)
      obtain ⟨x, hx, hlayout, _⟩ := hmade
      refine ⟨x, hx, ?_, ?_⟩
      · rw [Extraction.names, Layout.names_eq, hlayout]
        exact hfieldless.names_eq
      · rw [hlayout]
        exact (Template.written_of_parse ((mapError_eq_ok_iff _ _ _).mp ht)).1
  | _ => cases hkey

namespace Session

/-- A call of a session that asks for an extraction. -/
def Asks (steps : List (Caller × Request)) (i : Nat) (caller : Caller) (key : ExtractionKey) :
    Prop :=
  ∃ request, steps[i]? = some (caller, request) ∧ request.extractionKey? caller = some key

theorem exists_asks_of_mem_recent {steps : List (Caller × Request)} {key : ExtractionKey}
    (h : key ∈ recent steps) : ∃ i caller, Asks steps i caller key := by
  rw [recent, mem_firstOccurrences, asked, List.mem_filterMap] at h
  obtain ⟨step, hstep, hmakes⟩ := h
  obtain ⟨i, hi⟩ := List.mem_iff_getElem?.mp (List.mem_reverse.mp hstep)
  exact ⟨i, step.1, step.2, hi, ((makes?_eq_some_iff step key).mp hmakes).1⟩

theorem mem_recent_of_asks {steps : List (Caller × Request)} {i : Nat} {caller : Caller}
    {key : ExtractionKey} {x : Extraction} (hmake : key.make = .ok x)
    (h : Asks steps i caller key) : key ∈ recent steps := by
  obtain ⟨request, hi, hkey⟩ := h
  rw [recent, mem_firstOccurrences, asked, List.mem_filterMap]
  exact ⟨(caller, request), List.mem_reverse.mpr (List.mem_of_getElem? hi),
    (makes?_eq_some_iff _ key).mpr ⟨hkey, x, hmake⟩⟩

theorem asks_take_iff (steps : List (Caller × Request)) (i j : Nat) (caller : Caller)
    (key : ExtractionKey) :
    Asks (steps.take i) j caller key ↔ j < i ∧ Asks steps j caller key := by
  unfold Asks
  rw [List.getElem?_take]
  by_cases hj : j < i <;> simp [hj]

theorem length_recent_take (steps : List (Caller × Request)) (i : Nat) :
    (recent (steps.take i)).length ≤ (recent steps).length := by
  apply List.Subperm.length_le
  apply (nodup_firstOccurrences _).subperm
  intro key hkey
  rw [recent, mem_firstOccurrences, asked, List.mem_filterMap]
  rw [mem_firstOccurrences, asked, List.mem_filterMap] at hkey
  obtain ⟨step, hstep, hmakes⟩ := hkey
  rw [List.mem_reverse] at hstep
  exact ⟨step, List.mem_reverse.mpr (List.mem_of_mem_take hstep), hmakes⟩

section

variable {key : ExtractionKey} {steps : List (Caller × Request)}

theorem not_kept_of_first {i : Nat} (h : ∀ j < i, ∀ caller, ¬ Asks steps j caller key) :
    ¬ Kept (steps.take i) key := by
  intro hkept
  obtain ⟨j, caller, hearlier⟩ := exists_asks_of_mem_recent (List.mem_of_mem_take hkept)
  obtain ⟨hlt, hasks⟩ := (asks_take_iff steps i j caller key).mp hearlier
  exact h j hlt caller hasks

variable {t : Template} (ht : Template.ofText (.text key.text) (.base key.base) = .ok t)
  (hfieldless : t.Fieldless)

include ht hfieldless

theorem kept_of_earlier (hfew : (recent steps).length ≤ Cache.capacity) {i j : Nat}
    {caller : Caller} (hlt : j < i) (hasks : Asks steps j caller key) :
    Kept (steps.take i) key := by
  have hearlier := (asks_take_iff steps i j caller key).mpr ⟨hlt, hasks⟩
  obtain ⟨request, _, hkey⟩ := hasks
  obtain ⟨x, hmake, _⟩ := key.exists_make_of_fieldless ht hfieldless hkey
  rw [Kept, List.take_of_length_le ((length_recent_take steps i).trans hfew)]
  exact mem_recent_of_asks hmake hearlier

/-- A call for a template without fields warns unless it is silenced or finds the extraction. -/
theorem warnings_of_asks {i : Nat} {caller : Caller} (hasks : Asks steps i caller key) :
    ∃ reply, (({} : Session).run steps)[i]? = some reply ∧
      reply.warnings = if caller.Silenced ∨ Kept (steps.take i) key then []
        else [fieldlessWarning key.text] := by
  obtain ⟨request, hi, hkey⟩ := hasks
  obtain ⟨x, hmake, hnames, htext⟩ := key.exists_make_of_fieldless ht hfieldless hkey
  have hreply := getElem?_run {} steps i
  rw [hi, Option.map_some] at hreply
  refine ⟨_, hreply, ?_⟩
  rw [(step_of_key hkey).2, new?_after _ hmake]
  by_cases hkept : Kept (steps.take i) key
  · rw [if_pos hkept, if_pos (Or.inr hkept)]
    rfl
  · rw [if_neg hkept, Option.bind_some, Extraction.warning?_of_fieldless hnames, htext]
    by_cases hsilenced : caller.Silenced <;> simp [hsilenced, hkept]

end

/-- The call that makes the extraction of a template without fields warns about it, unless the file
of the call switches the warning off, and no other call does. The first call for an extraction
makes it. No other one does if the session asks for no more extractions than are kept. -/
theorem fieldless_warned_when_made (key : ExtractionKey) {t : Template}
    (ht : Template.ofText (.text key.text) (.base key.base) = .ok t) (hfieldless : t.Fieldless)
    (steps : List (Caller × Request)) :
    (∀ i caller, Asks steps i caller key →
      ∃ reply, (({} : Session).run steps)[i]? = some reply ∧
        reply.warnings = if caller.Silenced ∨ Kept (steps.take i) key then []
          else [fieldlessWarning key.text]) ∧
    (∀ i, (∀ j < i, ∀ caller, ¬ Asks steps j caller key) → ¬ Kept (steps.take i) key) ∧
    ((recent steps).length ≤ Cache.capacity →
      ∀ i j caller, j < i → Asks steps j caller key → Kept (steps.take i) key) := by
  refine ⟨?_, ?_, ?_⟩
  · intro i caller hasks
    exact warnings_of_asks ht hfieldless hasks
  · intro i hfirst
    exact not_kept_of_first hfirst
  · intro hfew i j caller hlt hasks
    exact kept_of_earlier ht hfieldless hfew hlt hasks

/-- Eight placeholders are a template without fields. -/
theorem exists_fieldless :
    ∃ t, Template.ofText (.text "........") (.base .binary) = .ok t ∧ t.Fieldless := by
  have heval : (Template.ofText (.text "........") (.base .binary)).map Template.cells =
      .ok (List.replicate 8 .placeholder) := by rfl
  rw [map_eq_ok_iff] at heval
  obtain ⟨t, ht, hcells⟩ := heval
  refine ⟨t, ht, ?_⟩
  intro cell hcell
  rw [hcells] at hcell
  exact List.eq_of_mem_replicate hcell

/-- Eight placeholders are asked for as a record, which is warned about, and as a tuple, which is
first asked for from a file that switches the warning off and then from one that does not. -/
theorem fieldless_warned_when_made_twice :
    ∃ steps : List (Caller × Request), steps =
        [({}, .extract .record .binary .standard (.int 0) (.text "........") .none),
          ({ firstLine := "# splitbits: FieldlessTemplate=no" },
            .extract .tuple .binary .standard (.int 0) (.text "........") .none),
          ({}, .extract .tuple .binary .standard (.int 0) (.text "........") .none)] ∧
      ∃ first last, (({} : Session).run steps)[0]? = some first ∧
        first.warnings = ["Template '........' has no fields; nothing will be extracted"] ∧
        (({} : Session).run steps)[2]? = some last ∧ last.warnings = [] := by
  obtain ⟨steps, hsteps⟩ : ∃ steps : List (Caller × Request), steps =
      [({}, .extract .record .binary .standard (.int 0) (.text "........") .none),
        ({ firstLine := "# splitbits: FieldlessTemplate=no" },
          .extract .tuple .binary .standard (.int 0) (.text "........") .none),
        ({}, .extract .tuple .binary .standard (.int 0) (.text "........") .none)] := ⟨_, rfl⟩
  refine ⟨steps, hsteps, ?_⟩
  obtain ⟨t, ht, hfieldless⟩ := exists_fieldless
  obtain ⟨hrecord, hnew, _⟩ := fieldless_warned_when_made
    ⟨"........", .binary, .standard, none, true, .compiled⟩ ht hfieldless steps
  obtain ⟨htuple, _, hkept⟩ := fieldless_warned_when_made
    ⟨"........", .binary, .standard, none, false, .compiled⟩ ht hfieldless steps
  subst hsteps
  obtain ⟨first, hfirst, hwarned⟩ := hrecord 0 {} ⟨_, rfl, by rfl⟩
  obtain ⟨last, hlast, hsilent⟩ := htuple 2 {} ⟨_, rfl, by rfl⟩
  have hopen : ¬ ({} : Caller).Silenced := by decide
  rw [if_neg (not_or.mpr ⟨hopen, hnew 0 fun j hj => absurd hj (Nat.not_lt_zero j)⟩)] at hwarned
  rw [if_pos (Or.inr (hkept (by decide +kernel) 2 1 _ (by decide) ⟨_, rfl, by rfl⟩))] at hsilent
  exact ⟨first, last, hfirst, hwarned, hlast, hsilent⟩

/-- A file that switches the warning off silences a call from another file that does not. -/
theorem warning_silenced_elsewhere :
    ∃ (steps : List (Caller × Request)) (key : ExtractionKey) (t : Template), steps =
        [({ firstLine := "# splitbits: FieldlessTemplate=no" },
            .extract .record .binary .standard (.int 0) (.text "........") .none),
          ({}, .extract .record .binary .standard (.int 0) (.text "........") .none)] ∧
      Template.ofText (.text key.text) (.base key.base) = .ok t ∧ t.Fieldless ∧
      Asks steps 1 {} key ∧ ¬ ({} : Caller).Silenced ∧
      ∀ reply ∈ ({} : Session).run steps, reply.warnings = [] := by
  obtain ⟨steps, hsteps⟩ : ∃ steps : List (Caller × Request), steps =
      [({ firstLine := "# splitbits: FieldlessTemplate=no" },
          .extract .record .binary .standard (.int 0) (.text "........") .none),
        ({}, .extract .record .binary .standard (.int 0) (.text "........") .none)] := ⟨_, rfl⟩
  obtain ⟨t, ht, hfieldless⟩ := exists_fieldless
  have hasks : Asks steps 1 {} ⟨"........", .binary, .standard, none, true, .compiled⟩ := by
    subst hsteps
    exact ⟨_, rfl, by rfl⟩
  have hwarnings : (({} : Session).run steps).map Reply.warnings = [[], []] := by
    subst hsteps
    decide +kernel
  refine ⟨steps, _, t, hsteps, ht, hfieldless, hasks, by decide, ?_⟩
  intro reply hreply
  have hmem : reply.warnings ∈ (({} : Session).run steps).map Reply.warnings :=
    List.mem_map_of_mem hreply
  rw [hwarnings] at hmem
  simpa using hmem

end Session

end BitTemplate
