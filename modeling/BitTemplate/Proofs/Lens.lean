import BitTemplate.Proofs.RoundTrip

/-!
Writing the fields of an integer and reading them. A replacement writes all fields of its target,
an extraction reads them, and the bits at the placeholders are left alone. For a template without
literals the two are a lens: writing what was read changes nothing, what was written is read back,
and of two writings the second one counts. If there are no placeholders, nothing of the target is
left, and a replacement does what a combination does.
-/
namespace BitTemplate

open Failure

/-- The laws of reading the fields of a template out of an integer and of writing them into it.
A value that does not fit is read back as the policy lowers it and its cells cut it. -/
structure Lens (template : Template) (policy : Overflow) (get : Int → Except Error Outcome)
    (put : Int → List Value → Except Error Outcome) : Prop where
  get_put : ∀ n, ∃ o, get n = .ok o ∧
    put n o.items = .ok (.value (.int (n % 2 ^ template.width)))
  put_get : policy = .truncate ∨ policy = .saturate →
    ∀ (n : Int) (value : Letter → Int) (values : List Value),
      Stands values (template.names.map value) →
      ∃ m o, put n values = .ok (.value (.int m)) ∧ get m = .ok o ∧
        Stands o.items (template.names.map fun a =>
          policy.lowered (template.cells.count (.field a)) (value a) %
            2 ^ template.cells.count (.field a))
  put_put : policy = .truncate ∨ policy = .saturate →
    ∀ (n : Int) (earlier later : Letter → Int) (earliers laters : List Value),
      Stands earliers (template.names.map earlier) → Stands laters (template.names.map later) →
      ∃ m k, put n earliers = .ok (.value (.int m)) ∧ put m laters = .ok (.value (.int k)) ∧
        put n laters = .ok (.value (.int k))

namespace Layout

/-- A template without placeholders keeps nothing of a target. -/
theorem keptOf_eq_zero {l : Layout}
    (h : ∀ cell ∈ l.template.cells, cell.isPlaceholder = false) (t : Int) : l.keptOf t = 0 := by
  apply Bits.eq_of_bit_eq
  intro b
  rw [Bits.bit_zero, Bool.eq_false_iff, ne_eq, bit_keptOf_iff]
  intro hkept
  obtain ⟨_, p, hcell, _⟩ := hkept
  have hfree := h _ (List.mem_of_getElem? hcell)
  simp [Cell.isPlaceholder] at hfree

/-- Only one policy refuses values. -/
theorem exists_passAll (l : Layout) {policy : Overflow} (hpanic : policy ≠ .panic)
    (value : Letter → Int) :
    ∃ us, passAll (l.undeclared policy) (l.names.map value) = .ok us := by
  rw [passAll_undeclared]
  apply exists_mapM
  intro f _
  exact ⟨_, if_neg fun h => hpanic h.1⟩

end Layout

namespace Replacement

variable {s : StorageSettings} {fallback : Option String} {r : Replacement}

/-- A replacement with a value for every letter lets the values pass and assembles them. -/
theorem call_positional (h : make s fallback = .ok r) (t : Int) {values : List Value}
    {value : Letter → Int} (hvalues : Stands values (r.layout.names.map value)) :
    r.call (.int t) values [] = (passAll r.slots (r.layout.names.map value)).map fun us =>
      .value (.int (r.layout.assemble (r.layout.keptOf t) r.slots us)) := by
  have hlength : values.length = r.layout.names.length := by
    rw [hvalues.length_eq, List.length_map]
  exact call_of_make h (r.layout.bind_positional values none hlength) rfl hvalues

/-- Values that fit show in the target, whatever the policy. -/
theorem call_of_fits (h : make s fallback = .ok r) (t : Int) {values : List Value}
    {value : Letter → Int} (hfits : r.layout.Fits value)
    (hvalues : Stands values (r.layout.names.map value)) :
    ∃ m, r.call (.int t) values [] = .ok (.value (.int m)) ∧
      Shows r.layout.template.cells t value m := by
  obtain ⟨hfields, _⟩ := make_engines h
  refine ⟨_, ?_, Layout.shows_assemble hfields t value (hfits.place hfields)⟩
  rw [call_positional h t hvalues, hfits.passAll hfields, map_ok]

/-- Under a policy that neither refuses values nor lets them spill, all values show in the target
as the policy lowers them. -/
theorem call_lowered (h : make s fallback = .ok r) {policy : Overflow}
    (hpolicy : Overflow.ofValue s.overflow = .ok policy) (hwidths : s.widths = .none)
    (hquiet : policy = .truncate ∨ policy = .saturate) (t : Int) {values : List Value}
    {value : Letter → Int} (hvalues : Stands values (r.layout.names.map value)) :
    ∃ m, r.call (.int t) values [] = .ok (.value (.int m)) ∧
      Shows r.layout.template.cells t
        (fun a => policy.lowered (r.layout.template.cells.count (.field a)) (value a)) m := by
  have hslots := Depositing.slots_of_make (make_iff.mp h) hpolicy hwidths
  have hpanic : policy ≠ .panic := by
    rcases hquiet with rfl | rfl <;> decide
  have hcorrupt : policy ≠ .corrupt := by
    rcases hquiet with rfl | rfl <;> decide
  obtain ⟨us, hus⟩ := r.layout.exists_passAll hpanic value
  refine ⟨_, ?_, Layout.shows_undeclared hcorrupt t hus⟩
  rw [call_positional h t hvalues, hslots, hus, map_ok]

end Replacement

section

variable {sx : Extraction.Settings} {sr : StorageSettings} {fallback : Option String}
  {x : Extraction} {r : Replacement} {policy : Overflow}
  (hx : Extraction.make sx fallback = .ok x) (hr : Replacement.make sr fallback = .ok r)
  (hlayout : r.layout = x.layout) (hpolicy : Overflow.ofValue sr.overflow = .ok policy)
  (hwidths : sr.widths = .none)

include hx hr hlayout hpolicy hwidths

/-- All three laws compare what the cells of the template show. -/
theorem lens_of_make : Lens x.layout.template policy (fun n => x.run (.int n))
    (fun n values => r.call (.int n) values []) := by
  have hliterals : ∀ cell ∈ x.layout.template.cells, cell.isLiteral = false := by
    obtain ⟨_, template, _, _, _, _, hfree, _, _, htemplate, _⟩ :=
      (Extraction.make_eq_ok_iff sx fallback x).mp hx
    rw [htemplate]
    exact hfree
  have hnames : x.layout.template.names = r.layout.names := by
    rw [hlayout, Layout.names_eq]
  refine ⟨?_, ?_, ?_⟩
  · intro n
    obtain ⟨value, hvalue, hfits⟩ := x.layout.exists_values n
    obtain ⟨o, ho, hitems⟩ := Extraction.exists_run hx n
    have hvalues := hitems value hvalue
    rw [← hlayout] at hfits hvalues
    obtain ⟨m, hm, hshows⟩ := Replacement.call_of_fits hr n hfits hvalues
    rw [hlayout] at hshows
    have hback : m = n % 2 ^ x.layout.width :=
      hshows.unique (Layout.shows_extracted hliterals n hvalue) fun _ _ _ => rfl
    rw [hback] at hm
    exact ⟨o, ho, hm⟩
  · intro hquiet n value values hvalues
    rw [hnames] at hvalues
    obtain ⟨m, hm, hshows⟩ := Replacement.call_lowered hr hpolicy hwidths hquiet n hvalues
    rw [hlayout] at hshows
    obtain ⟨o, ho, hitems⟩ := Extraction.exists_run hx m
    refine ⟨m, o, hm, ho, ?_⟩
    rw [← Layout.names_eq]
    apply hitems
    intro f hf
    obtain ⟨a, ha, rfl⟩ := (x.layout.mem_fields_iff f).mp hf
    rw [Layout.extract_of_shows hshows hf, Template.width_field]
    rfl
  · intro hquiet n earlier later earliers laters hearliers hlaters
    rw [hnames] at hearliers hlaters
    obtain ⟨m, hm, hfirst⟩ := Replacement.call_lowered hr hpolicy hwidths hquiet n hearliers
    obtain ⟨k, hk, hsecond⟩ := Replacement.call_lowered hr hpolicy hwidths hquiet m hlaters
    obtain ⟨k', hk', halone⟩ := Replacement.call_lowered hr hpolicy hwidths hquiet n hlaters
    have hsame : k = k' := by
      refine hsecond.unique halone ?_
      intro p cell hcell
      -- Only a placeholder looks at the target, and there the first writing kept the target.
      cases cell with
      | literal digit => rfl
      | placeholder => exact hfirst.bits p _ hcell
      | field a => rfl
    rw [← hsame] at hk'
    exact ⟨m, k, hm, hk, hk'⟩

end

/-- Without placeholders a replacement ignores its target and does what a combination does. -/
theorem Replacement.call_eq_combination {sr sc : StorageSettings} {fallback : Option String}
    {r : Replacement} {c : Combination} (hr : Replacement.make sr fallback = .ok r)
    (hc : Combination.make sc fallback = .ok c) (hlayout : r.layout = c.layout)
    (hslots : r.slots = c.slots) {target : Value} {values : List Value}
    {keywords : List (Value × Value)}
    (hintegral : Integral (target :: values ++ keywords.map Prod.snd)) :
    r.call target values keywords = c.call values keywords := by
  have hplaceholders : ∀ cell ∈ r.layout.template.cells, cell.isPlaceholder = false := by
    obtain ⟨_, template, _, _, hfree, htemplate, _⟩ :=
      (Combination.make_eq_ok_iff sc fallback c).mp hc
    rw [hlayout, htemplate]
    exact hfree
  obtain ⟨t, ht⟩ := hintegral target (List.mem_cons_self ..)
  unfold Replacement.call Combination.call
  rw [hlayout]
  cases hbind : c.layout.bind values keywords none with
  | error e => rfl
  | ok bound =>
    have hbound : Integral bound := by
      intro v hv
      exact hintegral v (List.mem_cons_of_mem _ (Layout.mem_of_bind hbind v hv))
    obtain ⟨integers, hstands⟩ := hbound.exists_stands
    have hlength := Layout.length_of_bind hbind
    rw [ok_bind, ok_bind, Combination.run_of_make hc hlength hstands]
    rw [← hlayout] at hlength
    rw [Replacement.run_of_make hr hlength ht hstands, Layout.keptOf_eq_zero hplaceholders, hlayout,
      hslots]

/-- A replacement can be made of every template. If there are no literals, it is a lens together
with an extraction of the same template. If there are no placeholders, it does what a combination
of the same template does, refusals included. -/
theorem replacement_extraction_lens (sr : StorageSettings) (fallback : Option String)
    {template : Template} {er : Engine} {policy : Overflow}
    (hrtemplate : Template.ofValue sr.template sr.base = .ok template)
    (hrengine : Engine.select sr.engine fallback = .ok er)
    (hrpolicy : Overflow.ofValue sr.overflow = .ok policy) (hrwidths : sr.widths = .none) :
    ∃ r, Replacement.make sr fallback = .ok r ∧
      ((∀ cell ∈ template.cells, cell.isLiteral = false) →
        ∀ (sx : Extraction.Settings) (ex : Engine) (precision : Precision)
          (minimum : Option Shape),
          Template.ofValue sx.template sx.base = .ok template →
          Engine.select sx.engine fallback = .ok ex →
          Precision.ofValue sx.precision = .ok precision →
          Shape.least sx.minimum (.precision precision) = .ok minimum →
          ∃ x, Extraction.make sx fallback = .ok x ∧
            Lens template policy (fun n => x.run (.int n))
              (fun n values => r.call (.int n) values [])) ∧
      ((∀ cell ∈ template.cells, cell.isPlaceholder = false) →
        ∀ (sc : StorageSettings) (ec : Engine),
          Template.ofValue sc.template sc.base = .ok template →
          Engine.select sc.engine fallback = .ok ec →
          Overflow.ofValue sc.overflow = .ok policy → sc.widths = .none →
          ∃ c, Combination.make sc fallback = .ok c ∧
            ∀ target values keywords, Integral (target :: values ++ keywords.map Prod.snd) →
              r.call target values keywords = c.call values keywords) := by
  obtain ⟨r, hr, hrlayout⟩ := Replacement.exists_make hrengine hrtemplate hrpolicy hrwidths
  refine ⟨r, hr, ?_, ?_⟩
  · intro hliterals sx ex precision minimum hxtemplate hxengine hprecision hminimum
    obtain ⟨x, hx, hxlayout, _⟩ :=
      Extraction.exists_make hxengine hxtemplate hliterals hprecision hminimum
    have hlayout : r.layout = x.layout := by rw [hrlayout, hxlayout]
    have hlens := lens_of_make hx hr hlayout hrpolicy hrwidths
    rw [hxlayout] at hlens
    exact ⟨x, hx, hlens⟩
  · intro hplaceholders sc ec hctemplate hcengine hcpolicy hcwidths
    obtain ⟨c, hc, hclayout⟩ :=
      Combination.exists_make hcengine hctemplate hplaceholders hcpolicy hcwidths
    have hlayout : r.layout = c.layout := by rw [hrlayout, hclayout]
    have hslots : r.slots = c.slots := by
      rw [Depositing.slots_of_make (Replacement.make_iff.mp hr) hrpolicy hrwidths,
        Depositing.slots_of_make (Combination.make_iff.mp hc) hcpolicy hcwidths, hlayout]
    refine ⟨c, hc, ?_⟩
    intro target values keywords hintegral
    exact Replacement.call_eq_combination hr hc hlayout hslots hintegral

/-- Interleaved letters around placeholders under saturation, and around literals where values may
be refused. -/
theorem replacement_extraction_lens_interleaved :
    (∃ x r, Extraction.make { template := .text "a.ab.bba" } none = .ok x ∧
      Replacement.make { template := .text "a.ab.bba", overflow := .text "saturate" } none =
        .ok r ∧
      (∃ o, x.run (.int (-5)) = .ok o ∧
        r.call (.int (-5)) o.items [] = .ok (.value (.int 251))) ∧
      (∃ m o, r.call (.int (-5)) [.int 9, .int (-3)] [] = .ok (.value (.int m)) ∧
        x.run (.int m) = .ok o ∧ Stands o.items [7, 5]) ∧
      ∃ m k, r.call (.int (-5)) [.int 9, .int (-3)] [] = .ok (.value (.int m)) ∧
        r.call (.int m) [.int 2, .bool true] [] = .ok (.value (.int k)) ∧
        r.call (.int (-5)) [.int 2, .bool true] [] = .ok (.value (.int k))) ∧
    ∃ r c, Replacement.make { template := .text "ab1b0aba", overflow := .text "panic" } none =
        .ok r ∧
      Combination.make { template := .text "ab1b0aba", overflow := .text "panic" } none = .ok c ∧
      r.call (.int (-1)) [.int 5, .int 6] [] = c.call [.int 5, .int 6] [] ∧
      r.call (.int (-1)) [.int 9, .int 6] [] = c.call [.int 9, .int 6] [] := by
  constructor
  · obtain ⟨value, hvalue⟩ : ∃ value : Letter → Int, value = fun a =>
        if a.char = 'a' then 9 else -3 := ⟨_, rfl⟩
    obtain ⟨later, hlater⟩ : ∃ later : Letter → Int, later = fun a =>
        if a.char = 'a' then 2 else 1 := ⟨_, rfl⟩
    have heval : (Template.ofValue (.text "a.ab.bba") (.base .binary)).map (fun t =>
        (t.width, t.cells.all fun cell => !cell.isLiteral, t.names.map value, t.names.map later,
          t.names.map fun a => Overflow.saturate.lowered (t.cells.count (.field a)) (value a) %
            2 ^ t.cells.count (.field a))) = .ok (8, true, [9, -3], [2, 1], [7, 5]) := by
      subst hvalue hlater
      rfl
    rw [map_eq_ok_iff] at heval
    obtain ⟨template, htemplate, hfacts⟩ := heval
    simp only [Prod.mk.injEq, List.all_eq_true, Bool.not_eq_true'] at hfacts
    obtain ⟨hwidth, hliterals, hvalues, hlaters, hlowered⟩ := hfacts
    obtain ⟨r, hr, hlens, _⟩ := replacement_extraction_lens
      { template := .text "a.ab.bba", overflow := .text "saturate" } none htemplate rfl rfl rfl
    obtain ⟨x, hx, hgp, hpg, hpp⟩ := hlens hliterals { template := .text "a.ab.bba" } .compiled
      .standard none htemplate rfl rfl rfl
    have hfirst : Stands [.int 9, .int (-3)] (template.names.map value) := by
      rw [hvalues]
      exact .cons rfl (.cons rfl .nil)
    have hsecond : Stands [.int 2, .bool true] (template.names.map later) := by
      rw [hlaters]
      exact .cons rfl (.cons rfl .nil)
    have hback := hgp (-5)
    rw [hwidth] at hback
    have hforth := hpg (Or.inr rfl) (-5) value _ hfirst
    rw [hlowered] at hforth
    exact ⟨x, r, hx, hr, hback, hforth, hpp (Or.inr rfl) (-5) value later _ _ hfirst hsecond⟩
  · have heval : (Template.ofValue (.text "ab1b0aba") (.base .binary)).map (fun t =>
        t.cells.all fun cell => !cell.isPlaceholder) = .ok true := by rfl
    rw [map_eq_ok_iff] at heval
    obtain ⟨template, htemplate, hfree⟩ := heval
    simp only [List.all_eq_true, Bool.not_eq_true'] at hfree
    obtain ⟨r, hr, _, hcombine⟩ := replacement_extraction_lens
      { template := .text "ab1b0aba", overflow := .text "panic" } none htemplate rfl rfl rfl
    obtain ⟨c, hc, hsame⟩ := hcombine hfree
      { template := .text "ab1b0aba", overflow := .text "panic" } .compiled htemplate rfl rfl rfl
    have hintegral : ∀ n : Int, Integral [.int (-1), .int n, .int 6] := by
      intro n
      have hstands : Stands [.int (-1), .int n, .int 6] [-1, n, 6] :=
        .cons rfl (.cons rfl (.cons rfl .nil))
      exact integral_of_stands hstands
    exact ⟨r, c, hr, hc, hsame _ _ [] (hintegral 5), hsame _ _ [] (hintegral 9)⟩

end BitTemplate
