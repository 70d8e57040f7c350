import BitTemplate.Proofs.Lens

/-!
What a value that spills over leaves behind. The bits of a value that do not fit its cells are
placed above the first cell of its letter, whether the cells of the letter follow one another or
not, and are united with everything that is stored there. The result is the one of cutting all
values off, united with the excess of all letters and cut to the width of the template. So no bit
that is set without spilling is lost, and values that fit give the same result.
-/
namespace BitTemplate

open Failure

/-- The first run starts at the first position. -/
theorem exists_runs_cons (p : Nat) (rest : List Nat) :
    ∃ length others, runs (p :: rest) = ⟨p, length⟩ :: others := by
  rw [runs]
  split
  · exact ⟨1, [], rfl⟩
  · rename_i run others hrest
    split
    · exact ⟨run.length + 1, others, rfl⟩
    · exact ⟨1, run :: others, rfl⟩

/-- The bit above the most significant segment is the one left of the first position. -/
theorem Field.head_add_spillOffset (f : Field) :
    f.positions.head f.nonempty + f.spillOffset = f.templateWidth := by
  obtain ⟨p, rest, hpositions⟩ := List.exists_cons_of_ne_nil f.nonempty
  obtain ⟨length, others, hruns⟩ := exists_runs_cons p rest
  have hend : p + length ≤ f.templateWidth := by
    apply run_le f.templateWidth f.positions f.below ⟨p, length⟩
    rw [hpositions, hruns]
    exact List.mem_cons_self ..
  have htop : f.top = ⟨f.templateWidth - p - length, length, covered others⟩ := by
    simp only [top, segments, hpositions, hruns, segmentsOf, List.head_cons]
  simp only [spillOffset, htop, hpositions, List.head_cons]
  omega

namespace Template

/-- The first position of a letter is the index of its first cell. -/
theorem head?_positionsFrom {a : Letter} {cells : List Cell} (h : Cell.field a ∈ cells)
    (start : Nat) :
    (positionsFrom a start cells).head? = some (start + cells.idxOf (.field a)) := by
  induction cells generalizing start with
  | nil => cases h
  | cons cell rest ih =>
    unfold positionsFrom
    by_cases hcell : cell = .field a
    · rw [if_pos hcell, hcell, List.idxOf_cons_self]
      rfl
    · have hrest : Cell.field a ∈ rest := by
        rcases List.mem_cons.mp h with heq | hmem
        · exact absurd heq.symm hcell
        · exact hmem
      rw [if_neg hcell, ih hrest, List.idxOf_cons_ne rest hcell]
      congr 1
      omega

theorem spillOffset_field (t : Template) (a : Letter) (h : a ∈ t.names) :
    (t.field a h).spillOffset = t.width - t.cells.idxOf (.field a) := by
  have hsum := (t.field a h).head_add_spillOffset
  have hhead := head?_positionsFrom ((t.mem_names a).mp h) 0
  have hfirst : (t.field a h).positions.head (t.field a h).nonempty =
      t.cells.idxOf (.field a) := by
    rw [Nat.zero_add] at hhead
    exact Option.some.inj ((List.head?_eq_some_head _).symm.trans hhead)
  rw [hfirst] at hsum
  change _ = t.width at hsum
  omega

/-- The bits of all values that do not fit their cells, each value above the first cell of its
letter. -/
def excess (t : Template) (value : Letter → Int) : Int :=
  Bits.union (t.names.map fun a =>
    (value a >>> t.cells.count (.field a)) <<< (t.width - t.cells.idxOf (.field a)))

end Template

namespace Layout

/-- The excess of a template is what its fields spill. -/
theorem bit_excess_iff (l : Layout) (value : Letter → Int) (b : Nat) :
    Bits.bit (l.template.excess value) b = true ↔
      ∃ f ∈ l.fields, Bits.bit (f.spill (value f.name)) b = true := by
  have hspill : ∀ a (ha : a ∈ l.template.names), (l.template.field a ha).spill (value a) =
      (value a >>> l.template.cells.count (.field a)) <<<
        (l.template.width - l.template.cells.idxOf (.field a)) := by
    intro a ha
    rw [Field.spill, Template.width_field, Template.spillOffset_field]
  rw [Template.excess, Bits.bit_union_iff]
  constructor
  · intro h
    obtain ⟨piece, hpiece, hbit⟩ := h
    obtain ⟨a, ha, rfl⟩ := List.mem_map.mp hpiece
    rw [← hspill a ha] at hbit
    exact ⟨_, (l.mem_fields_iff _).mpr ⟨a, ha, rfl⟩, hbit⟩
  · intro h
    obtain ⟨f, hf, hbit⟩ := h
    obtain ⟨a, ha, rfl⟩ := (l.mem_fields_iff f).mp hf
    exact ⟨_, List.mem_map.mpr ⟨a, ha, (hspill a ha).symm⟩, hbit⟩

/-- A policy that neither refuses nor lowers values lets all of them pass as they are. -/
theorem passAll_unchanged (l : Layout) {policy : Overflow}
    (hpolicy : policy = .truncate ∨ policy = .corrupt) (value : Letter → Int) :
    passAll (l.undeclared policy) (l.names.map value) = .ok (l.names.map value) := by
  rw [passAll_undeclared, mapM_eq_ok_iff, names, List.map_map, List.forall₂_map_right_iff,
    List.forall₂_same]
  intro f _
  rcases hpolicy with rfl | rfl <;> rfl

theorem places_undeclared (l : Layout) (policy : Overflow) (value : Letter → Int) :
    List.zipWith Slot.place (l.undeclared policy) (l.names.map value) =
      l.fields.map fun f => Slot.place ⟨f, policy, none⟩ (value f.name) := by
  rw [undeclared, names, List.map_map, List.zipWith_map, List.zipWith_self]
  rfl

/-- What spilling assembles is what cutting off assembles, together with the excess. -/
theorem assemble_corrupt (l : Layout) (kept : Int) (value : Letter → Int) :
    l.assemble kept (l.undeclared .corrupt) (l.names.map value) =
      Bits.lor (l.assemble kept (l.undeclared .truncate) (l.names.map value))
        (l.template.excess value) % 2 ^ l.width := by
  apply Bits.eq_of_bit_eq
  intro b
  rw [Bits.bit_emod_two_pow, Bool.eq_iff_iff, Bool.and_eq_true, decide_eq_true_eq, Bits.bit_lor,
    Bool.or_eq_true, bit_assemble, bit_assemble, places_undeclared, places_undeclared,
    bit_excess_iff]
  -- A piece that spills is a piece that is cut off, or its excess.
  have hpieces : (∃ piece ∈ l.fields.map fun f => Slot.place ⟨f, .corrupt, none⟩ (value f.name),
      Bits.bit piece b = true) ↔
      (∃ piece ∈ l.fields.map fun f => Slot.place ⟨f, .truncate, none⟩ (value f.name),
        Bits.bit piece b = true) ∨
      ∃ f ∈ l.fields, Bits.bit (f.spill (value f.name)) b = true := by
    simp only [List.mem_map, exists_exists_and_eq_and, ← exists_or, ← and_or_left]
    refine exists_congr fun f => and_congr_right fun _ => ?_
    change Bits.bit (Bits.lor (f.deposit (value f.name)) (f.spill (value f.name))) b = true ↔
      Bits.bit (f.deposit (value f.name)) b = true ∨ _
    rw [Bits.bit_lor, Bool.or_eq_true]
  rw [hpieces]
  by_cases hb : b < l.width
  · simp only [hb, true_and, or_assoc]
  · simp only [hb, false_and]

end Layout

/-- Two results for the same values: the second has all bits of the first and the bits that do not
fit, as far as there is room in the template. -/
structure Spills (template : Template) (value : Letter → Int) (n m : Int) : Prop where
  united : m = Bits.lor n (template.excess value) % 2 ^ template.width
  same_of_fits : (∀ a ∈ template.names, 0 ≤ value a ∧
    value a < 2 ^ template.cells.count (.field a)) → m = n
  keeps : ∀ b, Bits.bit n b = true → Bits.bit m b = true

namespace Layout

/-- Values that fit have no excess. -/
theorem excess_of_fits (l : Layout) {value : Letter → Int}
    (h : ∀ a ∈ l.template.names, 0 ≤ value a ∧ value a < 2 ^ l.template.cells.count (.field a)) :
    l.template.excess value = 0 := by
  apply Bits.eq_of_bit_eq
  intro b
  rw [Bits.bit_zero, Bool.eq_false_iff, ne_eq, bit_excess_iff]
  intro hbit
  obtain ⟨f, hf, hspill⟩ := hbit
  obtain ⟨a, ha, rfl⟩ := (l.mem_fields_iff f).mp hf
  obtain ⟨h0, hlt⟩ := h a ha
  rw [← l.template.width_field a ha] at hlt
  have hnone := Field.spill_eq_zero _ h0 hlt
  change Bits.bit ((l.template.field a ha).spill (value a)) b = true at hspill
  rw [hnone, Bits.bit_zero] at hspill
  cases hspill

theorem spills_assemble (l : Layout) (kept : Int) (value : Letter → Int) :
    Spills l.template value (l.assemble kept (l.undeclared .truncate) (l.names.map value))
      (l.assemble kept (l.undeclared .corrupt) (l.names.map value)) := by
  have hunited := l.assemble_corrupt kept value
  have hbounds : ∀ b, Bits.bit (l.assemble kept (l.undeclared .truncate) (l.names.map value)) b =
      true → b < l.width := fun b hbit => ((l.bit_assemble _ _ _ b).mp hbit).1
  refine ⟨hunited, ?_, ?_⟩
  · intro hfits
    rw [hunited, l.excess_of_fits hfits]
    apply Bits.eq_of_bit_eq
    intro b
    rw [Bits.bit_emod_two_pow, Bits.bit_lor, Bits.bit_zero, Bool.or_false, Bool.eq_iff_iff,
      Bool.and_eq_true, decide_eq_true_eq, and_iff_right_iff_imp]
    exact hbounds b
  · intro b hbit
    have hb := hbounds b hbit
    rw [hunited, Bits.bit_emod_two_pow, Bits.bit_lor, hbit]
    simp [hb]

end Layout

section

variable {s : StorageSettings} {fallback : Option String} {policy : Overflow}
  (hpolicy : Overflow.ofValue s.overflow = .ok policy)
  (hunchanged : policy = .truncate ∨ policy = .corrupt) (hwidths : s.widths = .none)
  {values bound : List Value} {keywords : List (Value × Value)} {value : Letter → Int}

include hpolicy hunchanged hwidths

/-- A combination whose policy changes no value assembles the values that it is given. -/
theorem Combination.call_unchanged {c : Combination} (hc : Combination.make s fallback = .ok c)
    (hbind : c.layout.bind values keywords none = .ok bound)
    (hvalues : Stands bound (c.layout.names.map value)) :
    c.call values keywords = .ok (.value (.int
      (c.layout.assemble 0 (c.layout.undeclared policy) (c.layout.names.map value)))) := by
  rw [Combination.call_of_make hc hbind hvalues,
    Depositing.slots_of_make (Combination.make_iff.mp hc) hpolicy hwidths,
    Layout.passAll_unchanged _ hunchanged]
  rfl

theorem Replacement.call_unchanged {r : Replacement} (hr : Replacement.make s fallback = .ok r)
    {target : Value} {t : Int} (htarget : target.toInt? = some t)
    (hbind : r.layout.bind values keywords none = .ok bound)
    (hvalues : Stands bound (r.layout.names.map value)) :
    r.call target values keywords = .ok (.value (.int (r.layout.assemble (r.layout.keptOf t)
      (r.layout.undeclared policy) (r.layout.names.map value)))) := by
  rw [Replacement.call_of_make hr hbind htarget hvalues,
    Depositing.slots_of_make (Replacement.make_iff.mp hr) hpolicy hwidths,
    Layout.passAll_unchanged _ hunchanged]
  rfl

end

/-- Spilling and cutting off can be asked of every template, each by either engine, and both return
a result for all integers. What spilling returns is what cutting off returns together with the
excess of all letters, cut to the template. -/
theorem corrupt_adds_excess (s s' : StorageSettings) (fallback : Option String)
    {template : Template} {engine engine' : Engine}
    (htemplate : Template.ofValue s.template s.base = .ok template)
    (htemplate' : Template.ofValue s'.template s'.base = .ok template)
    (hengine : Engine.select s.engine fallback = .ok engine)
    (hengine' : Engine.select s'.engine fallback = .ok engine')
    (hcorrupt : Overflow.ofValue s.overflow = .ok .corrupt)
    (htruncate : Overflow.ofValue s'.overflow = .ok .truncate)
    (hwidths : s.widths = .none) (hwidths' : s'.widths = .none) :
    ((∀ cell ∈ template.cells, cell.isPlaceholder = false) →
      ∃ c c', Combination.make s fallback = .ok c ∧ Combination.make s' fallback = .ok c' ∧
        ∀ values keywords bound value, (⟨template⟩ : Layout).bind values keywords none = .ok bound →
          Stands bound (template.names.map value) →
          ∃ n m, c'.call values keywords = .ok (.value (.int n)) ∧
            c.call values keywords = .ok (.value (.int m)) ∧ Spills template value n m) ∧
    ∃ r r', Replacement.make s fallback = .ok r ∧ Replacement.make s' fallback = .ok r' ∧
      ∀ target t values keywords bound value, target.toInt? = some t →
        (⟨template⟩ : Layout).bind values keywords none = .ok bound →
        Stands bound (template.names.map value) →
        ∃ n m, r'.call target values keywords = .ok (.value (.int n)) ∧
          r.call target values keywords = .ok (.value (.int m)) ∧ Spills template value n m := by
  constructor
  · intro hplaceholders
    obtain ⟨c, hc, hlayout⟩ :=
      Combination.exists_make hengine htemplate hplaceholders hcorrupt hwidths
    obtain ⟨c', hc', hlayout'⟩ :=
      Combination.exists_make hengine' htemplate' hplaceholders htruncate hwidths'
    refine ⟨c, c', hc, hc', ?_⟩
    intro values keywords bound value hbind hvalues
    rw [← Layout.names_eq ⟨template⟩] at hvalues
    have hcall := Combination.call_unchanged hcorrupt (Or.inr rfl) hwidths hc
      (by rwa [hlayout]) (by rwa [hlayout])
    have hcall' := Combination.call_unchanged htruncate (Or.inl rfl) hwidths' hc'
      (by rwa [hlayout']) (by rwa [hlayout'])
    rw [hlayout] at hcall
    rw [hlayout'] at hcall'
    exact ⟨_, _, hcall', hcall, Layout.spills_assemble _ 0 value⟩
  · obtain ⟨r, hr, hlayout⟩ := Replacement.exists_make hengine htemplate hcorrupt hwidths
    obtain ⟨r', hr', hlayout'⟩ := Replacement.exists_make hengine' htemplate' htruncate hwidths'
    refine ⟨r, r', hr, hr', ?_⟩
    intro target t values keywords bound value htarget hbind hvalues
    rw [← Layout.names_eq ⟨template⟩] at hvalues
    have hcall := Replacement.call_unchanged hcorrupt (Or.inr rfl) hwidths hr htarget
      (by rwa [hlayout]) (by rwa [hlayout])
    have hcall' := Replacement.call_unchanged htruncate (Or.inl rfl) hwidths' hr' htarget
      (by rwa [hlayout']) (by rwa [hlayout'])
    rw [hlayout] at hcall
    rw [hlayout'] at hcall'
    exact ⟨_, _, hcall', hcall, Layout.spills_assemble _ _ value⟩

/-- Interleaved letters spill over a literal and over each other, and a negative value fills the
bits kept above its first cell. -/
theorem corrupt_adds_excess_interleaved :
    (∃ c c', Combination.make ⟨.text "00ba1abb", .base .binary, .text "corrupt", .none,
          .text "interpreted"⟩ none = .ok c ∧
      Combination.make { template := .text "00ba1abb" } none = .ok c' ∧
      c'.call [.int 11, .int 5] [] = .ok (.value (.int 15)) ∧
      c.call [.int 11, .int 5] [] = .ok (.value (.int 111)) ∧
      ∃ template, Template.ofValue (.text "00ba1abb") (.base .binary) = .ok template ∧
        Spills template (fun a => if a.char = 'a' then 5 else 11) 15 111) ∧
    ∃ r r', Replacement.make { template := .text "...ab.ba", overflow := .text "corrupt" } none =
        .ok r ∧
      Replacement.make { template := .text "...ab.ba", engine := .text "interpreted" } none =
        .ok r' ∧
      r'.call (.int 5) [.int (-6), .int 6] [] = .ok (.value (.int 28)) ∧
      r.call (.int 5) [.int (-6), .int 6] [] = .ok (.value (.int 220)) ∧
      ∃ template, Template.ofValue (.text "...ab.ba") (.base .binary) = .ok template ∧
        Spills template (fun a => if a.char = 'a' then -6 else 6) 28 220 := by
  constructor
  · obtain ⟨value, hvalue⟩ : ∃ value : Letter → Int, value = fun a =>
        if a.char = 'a' then 5 else 11 := ⟨_, rfl⟩
    have heval : (Template.ofValue (.text "00ba1abb") (.base .binary)).map (fun t =>
        (t.cells.all fun cell => !cell.isPlaceholder, t.names.map value)) =
        .ok (true, [11, 5]) := by
      subst hvalue
      rfl
    rw [map_eq_ok_iff] at heval
    obtain ⟨template, htemplate, hfacts⟩ := heval
    simp only [Prod.mk.injEq, List.all_eq_true, Bool.not_eq_true'] at hfacts
    obtain ⟨hfree, hvalues⟩ := hfacts
    obtain ⟨c, c', hc, hc', hspills⟩ := (corrupt_adds_excess
      ⟨.text "00ba1abb", .base .binary, .text "corrupt", .none, .text "interpreted"⟩
      { template := .text "00ba1abb" } none htemplate htemplate rfl rfl rfl rfl rfl rfl).1 hfree
    have hstands : Stands [.int 11, .int 5] (template.names.map value) := by
      rw [hvalues]
      exact .cons rfl (.cons rfl .nil)
    have hlength : [Value.int 11, .int 5].length = (⟨template⟩ : Layout).names.length := by
      rw [Layout.names_eq, hstands.length_eq, List.length_map]
    obtain ⟨n, m, hn, hm, hspill⟩ := hspills _ [] _ value
      (Layout.bind_positional _ _ none hlength) hstands
    have hcut : c'.call [.int 11, .int 5] [] = .ok (.value (.int 15)) := by
      have hbind : c'.layout.bind [.int 11, .int 5] [] none = .ok [.int 11, .int 5] :=
        eq_of_map_eq_ok hc' (fun c => c.layout.bind [.int 11, .int 5] [] none) (by rfl)
      have hints : Stands [.int 11, .int 5] [11, 5] := .cons rfl (.cons rfl .nil)
      rw [Combination.call_of_make hc' hbind hints]
      exact eq_of_map_eq_ok hc' (fun c => (passAll c.slots [11, 5]).map fun us =>
        Program.single (c.layout.assemble 0 c.slots us)) (by rfl)
    have hspilled : (Combination.make ⟨.text "00ba1abb", .base .binary, .text "corrupt", .none,
        .text "interpreted"⟩ none >>= fun c => c.call [.int 11, .int 5] []) =
          .ok (.value (.int 111)) := by rfl
    rw [hn] at hcut
    rw [hc, ok_bind, hm] at hspilled
    cases hcut
    cases hspilled
    subst hvalue
    exact ⟨c, c', hc, hc', hn, hm, template, htemplate, hspill⟩
  · obtain ⟨value, hvalue⟩ : ∃ value : Letter → Int, value = fun a =>
        if a.char = 'a' then -6 else 6 := ⟨_, rfl⟩
    have heval : (Template.ofValue (.text "...ab.ba") (.base .binary)).map (fun t =>
        t.names.map value) = .ok [-6, 6] := by
      subst hvalue
      rfl
    rw [map_eq_ok_iff] at heval
    obtain ⟨template, htemplate, hvalues⟩ := heval
    obtain ⟨r, r', hr, hr', hspills⟩ := (corrupt_adds_excess
      { template := .text "...ab.ba", overflow := .text "corrupt" }
      { template := .text "...ab.ba", engine := .text "interpreted" } none htemplate htemplate rfl
      rfl rfl rfl rfl rfl).2
    have hstands : Stands [.int (-6), .int 6] (template.names.map value) := by
      rw [hvalues]
      exact .cons rfl (.cons rfl .nil)
    have hlength : [Value.int (-6), .int 6].length = (⟨template⟩ : Layout).names.length := by
      rw [Layout.names_eq, hstands.length_eq, List.length_map]
    obtain ⟨n, m, hn, hm, hspill⟩ := hspills (.int 5) 5 _ [] _ value rfl
      (Layout.bind_positional _ _ none hlength) hstands
    have hcut : (Replacement.make { template := .text "...ab.ba", engine := .text "interpreted" }
        none >>= fun r => r.call (.int 5) [.int (-6), .int 6] []) = .ok (.value (.int 28)) := by rfl
    have hspilled : r.call (.int 5) [.int (-6), .int 6] [] = .ok (.value (.int 220)) := by
      have hbind : r.layout.bind [.int (-6), .int 6] [] none = .ok [.int (-6), .int 6] :=
        eq_of_map_eq_ok hr (fun r => r.layout.bind [.int (-6), .int 6] [] none) (by rfl)
      have hints : Stands [.int (-6), .int 6] [-6, 6] := .cons rfl (.cons rfl .nil)
      rw [Replacement.call_of_make hr hbind rfl hints]
      exact eq_of_map_eq_ok hr (fun r => (passAll r.slots [-6, 6]).map fun us =>
        Program.single (r.layout.assemble (r.layout.keptOf 5) r.slots us)) (by rfl)
    rw [hr', ok_bind, hn] at hcut
    rw [hm] at hspilled
    cases hcut
    cases hspilled
    subst hvalue
    exact ⟨r, r', hr, hr', hn, hm, template, htemplate, hspill⟩

end BitTemplate
