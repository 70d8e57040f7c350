import BitTemplate.Proofs.Segments

/-!
The segments of a field are the one way to cut its positions into maximal runs. The runs that are
found from the right, one position at a time, are those that a pass from the left finds, which keeps
one run open and closes it at the first position that does not follow on. Written out one after the
other they are the positions again, no two neighbours could be joined, and any other list of runs
with these two properties is the same list. The segments of the runs lie in the template, share no
bit there, and share out the bits of the field value from the top down.
-/
namespace BitTemplate

namespace Run

/-- The positions of a run. -/
def positions (run : Run) : List Nat := List.range' run.start run.length

/-- Whether the second of two runs does not go on where the first one ends. -/
def Apart (run next : Run) : Prop := run.start + run.length ≠ next.start

end Run

theorem length_of_mem_runs (ps : List Nat) : ∀ run ∈ runs ps, 1 ≤ run.length := by
  induction ps with
  | nil => simp [runs]
  | cons p rest ih =>
    obtain ⟨head, others, hcons, -, hruns⟩ | ⟨-, hruns⟩ := runs_cons_cases p rest
    · rw [hcons, List.forall_mem_cons] at ih
      rw [hruns, List.forall_mem_cons]
      exact ⟨by simp, ih.2⟩
    · rw [hruns, List.forall_mem_cons]
      exact ⟨le_rfl, ih⟩

/-- Runs written out are the positions they were found in. -/
theorem flatMap_positions_runs (ps : List Nat) : (runs ps).flatMap Run.positions = ps := by
  induction ps with
  | nil => rfl
  | cons p rest ih =>
    obtain ⟨head, others, hcons, hnext, hruns⟩ | ⟨-, hruns⟩ := runs_cons_cases p rest
    · rw [hcons, List.flatMap_cons, Run.positions, hnext] at ih
      rw [hruns, List.flatMap_cons, Run.positions, List.range'_succ, List.cons_append, ih]
    · rw [hruns, List.flatMap_cons, ih]
      rfl

/-- No two neighbouring runs could be joined. -/
theorem runs_apart (ps : List Nat) : (runs ps).IsChain Run.Apart := by
  induction ps with
  | nil => exact .nil
  | cons p rest ih =>
    obtain ⟨head, others, hcons, hnext, hruns⟩ | ⟨hapart, hruns⟩ := runs_cons_cases p rest
    · rw [hcons, List.isChain_cons] at ih
      rw [hruns, List.isChain_cons]
      refine ⟨?_, ih.2⟩
      -- The longer run ends where the shorter one did.
      intro next hmem
      have hends := ih.1 next hmem
      unfold Run.Apart at hends ⊢
      simp only
      omega
    · rw [hruns, List.isChain_cons]
      exact ⟨fun head hhead => Ne.symm (hapart head hhead), ih⟩

theorem head?_runs (ps : List Nat) : (runs ps).head?.map Run.start = ps.head? := by
  cases ps with
  | nil => rfl
  | cons p rest =>
    obtain ⟨_, _, _, _, hruns⟩ | ⟨_, hruns⟩ := runs_cons_cases p rest
    · rw [hruns]
      rfl
    · rw [hruns]
      rfl

/-- Positions that follow one another make one run in front of positions that do not go on. -/
theorem runs_append {start length : Nat} {ps : List Nat}
    (h : ∀ p ∈ ps.head?, p ≠ start + (length + 1)) :
    runs (List.range' start (length + 1) ++ ps) = ⟨start, length + 1⟩ :: runs ps := by
  induction length generalizing start with
  | zero =>
    obtain ⟨head, others, hcons, hnext, -⟩ | ⟨-, hruns⟩ := runs_cons_cases start ps
    · have hhead := head?_runs ps
      rw [hcons] at hhead
      exact absurd hnext (h head.start hhead.symm)
    · exact hruns
  | succ length ih =>
    have hrest : runs (List.range' (start + 1) (length + 1) ++ ps) =
        ⟨start + 1, length + 1⟩ :: runs ps := by
      apply ih
      intro p hp
      have := h p hp
      omega
    rw [List.range'_succ, List.cons_append, runs, hrest]
    exact if_pos rfl

/-- Runs that cannot be joined are the runs of their positions. -/
theorem runs_flatMap_positions {rs : List Run} (hlength : ∀ run ∈ rs, 1 ≤ run.length)
    (hapart : rs.IsChain Run.Apart) : runs (rs.flatMap Run.positions) = rs := by
  induction rs with
  | nil => rfl
  | cons run rest ih =>
    have hrest := ih (fun next hnext => hlength next (.tail _ hnext)) hapart.tail
    obtain ⟨start, length⟩ := run
    obtain ⟨length, rfl⟩ := Nat.exists_eq_add_of_le' (hlength _ (.head _))
    have hhead : ∀ p ∈ (rest.flatMap Run.positions).head?, p ≠ start + (length + 1) := by
      intro p hp
      have hstart := head?_runs (rest.flatMap Run.positions)
      rw [hrest, hp] at hstart
      cases hapart with
      | singleton => cases hstart
      | cons_cons hnext _ =>
        cases hstart
        exact Ne.symm hnext
    rw [List.flatMap_cons, Run.positions, runs_append hhead, hrest]

/-- The segment of a run that is closed after some positions of a field with `total` in all. -/
def Run.close (width total consumed : Nat) (run : Run) : Segment :=
  ⟨width - run.start - run.length, run.length, total - (consumed + run.length)⟩

/-- Go through positions from left to right with a run that is still open. A position that follows
on makes it longer, any other one closes it and opens a new run, and so does the end. -/
def sweep (width total : Nat) : Nat → Run → List Nat → List Segment
  | consumed, run, [] => [run.close width total consumed]
  | consumed, run, p :: rest =>
    if p = run.start + run.length then
      sweep width total consumed ⟨run.start, run.length + 1⟩ rest
    else run.close width total consumed :: sweep width total (consumed + run.length) ⟨p, 1⟩ rest

/-- The pass gives the segments of the positions of its open run and those to come. -/
theorem sweep_eq (width : Nat) {total consumed start length : Nat} {ps : List Nat}
    (h : consumed + (length + 1) + ps.length = total) :
    sweep width total consumed ⟨start, length + 1⟩ ps =
      segmentsOf width (runs (List.range' start (length + 1) ++ ps)) := by
  induction ps generalizing consumed start length with
  | nil =>
    have hnone : total - (consumed + (length + 1)) = 0 := by
      rw [← h, List.length_nil]
      omega
    rw [runs_append (by simp), sweep, Run.close, hnone]
    rfl
  | cons p rest ih =>
    rw [List.length_cons] at h
    rw [sweep]
    split
    · rename_i hnext
      have hlonger : List.range' start (length + 1) ++ p :: rest =
          List.range' start (length + 1 + 1) ++ rest := by
        rw [List.range'_1_concat (n := length + 1), hnext, List.append_assoc]
        rfl
      have hrest : sweep width total consumed ⟨start, length + 1 + 1⟩ rest =
          segmentsOf width (runs (List.range' start (length + 1 + 1) ++ rest)) := by
        apply ih
        omega
      rw [hlonger]
      exact hrest
    · rename_i hnext
      have hcovered : total - (consumed + (length + 1)) = covered (runs (p :: rest)) := by
        rw [covered_runs, List.length_cons]
        omega
      have hrest : sweep width total (consumed + (length + 1)) ⟨p, 1⟩ rest =
          segmentsOf width (runs (p :: rest)) := by
        apply ih
        omega
      rw [runs_append (by simpa using hnext), segmentsOf, hrest, Run.close, hcovered]

namespace Segment

/-- The run of template positions that a segment moves, in a template of the given width. -/
def run (width : Nat) (s : Segment) : Run := ⟨width - s.offset - s.length, s.length⟩

/-- The bits of the field value that a segment moves, from the top down. -/
def valueBits (s : Segment) : List Nat := (List.range' s.valueOffset s.length).reverse

/-- What it means for segments to cut positions of a template into maximal runs. -/
structure Canonical (width : Nat) (positions : List Nat) (segments : List Segment) : Prop where
  /-- The runs one after the other are the positions. -/
  positions_eq : segments.flatMap (fun s => (s.run width).positions) = positions
  /-- Each segment moves at least one bit and lies in the template. -/
  bounds : ∀ s ∈ segments, 1 ≤ s.length ∧ s.offset + s.length ≤ width
  /-- All bits of the field value are shared out from the top down, each of them once. -/
  valueBits_eq : segments.flatMap valueBits = (List.range positions.length).reverse
  /-- No two segments share a bit of the template. -/
  disjoint : segments.Pairwise fun s t => s.mask &&& t.mask = 0
  /-- No run goes on where the one before it ends. -/
  maximal : segments.IsChain fun s t => (s.run width).Apart (t.run width)

end Segment

theorem reverse_range_add (m n : Nat) :
    (List.range (m + n)).reverse = (List.range' m n).reverse ++ (List.range m).reverse := by
  rw [List.range_add, List.reverse_append, List.range'_eq_map_range]

/-- The segments of runs that lie in a template have these runs. -/
theorem map_run_segmentsOf {width : Nat} {rs : List Run}
    (h : ∀ run ∈ rs, run.start + run.length ≤ width) :
    (segmentsOf width rs).map (Segment.run width) = rs := by
  induction rs with
  | nil => rfl
  | cons run rest ih =>
    have hrun := h run (.head _)
    have hstart : width - (width - run.start - run.length) - run.length = run.start := by omega
    rw [segmentsOf, List.map_cons, ih fun next hnext => h next (.tail _ hnext), Segment.run, hstart]

/-- The segments of runs share out as many bits as the runs have, from the top down. -/
theorem flatMap_valueBits_segmentsOf (width : Nat) (rs : List Run) :
    (segmentsOf width rs).flatMap Segment.valueBits = (List.range (covered rs)).reverse := by
  induction rs with
  | nil => rfl
  | cons run rest ih =>
    rw [segmentsOf, List.flatMap_cons, ih, Segment.valueBits, covered, Nat.add_comm,
      reverse_range_add]

theorem bounds_of_mem_segmentsOf {width : Nat} {rs : List Run}
    (hlength : ∀ run ∈ rs, 1 ≤ run.length) (hend : ∀ run ∈ rs, run.start + run.length ≤ width) :
    ∀ s ∈ segmentsOf width rs, 1 ≤ s.length ∧ s.offset + s.length ≤ width := by
  induction rs with
  | nil => simp [segmentsOf]
  | cons run rest ih =>
    have hrun := hend run (.head _)
    have hrest := ih (fun next hnext => hlength next (.tail _ hnext))
      fun next hnext => hend next (.tail _ hnext)
    rw [segmentsOf, List.forall_mem_cons]
    refine ⟨⟨hlength run (.head _), ?_⟩, hrest⟩
    simp only
    omega

namespace Segment

/-- Segments that share out the bits of a value from the top down are the segments of their runs. -/
theorem segmentsOf_run {width n : Nat} {segments : List Segment}
    (hbounds : ∀ s ∈ segments, 1 ≤ s.length ∧ s.offset + s.length ≤ width)
    (hbits : segments.flatMap valueBits = (List.range n).reverse) :
    covered (segments.map (run width)) = n ∧
      segmentsOf width (segments.map (run width)) = segments := by
  induction segments generalizing n with
  | nil =>
    have hlength := congrArg List.length hbits
    simp only [List.flatMap_nil, List.length_nil, List.length_reverse, List.length_range] at hlength
    exact ⟨hlength, rfl⟩
  | cons s rest ih =>
    obtain ⟨hpos, hend⟩ := hbounds s (.head _)
    have hlength := congrArg List.length hbits
    simp only [List.flatMap_cons, List.length_append, List.length_reverse, List.length_range,
      valueBits, List.length_range'] at hlength
    -- The segment takes the highest bits, which leaves the lower ones to the others.
    obtain ⟨m, rfl⟩ : ∃ m, n = m + s.length := ⟨_, by rw [← hlength, Nat.add_comm]⟩
    rw [List.flatMap_cons, reverse_range_add] at hbits
    obtain ⟨htop, hbelow⟩ := List.append_inj hbits (by simp [valueBits])
    obtain ⟨hcovered, hsegments⟩ := ih (fun t ht => hbounds t (.tail _ ht)) hbelow
    have hoffset : s.valueOffset = m := by
      have hinj := List.range'_inj.mp (List.reverse_injective htop)
      omega
    have hplace : width - (width - s.offset - s.length) - s.length = s.offset := by omega
    rw [List.map_cons, covered, hcovered, segmentsOf, hcovered, hsegments]
    refine ⟨Nat.add_comm .., ?_⟩
    rw [run, hplace, ← hoffset]

/-- Segments with different positions have disjoint masks. -/
theorem mask_and_mask_eq_zero {width : Nat} {s t : Segment} (hs : s.offset + s.length ≤ width)
    (ht : t.offset + t.length ≤ width)
    (h : (s.run width).positions.Disjoint (t.run width).positions) : s.mask &&& t.mask = 0 := by
  apply Nat.eq_of_testBit_eq
  intro b
  rw [Nat.testBit_and, mask, mask, Bits.testBit_mask, Bits.testBit_mask, Nat.zero_testBit,
    Bool.and_eq_false_iff, decide_eq_false_iff_not, decide_eq_false_iff_not, ← not_and_or]
  rintro ⟨hbs, hbt⟩
  refine @h (width - 1 - b) ?_ ?_
  · rw [Run.positions, List.mem_range'_1, run]
    simp only
    omega
  · rw [Run.positions, List.mem_range'_1, run]
    simp only
    omega

/-- Positions and the sharing of bits determine the segments. -/
theorem Canonical.eq_segmentsOf {width : Nat} {positions : List Nat} {segments : List Segment}
    (h : Canonical width positions segments) : segments = segmentsOf width (runs positions) := by
  have hruns : runs positions = segments.map (run width) := by
    rw [← h.positions_eq, ← List.flatMap_map]
    apply runs_flatMap_positions
    · rw [List.forall_mem_map]
      exact fun s hs => (h.bounds s hs).1
    · rw [List.isChain_map]
      exact h.maximal
  rw [hruns, (segmentsOf_run h.bounds h.valueBits_eq).2]

end Segment

namespace Field

theorem canonical_segments (f : Field) :
    Segment.Canonical f.templateWidth f.positions f.segments := by
  have hend := run_le f.templateWidth f.positions f.below
  have hruns : f.segments.map (Segment.run f.templateWidth) = runs f.positions :=
    map_run_segmentsOf hend
  have hbounds := bounds_of_mem_segmentsOf (length_of_mem_runs f.positions) hend
  have hpositions : f.segments.flatMap (fun s => (s.run f.templateWidth).positions) =
      f.positions := by
    rw [← List.flatMap_map, hruns, flatMap_positions_runs]
  refine ⟨hpositions, hbounds, ?_, ?_, ?_⟩
  · rw [segments, flatMap_valueBits_segmentsOf, covered_runs]
  · have hdistinct := f.nodup
    rw [← hpositions, List.nodup_flatMap] at hdistinct
    refine hdistinct.2.imp_of_mem ?_
    intro s t hs ht hst
    exact Segment.mask_and_mask_eq_zero (hbounds s hs).2 (hbounds t ht).2 hst
  · rw [← List.isChain_map (Segment.run f.templateWidth), hruns]
    exact runs_apart f.positions

/-- The segments of a field cut its positions into maximal runs, and no other segments do. A single
pass over the positions from left to right finds them. -/
theorem segments_canonical (f : Field) :
    Segment.Canonical f.templateWidth f.positions f.segments ∧
    (∀ segments, Segment.Canonical f.templateWidth f.positions segments → segments = f.segments) ∧
    f.segments = sweep f.templateWidth f.width 0 ⟨f.positions.head f.nonempty, 1⟩
      f.positions.tail := by
  refine ⟨f.canonical_segments, fun segments h => h.eq_segmentsOf, ?_⟩
  have hpositions : f.positions.head f.nonempty :: f.positions.tail = f.positions :=
    List.cons_head_tail f.nonempty
  have hlength : 0 + (0 + 1) + f.positions.tail.length = f.width := by
    rw [width, ← congrArg List.length hpositions, List.length_cons]
    omega
  rw [sweep_eq f.templateWidth hlength]
  exact congrArg (fun ps => segmentsOf f.templateWidth (runs ps)) hpositions.symm

/-- Positions that jump backwards and then stop for a single bit. -/
theorem segments_canonical_jumping :
    Segment.Canonical 8 [6, 7, 0, 1, 3] [⟨0, 2, 3⟩, ⟨6, 2, 1⟩, ⟨4, 1, 0⟩] ∧
      (⟨⟨'a', rfl⟩, [6, 7, 0, 1, 3], 8, by decide, by decide, by decide⟩ : Field).segments =
        [⟨0, 2, 3⟩, ⟨6, 2, 1⟩, ⟨4, 1, 0⟩] := by
  have hcanonical : Segment.Canonical 8 [6, 7, 0, 1, 3] [⟨0, 2, 3⟩, ⟨6, 2, 1⟩, ⟨4, 1, 0⟩] :=
    ⟨rfl, by decide, rfl, by decide, by simp [Segment.run, Run.Apart]⟩
  exact ⟨hcanonical, ((segments_canonical _).2.1 _ hcanonical).symm⟩

end Field

end BitTemplate
