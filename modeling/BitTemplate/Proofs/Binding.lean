import BitTemplate.Operation.Binding
import BitTemplate.Proofs.Cells
import BitTemplate.Proofs.Failure

/-!
Binding arranges one value for every letter. Without variables of a caller, each of them was given
by position or by keyword; a full list of values given by position is bound as it is.
-/
namespace BitTemplate.Layout

open Failure

theorem bind_eq_iff (l : Layout) (values : List Value) (keywords : List (Value × Value))
    (scope : Option Scope) (bound : List Value) :
    l.bind values keywords scope = .ok bound ↔ values.length ≤ l.names.length ∧
      ∃ table, l.addKeywords (l.names.zip values) keywords = .ok table ∧
        l.names.mapM (l.resolve table scope) = .ok bound := by
  unfold bind
  by_cases hmany : l.names.length < values.length
  · simp [hmany]
  · rw [if_neg hmany, bind_eq_ok_iff]
    have hle : values.length ≤ l.names.length := by omega
    simp [hle]

theorem length_of_bind {l : Layout} {values : List Value} {keywords : List (Value × Value)}
    {scope : Option Scope} {bound : List Value}
    (h : l.bind values keywords scope = .ok bound) : bound.length = l.names.length := by
  obtain ⟨_, table, _, hbound⟩ := (l.bind_eq_iff values keywords scope bound).mp h
  rw [mapM_eq_ok_iff] at hbound
  exact hbound.length_eq.symm

theorem mem_of_lookup {α β : Type} [BEq α] [LawfulBEq α] {table : List (α × β)} {a : α} {b : β}
    (h : table.lookup a = some b) : (a, b) ∈ table := by
  obtain ⟨before, after, hsplit, _⟩ := List.lookup_eq_some_iff.mp h
  rw [hsplit]
  simp

theorem mem_of_addKeywords {l : Layout} {table result : List (Letter × Value)}
    {keywords : List (Value × Value)} (h : l.addKeywords table keywords = .ok result) :
    ∀ entry ∈ result, entry ∈ table ∨ entry.2 ∈ keywords.map Prod.snd := by
  induction keywords generalizing table with
  | nil =>
    cases h
    exact fun entry hentry => Or.inl hentry
  | cons pair rest ih =>
    obtain ⟨keyword, value⟩ := pair
    unfold addKeywords at h
    split at h
    · cases h
    · split at h
      · cases h
      · intro entry hentry
        rcases ih h entry hentry with hold | hnew
        · rcases List.mem_append.mp hold with hold | hadded
          · exact Or.inl hold
          · rw [List.mem_singleton] at hadded
            rw [hadded]
            exact Or.inr (List.mem_cons_self ..)
        · exact Or.inr (List.mem_cons_of_mem _ hnew)

/-- Without a caller's variables, every bound value was given. -/
theorem mem_of_bind {l : Layout} {values : List Value} {keywords : List (Value × Value)}
    {bound : List Value} (h : l.bind values keywords none = .ok bound) :
    ∀ v ∈ bound, v ∈ values ++ keywords.map Prod.snd := by
  obtain ⟨_, table, htable, hbound⟩ := (l.bind_eq_iff values keywords none bound).mp h
  intro v hv
  obtain ⟨a, _, hresolve⟩ := exists_of_mem_mapM hbound hv
  have hlookup : table.lookup a = some v := by
    unfold resolve at hresolve
    split at hresolve
    · rename_i w hw
      rw [hw]
      exact congrArg some (Except.ok.inj hresolve)
    · cases hresolve
  rw [List.mem_append]
  rcases mem_of_addKeywords htable _ (mem_of_lookup hlookup) with hzip | hkeyword
  · exact Or.inl (List.of_mem_zip hzip).2
  · exact Or.inr hkeyword

private theorem lookup_zip {names : List Letter} {values : List Value} (hnodup : names.Nodup)
    (hlength : values.length = names.length) :
    List.Forall₂ (fun a v => (names.zip values).lookup a = some v) names values := by
  induction names generalizing values with
  | nil =>
    cases values with
    | nil => exact List.Forall₂.nil
    | cons v rest => simp at hlength
  | cons a rest ih =>
    cases values with
    | nil => simp at hlength
    | cons v values =>
      rw [List.nodup_cons] at hnodup
      refine List.Forall₂.cons (by simp) ?_
      have hrest := ih hnodup.2 (by simpa using hlength)
      rw [List.forall₂_iff_zip] at hrest ⊢
      refine ⟨hrest.1, ?_⟩
      intro b w hbw
      have hne : b ≠ a := by
        intro heq
        subst heq
        exact hnodup.1 (List.of_mem_zip hbw).1
      rw [List.zip_cons_cons, List.lookup_cons, beq_false_of_ne hne]
      exact hrest.2 hbw

/-- A value for every letter, given by position, is bound as it is. -/
theorem bind_positional (l : Layout) (values : List Value) (scope : Option Scope)
    (hlength : values.length = l.names.length) : l.bind values [] scope = .ok values := by
  refine (l.bind_eq_iff values [] scope values).mpr ⟨by omega, l.names.zip values, rfl, ?_⟩
  rw [mapM_eq_ok_iff]
  refine (lookup_zip l.nodup_names hlength).imp ?_
  intro a v hlookup
  unfold resolve
  rw [hlookup]

end BitTemplate.Layout
