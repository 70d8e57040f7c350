import Mathlib.Data.List.Forall2
import Mathlib.Data.List.Nodup

/-!
Computations that may fail, one after another and over lists. A chain succeeds exactly if each of
its parts does. Going through a list succeeds exactly if every item does, and otherwise fails as
the first failing item does. Looking a key up succeeds if some item has it. Two computations are
alike if they fail in the same way or succeed with related results, and what is done with them step
by step keeps them alike.
-/
namespace BitTemplate.Failure

variable {ε α β γ : Type}

theorem bind_eq_ok_iff (x : Except ε α) (f : α → Except ε β) (b : β) :
    (x >>= f) = .ok b ↔ ∃ a, x = .ok a ∧ f a = .ok b := by
  cases x with
  | error e => simp [bind, Except.bind]
  | ok a => simp [bind, Except.bind]

@[simp] theorem ok_bind (a : α) (f : α → Except ε β) : (Except.ok a >>= f) = f a := rfl

@[simp] theorem error_bind (e : ε) (f : α → Except ε β) :
    ((Except.error e : Except ε α) >>= f) = .error e := rfl

@[simp] theorem map_ok (a : α) (f : α → β) : (Except.ok a : Except ε α).map f = .ok (f a) := rfl

@[simp] theorem map_error (e : ε) (f : α → β) :
    (Except.error e : Except ε α).map f = .error e := rfl

theorem map_eq_ok_iff (x : Except ε α) (f : α → β) (b : β) :
    x.map f = .ok b ↔ ∃ a, x = .ok a ∧ f a = b := by
  cases x with
  | error e => simp
  | ok a => simp

theorem eq_of_map_eq_ok {x : Except ε α} {a : α} (hx : x = .ok a) (f : α → β) {b : β}
    (h : x.map f = .ok b) : f a = b := by
  rw [hx] at h
  exact Except.ok.inj h

theorem map_eq_error_iff (x : Except ε α) (f : α → β) (e : ε) :
    x.map f = .error e ↔ x = .error e := by
  cases x with
  | error e' => simp
  | ok a => simp

theorem map_map (x : Except ε α) (f : α → β) (g : β → γ) : (x.map f).map g = x.map (g ∘ f) := by
  cases x <;> rfl

theorem bind_ok (x : Except ε α) (f : α → β) : (x >>= fun a => .ok (f a)) = x.map f := by
  cases x <;> rfl

/-- What is made of the result at the end may be made of the result of the last step. -/
theorem map_bind_eq {x : Except ε α} {f : α → Except ε β} {g : β → γ} {k : α → Except ε γ}
    (h : ∀ a, x = .ok a → (f a).map g = k a) : (x >>= f).map g = x >>= k := by
  cases x with
  | error e => rfl
  | ok a => exact h a rfl

theorem mapError_eq_ok_iff {δ : Type} (x : Except ε α) (f : ε → δ) (a : α) :
    x.mapError f = .ok a ↔ x = .ok a := by
  cases x with
  | error e => simp [Except.mapError]
  | ok b => simp [Except.mapError]

theorem mapM_cons (f : α → Except ε β) (a : α) (rest : List α) :
    (a :: rest).mapM f = f a >>= fun b => (rest.mapM f).map fun bs => b :: bs := by
  rw [List.mapM_cons]
  cases f a with
  | error e => rfl
  | ok b => cases rest.mapM f <;> rfl

theorem mapM_congr {f g : α → Except ε β} {xs : List α} (h : ∀ a ∈ xs, f a = g a) :
    xs.mapM f = xs.mapM g := by
  induction xs with
  | nil => rfl
  | cons a rest ih =>
    rw [List.forall_mem_cons] at h
    rw [mapM_cons, mapM_cons, h.1, ih h.2]

theorem mapM_eq_ok_iff (f : α → Except ε β) (xs : List α) (ys : List β) :
    xs.mapM f = .ok ys ↔ List.Forall₂ (fun a b => f a = .ok b) xs ys := by
  induction xs generalizing ys with
  | nil =>
    rw [List.mapM_nil, List.forall₂_nil_left_iff]
    constructor
    · intro h
      exact (Except.ok.inj h).symm
    · intro h
      rw [h]
      rfl
  | cons a rest ih =>
    rw [mapM_cons, bind_eq_ok_iff, List.forall₂_cons_left_iff]
    constructor
    · intro h
      obtain ⟨b, hb, hmap⟩ := h
      obtain ⟨bs, hbs, rfl⟩ := (map_eq_ok_iff _ _ _).mp hmap
      exact ⟨b, bs, hb, (ih bs).mp hbs, rfl⟩
    · intro h
      obtain ⟨b, bs, hb, hbs, rfl⟩ := h
      exact ⟨b, hb, (map_eq_ok_iff _ _ _).mpr ⟨bs, (ih bs).mpr hbs, rfl⟩⟩

/-- A list fails as its first failing item does. -/
theorem mapM_eq_error_iff (f : α → Except ε β) (xs : List α) (e : ε) :
    xs.mapM f = .error e ↔ ∃ before a after, xs = before ++ a :: after ∧
      (∀ a' ∈ before, ∃ b, f a' = .ok b) ∧ f a = .error e := by
  constructor
  · intro h
    induction xs with
    | nil => cases h
    | cons a rest ih =>
      rw [mapM_cons] at h
      cases hfirst : f a with
      | error e' =>
        rw [hfirst, error_bind] at h
        cases h
        exact ⟨[], a, rest, rfl, by simp, hfirst⟩
      | ok b =>
        rw [hfirst, ok_bind, map_eq_error_iff] at h
        obtain ⟨before, a', after, hsplit, hbefore, hfails⟩ := ih h
        refine ⟨a :: before, a', after, by rw [hsplit, List.cons_append], ?_, hfails⟩
        rw [List.forall_mem_cons]
        exact ⟨⟨b, hfirst⟩, hbefore⟩
  · intro h
    obtain ⟨before, a, after, rfl, hbefore, hfails⟩ := h
    induction before with
    | nil => rw [List.nil_append, mapM_cons, hfails, error_bind]
    | cons a' before ih =>
      rw [List.forall_mem_cons] at hbefore
      obtain ⟨⟨b, hb⟩, hbefore⟩ := hbefore
      rw [List.cons_append, mapM_cons, hb, ok_bind, ih hbefore, map_error]

/-- A list whose items only ever fail in one way fails in this way if one of them does. -/
theorem mapM_eq_error_of_mem {f : α → Except ε β} {xs : List α} {e : ε}
    (hall : ∀ a ∈ xs, ∀ e', f a = .error e' → e' = e) {a : α} (ha : a ∈ xs)
    (hfails : f a = .error e) : xs.mapM f = .error e := by
  induction xs with
  | nil => cases ha
  | cons a' rest ih =>
    rw [List.forall_mem_cons] at hall
    rw [mapM_cons]
    cases hfirst : f a' with
    | error e' => rw [hall.1 e' hfirst, error_bind]
    | ok b =>
      have ha' : a ∈ rest := by
        rcases List.mem_cons.mp ha with rfl | ha
        · rw [hfails] at hfirst
          cases hfirst
        · exact ha
      rw [ok_bind, ih hall.2 ha', map_error]

/-- What each item determines of its result, the list determines of the results. -/
theorem map_eq_of_mapM {f : α → Except ε β} {g : β → γ} {k : α → γ} {xs : List α} {ys : List β}
    (hg : ∀ a ∈ xs, ∀ b, f a = .ok b → g b = k a) (h : xs.mapM f = .ok ys) :
    ys.map g = xs.map k := by
  rw [mapM_eq_ok_iff] at h
  induction h with
  | nil => rfl
  | @cons a b xs ys hab hrest ih =>
    rw [List.map_cons, List.map_cons, hg a (List.mem_cons_self ..) b hab,
      ih fun a' ha' => hg a' (List.mem_cons_of_mem _ ha')]

/-- Every result of a list comes from one of its items. -/
theorem exists_of_mem_mapM {f : α → Except ε β} {xs : List α} {ys : List β}
    (h : xs.mapM f = .ok ys) {b : β} (hb : b ∈ ys) : ∃ a ∈ xs, f a = .ok b := by
  rw [mapM_eq_ok_iff] at h
  induction h with
  | nil => simp at hb
  | @cons a c xs ys hac hrest ih =>
    rcases List.mem_cons.mp hb with rfl | hb
    · exact ⟨a, List.mem_cons_self .., hac⟩
    · obtain ⟨a', ha', hfa'⟩ := ih hb
      exact ⟨a', List.mem_cons_of_mem _ ha', hfa'⟩

/-- Every item of a list with results has one of them. -/
theorem exists_mem_of_mapM {f : α → Except ε β} {xs : List α} {ys : List β}
    (h : xs.mapM f = .ok ys) {a : α} (ha : a ∈ xs) : ∃ b ∈ ys, f a = .ok b := by
  rw [mapM_eq_ok_iff] at h
  induction h with
  | nil => simp at ha
  | @cons a' b xs ys hb hrest ih =>
    rcases List.mem_cons.mp ha with rfl | ha
    · exact ⟨b, List.mem_cons_self .., hb⟩
    · obtain ⟨b', hb', hfa⟩ := ih ha
      exact ⟨b', List.mem_cons_of_mem _ hb', hfa⟩

/-- A list has results only if all of its items have. -/
theorem exists_of_mapM {f : α → Except ε β} {xs : List α} {ys : List β}
    (h : xs.mapM f = .ok ys) {a : α} (ha : a ∈ xs) : ∃ b, f a = .ok b := by
  obtain ⟨b, _, hb⟩ := exists_mem_of_mapM h ha
  exact ⟨b, hb⟩

/-- A list has results if all of its items have. -/
theorem exists_mapM {f : α → Except ε β} {xs : List α} (h : ∀ a ∈ xs, ∃ b, f a = .ok b) :
    ∃ ys, xs.mapM f = .ok ys := by
  induction xs with
  | nil => exact ⟨[], rfl⟩
  | cons a rest ih =>
    obtain ⟨b, hb⟩ := h a (List.mem_cons_self ..)
    obtain ⟨bs, hbs⟩ := ih fun a' ha' => h a' (List.mem_cons_of_mem _ ha')
    exact ⟨b :: bs, by rw [mapM_cons, hb, ok_bind, hbs, map_ok]⟩

/-- Where keys differ, looking a key up finds the one item that has it. -/
theorem find?_eq_some_iff_of_nodup {key : α → β} {k : β} {p : α → Bool} {xs : List α}
    (hdistinct : (xs.map key).Nodup) (hp : ∀ x, p x = true ↔ key x = k) (x : α) :
    xs.find? p = some x ↔ x ∈ xs ∧ key x = k := by
  constructor
  · intro hfound
    exact ⟨List.mem_of_find?_eq_some hfound, (hp x).mp (List.find?_some hfound)⟩
  · intro h
    obtain ⟨other, hother⟩ : ∃ other, xs.find? p = some other := by
      rw [← Option.isSome_iff_exists, List.find?_isSome]
      exact ⟨x, h.1, (hp x).mpr h.2⟩
    have hsame : key other = key x := ((hp other).mp (List.find?_some hother)).trans h.2.symm
    rw [hother, List.inj_on_of_nodup_map hdistinct (List.mem_of_find?_eq_some hother) h.1 hsame]

theorem bind_eq_error_iff (x : Except ε α) (f : α → Except ε β) (e : ε) :
    (x >>= f) = .error e ↔ x = .error e ∨ ∃ a, x = .ok a ∧ f a = .error e := by
  cases x with
  | error e' => simp
  | ok a => simp

/-- The error of a computation that fails. -/
def errors : Except ε α → List ε
  | .error e => [e]
  | .ok _ => []

@[simp] theorem mem_errors_iff (e : ε) (x : Except ε α) : e ∈ errors x ↔ x = .error e := by
  cases x with
  | error e' => simp [errors, eq_comm]
  | ok a => simp [errors]

/-- Two computations that both fail, in the same way, or both succeed, with related results. -/
inductive Alike (same : ε → ε → Prop) (related : α → β → Prop) :
    Except ε α → Except ε β → Prop where
  | error {e e' : ε} (h : same e e') : Alike same related (.error e) (.error e')
  | ok {a : α} {b : β} (h : related a b) : Alike same related (.ok a) (.ok b)

namespace Alike

variable {α' β' : Type} {same : ε → ε → Prop} {related : α → β → Prop} {related' : α' → β' → Prop}

theorem refl (hsame : ∀ e, same e e) (x : Except ε α) : Alike same Eq x x := by
  cases x with
  | error e => exact .error (hsame e)
  | ok a => exact .ok rfl

theorem bind {x : Except ε α} {y : Except ε β} {f : α → Except ε α'} {g : β → Except ε β'}
    (h : Alike same related x y) (hnext : ∀ a b, related a b → Alike same related' (f a) (g b)) :
    Alike same related' (x >>= f) (y >>= g) := by
  cases h with
  | error h => exact .error h
  | ok h => exact hnext _ _ h

/-- Computations with the same results may go on with them. -/
theorem next {x y : Except ε α} {f : α → Except ε α'} {g : α → Except ε β'}
    (h : Alike same Eq x y) (hnext : ∀ a, Alike same related' (f a) (g a)) :
    Alike same related' (x >>= f) (y >>= g) := by
  refine h.bind ?_
  intro a b hab
  rw [← hab]
  exact hnext a

theorem map {x : Except ε α} {y : Except ε β} {f : α → α'} {g : β → β'}
    (h : Alike same related x y) (hresult : ∀ a b, related a b → related' (f a) (g b)) :
    Alike same related' (x.map f) (y.map g) := by
  cases h with
  | error h => exact .error h
  | ok h => exact .ok (hresult _ _ h)

theorem mapError {δ : Type} {same' : δ → δ → Prop} {f : ε → δ} {x : Except ε α} {y : Except ε β}
    (h : Alike same related x y) (hf : ∀ e e', same e e' → same' (f e) (f e')) :
    Alike same' related (x.mapError f) (y.mapError f) := by
  cases h with
  | error h => exact .error (hf _ _ h)
  | ok h => exact .ok h

/-- What is known of the results may be used for how they are related. -/
theorem imp {x : Except ε α} {y : Except ε β} {stronger : α → β → Prop}
    (h : Alike same related x y)
    (hstronger : ∀ a b, x = .ok a → related a b → stronger a b) : Alike same stronger x y := by
  cases h with
  | error h => exact .error h
  | ok h => exact .ok (hstronger _ _ rfl h)

theorem exists_of_ok {x : Except ε α} {y : Except ε β} {a : α} (h : Alike same related x y)
    (hx : x = .ok a) : ∃ b, y = .ok b ∧ related a b := by
  rw [hx] at h
  cases h with
  | ok h => exact ⟨_, rfl, h⟩

theorem mapM {f : α → Except ε α'} {g : β → Except ε β'} {xs : List α} {ys : List β}
    (h : List.Forall₂ (fun a b => Alike same related' (f a) (g b)) xs ys) :
    Alike same (List.Forall₂ related') (xs.mapM f) (ys.mapM g) := by
  induction h with
  | nil => exact .ok .nil
  | cons hfirst _ ih =>
    rw [mapM_cons, mapM_cons]
    refine hfirst.bind ?_
    intro a b hab
    exact ih.map fun as bs hrest => .cons hab hrest

theorem mapM_same {f g : α → Except ε β} {xs : List α}
    (h : ∀ a ∈ xs, Alike same Eq (f a) (g a)) : Alike same Eq (xs.mapM f) (xs.mapM g) := by
  induction xs with
  | nil => exact .ok rfl
  | cons a rest ih =>
    rw [List.forall_mem_cons] at h
    rw [mapM_cons, mapM_cons]
    refine h.1.next ?_
    intro b
    exact (ih h.2).map fun bs _ hrest => congrArg (b :: ·) hrest

end Alike

end BitTemplate.Failure
