import BitTemplate.Document.Basic
import BitTemplate.Proofs.Failure
import Mathlib.Algebra.Order.Ring.Int

/-!
The values that documents are made of: nothing, truth values, finite numbers, texts, lists of
documents, and dictionaries from different texts to documents. Numbers are compared by what they
amount to, and dictionaries by what stands at their keys.
-/
namespace BitTemplate

open Failure

theorem Double.one_pos : (0 : Int) < Double.one := by
  rw [Double.one, Nat.one_shiftLeft]
  exact_mod_cast Nat.two_pow_pos 1074

namespace Value

/-- The values that documents are made of. -/
inductive IsDocument : Value → Prop
  | none : IsDocument .none
  | bool (b : Bool) : IsDocument (.bool b)
  | int (n : Int) : IsDocument (.int n)
  | real (negative : Bool) (units : Nat) : IsDocument (.real (.finite negative units))
  | text (s : String) : IsDocument (.text s)
  | list {items : List Value} (hitems : ∀ v ∈ items, IsDocument v) : IsDocument (.list items)
  | dict {entries : List (Value × Value)} (hkeys : ∀ entry ∈ entries, ∃ s, entry.1 = .text s)
      (hvalues : ∀ entry ∈ entries, IsDocument entry.2)
      (hdistinct : (entries.map Prod.fst).Nodup) : IsDocument (.dict entries)

/-- A number without a fraction, written as an integer or with a point. -/
def AmountsTo (v : Value) (n : Int) : Prop :=
  v = .int n ∨ ∃ negative units, v = .real (.finite negative units) ∧
    Double.signed negative units = n * Double.one

/-- A value that is not a number below an integer. -/
def AtLeast (v : Value) (n : Int) : Prop :=
  (∀ m, v = .int m → n ≤ m) ∧
    ∀ negative units, v = .real (.finite negative units) →
      n * Double.one ≤ Double.signed negative units

/-- A dictionary that has exactly the given entries, in any order. -/
def Has (v : Value) (entries : List (String × Value)) : Prop :=
  ∃ es, v = .dict es ∧ es.Perm (entries.map fun entry => (.text entry.1, entry.2))

theorem amountsTo_int_iff (m n : Int) : (Value.int m).AmountsTo n ↔ m = n := by
  simp [AmountsTo]

theorem amountsTo_real_iff (negative : Bool) (units : Nat) (n : Int) :
    (Value.real (.finite negative units)).AmountsTo n ↔
      Double.signed negative units = n * Double.one := by
  simp [AmountsTo]

/-- A number with a point compares with an integer as the integer that it amounts to. -/
theorem AmountsTo.compare_eq {negative : Bool} {units : Nat} {m : Int}
    (h : (Value.real (.finite negative units)).AmountsTo m) (n : Int) :
    (Double.finite negative units).compareInt? n = some (compare m n) := by
  rw [amountsTo_real_iff] at h
  rw [Double.compareInt?, h, Option.some.injEq]
  rcases lt_trichotomy m n with hlt | rfl | hgt
  · rw [compare_lt_iff_lt.mpr hlt, compare_lt_iff_lt]
    exact Int.mul_lt_mul_of_pos_right hlt Double.one_pos
  · exact (compare_eq_iff_eq.mpr rfl).trans (compare_eq_iff_eq.mpr rfl).symm
  · rw [compare_gt_iff_gt.mpr hgt, compare_gt_iff_gt]
    exact Int.mul_lt_mul_of_pos_right hgt Double.one_pos

theorem AmountsTo.atLeast_iff {v : Value} {m : Int} (h : v.AmountsTo m) (n : Int) :
    v.AtLeast n ↔ n ≤ m := by
  obtain rfl | ⟨negative, units, rfl, hunits⟩ := h
  · simp [AtLeast]
  · simpa [AtLeast, hunits] using mul_le_mul_iff_of_pos_right Double.one_pos

/-- The values that are the same document as an integer. -/
theorem sameDocument_int_iff (v : Value) (n : Int) :
    v.sameDocument (.int n) = true ↔ v.AmountsTo n := by
  cases v with
  | int m => simp [sameDocument, amountsTo_int_iff]
  | real x =>
    cases x with
    | finite negative units =>
      rw [amountsTo_real_iff]
      simp [sameDocument, Double.compareInt?]
    | infinite negative => cases negative <;> simp [sameDocument, Double.compareInt?, AmountsTo]
    | undefined => simp [sameDocument, Double.compareInt?, AmountsTo]
  | _ => simp [sameDocument, AmountsTo]

theorem AmountsTo.amountsTo_iff {v : Value} {m : Int} (h : v.AmountsTo m) (n : Int) :
    v.AmountsTo n ↔ m = n := by
  obtain rfl | ⟨negative, units, rfl, hunits⟩ := h
  · exact amountsTo_int_iff m n
  · rw [amountsTo_real_iff, hunits]
    exact ⟨Int.eq_of_mul_eq_mul_right Double.one_pos.ne', fun h => by rw [h]⟩

/-- Numbers are the same document if they amount to the same. -/
theorem AmountsTo.sameDocument_iff {v w : Value} {m n : Int} (hv : v.AmountsTo m)
    (hw : w.AmountsTo n) : v.sameDocument w = true ↔ m = n := by
  rw [← hv.amountsTo_iff]
  obtain rfl | ⟨negative, units, rfl, hunits⟩ := hw
  · exact sameDocument_int_iff v n
  · obtain rfl | ⟨sign, others, rfl, hothers⟩ := hv
    · have hreal : (Value.real (.finite negative units)).AmountsTo n :=
        (amountsTo_real_iff negative units n).mpr hunits
      rw [sameDocument, hreal.compare_eq, beq_iff_eq, Option.some.injEq, compare_eq_iff_eq,
        amountsTo_int_iff, eq_comm]
    · rw [amountsTo_real_iff, ← hunits, sameDocument, Double.same, beq_iff_eq]

/-- A number is different from those in a list if it amounts to none of what they amount to. -/
theorem AmountsTo.forall_different_iff {v : Value} {n : Nat} (hv : v.AmountsTo n)
    {items : List Value} {numbers : List Nat}
    (h : List.Forall₂ (fun w m => w.AmountsTo (m : Int)) items numbers) :
    (∀ w ∈ items, v.sameDocument w = false) ↔ n ∉ numbers := by
  induction h with
  | nil => simp
  | @cons w m items numbers hw _ ih =>
    rw [List.forall_mem_cons, ih, List.mem_cons, not_or, ← Bool.not_eq_true,
      hv.sameDocument_iff hw, Nat.cast_inj]

theorem distinctItems_iff (items : List Value) : distinctItems items = true ↔
    items.Pairwise fun v w => v.sameDocument w = false := by
  induction items with
  | nil => simp [distinctItems]
  | cons v rest ih =>
    rw [distinctItems, Bool.and_eq_true, ih, List.pairwise_cons]
    simp

theorem pairwise_different_iff {items : List Value} {numbers : List Nat}
    (h : List.Forall₂ (fun v n => v.AmountsTo (n : Int)) items numbers) :
    items.Pairwise (fun v w => v.sameDocument w = false) ↔ numbers.Nodup := by
  induction h with
  | nil => simp
  | @cons v n items numbers hv hrest ih =>
    rw [List.pairwise_cons, ih, List.nodup_cons, ← hv.forall_different_iff hrest]

/-- A number is integral if it amounts to an integer. -/
theorem isIntegral_iff (negative : Bool) (units : Nat) :
    (Double.finite negative units).isIntegral = true ↔
      ∃ n, (Value.real (.finite negative units)).AmountsTo n := by
  simp only [amountsTo_real_iff, mul_comm _ (Double.one : Int)]
  change (units % Double.one == 0) = true ↔ (Double.one : Int) ∣ Double.signed negative units
  have hsigned : (Double.one : Int) ∣ Double.signed negative units ↔ Double.one ∣ units := by
    unfold Double.signed
    split
    · rw [Int.dvd_neg, Int.natCast_dvd_natCast]
    · rw [Int.natCast_dvd_natCast]
  rw [hsigned, Nat.dvd_iff_mod_eq_zero, beq_iff_eq]

/-- What stands at the keys of a document are documents. -/
theorem Has.isDocument {v : Value} {entries : List (String × Value)} (h : v.Has entries)
    (hv : v.IsDocument) : ∀ entry ∈ entries, entry.2.IsDocument := by
  obtain ⟨es, rfl, hperm⟩ := h
  cases hv with
  | dict _ hvalues _ =>
    intro entry hentry
    exact hvalues (.text entry.1, entry.2)
      (hperm.mem_iff.mpr (List.mem_map_of_mem (f := fun e => (Value.text e.1, e.2)) hentry))

theorem documentItems?_eq {items : List Value} (h : ∀ v ∈ items, v.document? = some v) :
    documentItems? items = some items := by
  induction items with
  | nil => rfl
  | cons v rest ih =>
    rw [List.forall_mem_cons] at h
    rw [documentItems?, h.1, ih h.2]

theorem documentEntries?_eq {entries : List (Value × Value)}
    (h : ∀ entry ∈ entries, entry.2.document? = some entry.2) :
    documentEntries? entries = some entries := by
  induction entries with
  | nil => rfl
  | cons entry rest ih =>
    rw [List.forall_mem_cons] at h
    rw [documentEntries?, h.1, ih h.2]

theorem IsDocument.document?_eq {v : Value} (h : v.IsDocument) : v.document? = some v := by
  induction h with
  | none => rfl
  | bool b => rfl
  | int n => rfl
  | real negative units => rfl
  | text s => rfl
  | list _ ih => rw [document?, documentItems?_eq ih, Option.map_some]
  | dict _ _ _ ih => rw [document?, documentEntries?_eq ih, Option.map_some]

theorem same_text_iff (v : Value) (s : String) : v.same (.text s) = true ↔ v = .text s := by
  cases v <;> simp [same, equalsInt, compareInt?, toInt?, numeral?]

theorem sameDocument_text_iff (v : Value) (s : String) :
    v.sameDocument (.text s) = true ↔ v = .text s := by
  cases v <;> simp [sameDocument]

theorem entry?_eq_some_iff {entries : List (Value × Value)}
    (hdistinct : (entries.map Prod.fst).Nodup) (key : String) (v : Value) :
    entry? key entries = some v ↔ (.text key, v) ∈ entries := by
  have hkey : ∀ entry : Value × Value, entry.1.same (.text key) = true ↔ entry.1 = .text key :=
    fun entry => same_text_iff entry.1 key
  unfold entry?
  rw [Option.map_eq_some_iff]
  constructor
  · rintro ⟨entry, hfound, rfl⟩
    obtain ⟨hmem, hname⟩ := (find?_eq_some_iff_of_nodup hdistinct hkey entry).mp hfound
    rwa [← hname]
  · intro hmem
    exact ⟨_, (find?_eq_some_iff_of_nodup hdistinct hkey _).mpr ⟨hmem, rfl⟩, rfl⟩

/-- A dictionary whose keys are some names is made of one entry for each of them. -/
theorem perm_of_keys {entries : List (Value × Value)} (hdistinct : (entries.map Prod.fst).Nodup)
    {names : List String} (hnames : names.Nodup) {value : String → Value}
    (hclosed : ∀ entry ∈ entries, ∃ name ∈ names, entry.1 = .text name)
    (hmem : ∀ name ∈ names, (.text name, value name) ∈ entries) :
    entries.Perm (names.map fun name => (.text name, value name)) := by
  have hentries : entries.Nodup := hdistinct.of_map _
  have hpairs : (names.map fun name => (Value.text name, value name)).Nodup :=
    hnames.map fun _ _ hpair => Value.text.inj (congrArg Prod.fst hpair)
  -- Neither list has a pair twice, so it suffices that they have the same pairs.
  rw [List.perm_ext_iff_of_nodup hentries hpairs]
  intro entry
  rw [List.mem_map]
  constructor
  · intro hentry
    obtain ⟨name, hname, hkey⟩ := hclosed entry hentry
    exact ⟨name, hname, List.inj_on_of_nodup_map hdistinct (hmem name hname) hentry hkey.symm⟩
  · rintro ⟨name, hname, rfl⟩
    exact hmem name hname

end Value

end BitTemplate
