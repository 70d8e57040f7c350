import BitTemplate.Capacity.Basic
import BitTemplate.Proofs.Figures
import BitTemplate.Proofs.Tokens
import Mathlib.Algebra.Order.Floor.Div
import Mathlib.GroupTheory.GroupAction.Ring

/-!
Numbers in the digits of a width. A number can be written in the binary or hexadecimal digits of a
width exactly if it fits the width. It is then written in full, in lower case and with zeros in
front, and reading the digits gives the number, so that different numbers are never written alike.
-/
namespace BitTemplate

open Failure

namespace Text

/-- The digits of all radixes up to sixteen, in their order. -/
def lowerDigits : List Char := "0123456789abcdef".toList

/-- Some digits of a radix, so many of them, write a number, the most significant one first. -/
structure Writes (radix count : Nat) (n : Int) (digits : List Char) : Prop where
  length_eq : digits.length = count
  lower : ∀ c ∈ digits, c ∈ lowerDigits.take radix
  read_eq : (Script.numberIn? radix digits).map Nat.cast = some n

theorem Writes.unique {radix count : Nat} {n m : Int} {digits : List Char}
    (h : Writes radix count n digits) (h' : Writes radix count m digits) : n = m :=
  Option.some.inj (h.read_eq.symm.trans h'.read_eq)

theorem digitChar_mem_lowerDigits {radix d : Nat} (hradix : radix ≤ 16) (hd : d < radix) :
    digitChar d ∈ lowerDigits.take radix := by
  have hdigit : ∀ d < 16, lowerDigits[d]? = some (digitChar d) := by decide
  have htake : (lowerDigits.take radix)[d]? = some (digitChar d) := by
    rw [List.getElem?_take_of_lt hd, hdigit d (hd.trans_le hradix)]
  exact List.mem_of_getElem? htake

theorem writes_lastDigits {radix count n : Nat} (hpos : 0 < radix) (hradix : radix ≤ 16)
    (h : n < radix ^ count) : Writes radix count n (lastDigits radix count n) where
  length_eq := length_lastDigits radix count n
  lower := by
    intro c hc
    obtain ⟨d, hd, rfl⟩ := exists_digit_of_mem_lastDigits hpos hc
    exact digitChar_mem_lowerDigits hradix hd
  read_eq := by
    rw [Script.numberIn?_lastDigits hpos hradix, Nat.mod_eq_of_lt h]
    rfl

theorem hexDigitCount_eq (width : Nat) : hexDigitCount width = max 1 (width ⌈/⌉ 4) := by
  rw [hexDigitCount, Nat.ceilDiv_eq_add_pred_div]
  rfl

end Text

namespace Number

open Text

variable {n m : Int} {width : Nat} {s : String}

/-- However a number is written, it is written exactly if it fits its width. -/
theorem map_fitting_eq_ok_iff (write : Nat → Nat → String) :
    (fitting (.int n) (.int width)).map (fun fit => write fit.1 fit.2) = .ok s ↔
      (0 ≤ n ∧ n < 2 ^ width) ∧ write n.toNat width = s := by
  rw [fitting_int]
  split
  · rename_i hfits
    simp [hfits]
  · rename_i hfits
    simp [hfits]

theorem exists_map_fitting_iff (write : Nat → Nat → String) :
    (∃ s, (fitting (.int n) (.int width)).map (fun fit => write fit.1 fit.2) = .ok s) ↔
      0 ≤ n ∧ n < 2 ^ width := by
  simp only [map_fitting_eq_ok_iff, exists_and_left, exists_eq', and_true]

theorem writes_binary (h : binary (.int n) (.int width) = .ok s) : Writes 2 width n s.toList := by
  obtain ⟨⟨hn, hlt⟩, rfl⟩ := (map_fitting_eq_ok_iff fixedBinary).mp h
  obtain ⟨k, rfl⟩ := Int.eq_ofNat_of_zero_le hn
  rw [fixedBinary, String.toList_ofList, Int.toNat_natCast]
  exact writes_lastDigits (by decide) (by decide) (by exact_mod_cast hlt)

theorem writes_hex (h : hex (.int n) (.int width) = .ok s) :
    ∃ digits, s.toList = '0' :: 'x' :: digits ∧ Writes 16 (max 1 (width ⌈/⌉ 4)) n digits := by
  obtain ⟨⟨hn, hlt⟩, rfl⟩ := (map_fitting_eq_ok_iff fixedHex).mp h
  obtain ⟨k, rfl⟩ := Int.eq_ofNat_of_zero_le hn
  have hk : k < 16 ^ hexDigitCount width := Script.lt_pow_hexDigitCount (by exact_mod_cast hlt)
  rw [← hexDigitCount_eq, Int.toNat_natCast]
  exact ⟨_, by simp [fixedHex], writes_lastDigits (by decide) le_rfl hk⟩

/-- A hexadecimal literal reads as its number. -/
theorem read_hex (h : hex (.int n) (.int width) = .ok s) :
    (Script.number? s.toList).map Nat.cast = some n := by
  obtain ⟨⟨hn, hlt⟩, rfl⟩ := (map_fitting_eq_ok_iff fixedHex).mp h
  obtain ⟨k, rfl⟩ := Int.eq_ofNat_of_zero_le hn
  rw [Int.toNat_natCast, Script.number?_fixedHex (by exact_mod_cast hlt)]
  rfl

theorem binary_injective (h : binary (.int n) (.int width) = .ok s)
    (h' : binary (.int m) (.int width) = .ok s) : m = n :=
  (writes_binary h').unique (writes_binary h)

theorem hex_injective (h : hex (.int n) (.int width) = .ok s)
    (h' : hex (.int m) (.int width) = .ok s) : m = n :=
  Option.some.inj ((read_hex h').symm.trans (read_hex h))

end Number

namespace Capacity

theorem width_eq_ok {width : Nat} (h : width + 1 < memoryLimit) :
    Capacity.width (.int width) = .ok width := by
  have hshift : checkShift 1 width = .ok () := checkShift_eq_ok (by omega)
  change checkShift 1 width >>= (fun _ => .ok width) = .ok width
  rw [hshift, ok_bind]

theorem binary_eq (n : Int) {width : Nat} (h : width + 1 < memoryLimit) :
    binary (.int n) (.int width) = Number.binary (.int n) (.int width) := by
  rw [binary, integer_eq_ok _ n rfl, ok_bind, width_eq_ok h, ok_bind]

theorem hex_eq (n : Int) {width : Nat} (h : width + 1 < memoryLimit) :
    hex (.int n) (.int width) = Number.hex (.int n) (.int width) := by
  rw [hex, integer_eq_ok _ n rfl, ok_bind, width_eq_ok h, ok_bind]

end Capacity

/-- An integer is written in the binary or in the hexadecimal digits of a width exactly if it is not
negative and fits the width. There are then as many binary digits as the width has bits, or a mark
and one hexadecimal digit for every four bits, started or full, but at least one. They read as the
number, so two integers are never written alike. Callers get the same for every width that fits into
memory. -/
theorem Number.digits_exact (n : Int) (width : Nat) :
    ((∃ s, binary (.int n) (.int width) = .ok s) ↔ 0 ≤ n ∧ n < 2 ^ width) ∧
    ((∃ s, hex (.int n) (.int width) = .ok s) ↔ 0 ≤ n ∧ n < 2 ^ width) ∧
    (∀ s, binary (.int n) (.int width) = .ok s →
      Text.Writes 2 width n s.toList ∧
      ∀ m, binary (.int m) (.int width) = .ok s → m = n) ∧
    (∀ s, hex (.int n) (.int width) = .ok s →
      (∃ digits, s.toList = '0' :: 'x' :: digits ∧
        Text.Writes 16 (max 1 (width ⌈/⌉ 4)) n digits) ∧
      (Script.number? s.toList).map Nat.cast = some n ∧
      ∀ m, hex (.int m) (.int width) = .ok s → m = n) ∧
    (width + 1 < Capacity.memoryLimit →
      Capacity.binary (.int n) (.int width) = binary (.int n) (.int width) ∧
      Capacity.hex (.int n) (.int width) = hex (.int n) (.int width)) :=
  ⟨exists_map_fitting_iff Text.fixedBinary, exists_map_fitting_iff Text.fixedHex,
    fun _ h => ⟨writes_binary h, fun _ h' => binary_injective h h'⟩,
    fun _ h => ⟨writes_hex h, read_hex h, fun _ h' => hex_injective h h'⟩,
    fun h => ⟨Capacity.binary_eq n h, Capacity.hex_eq n h⟩⟩

/-- A number with zeros in front, in a width that is no multiple of four. -/
theorem Number.digits_exact_padded :
    binary (.int 5) (.int 9) = .ok "000000101" ∧ hex (.int 5) (.int 9) = .ok "0x005" ∧
      Text.Writes 2 9 5 "000000101".toList ∧ Text.Writes 16 (max 1 (9 ⌈/⌉ 4)) 5 "005".toList ∧
      Capacity.hex (.int 5) (.int 9) = .ok "0x005" := by
  have hbinary : binary (.int 5) (.int 9) = .ok "000000101" := by rfl
  have hhex : hex (.int 5) (.int 9) = .ok "0x005" := by rfl
  obtain ⟨_, _, hwrites, hliteral, hcapacity⟩ := digits_exact 5 9
  obtain ⟨⟨digits, hdigits, hwritten⟩, _⟩ := hliteral "0x005" hhex
  obtain rfl : "005".toList = digits := (List.cons.inj (List.cons.inj hdigits).2).2
  exact ⟨hbinary, hhex, (hwrites _ hbinary).1, hwritten,
    (hcapacity (by decide)).2.trans hhex⟩

end BitTemplate
