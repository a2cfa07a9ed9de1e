import Mathlib
import DualSql.Text.Alphabetic
import DualSql.Text.Casing

/-! # Texts that differ in the case of ASCII letters

Such texts have the same upper case, and both or neither hold a letter. A text
without ASCII letters is equal to no other in this way. -/

namespace DualSql.Text

variable {a b : String}

theorem isUpper_bounds {c : Char} (h : c.isUpper = true) : 65 ≤ c.toNat ∧ c.toNat ≤ 90 := by
  simpa [Char.isUpper, UInt32.le_iff_toNat_le] using h

theorem toNat_toLower_lt (c : Char) : c.toLower.toNat < 0x80 ↔ c.toNat < 0x80 := by
  by_cases h : c.isUpper = true
  · have hbounds := isUpper_bounds h
    have hvalid : (c.toNat + 32).isValidChar := by
      left
      omega
    rw [Char.toLower_eq_of_isUpper h, Char.toNat_ofNat, if_pos hvalid]
    omega
  · rw [Char.toLower_eq_of_not_isUpper h]

theorem upperChars_toLower (c : Char) : upperChars c.toLower = upperChars c := by
  by_cases h : c.isUpper = true
  · have hlt : c.toNat < 0x80 := Nat.lt_of_le_of_lt (isUpper_bounds h).2 (by decide)
    rw [upperChars, upperChars, if_pos ((toNat_toLower_lt c).2 hlt), if_pos hlt,
      Char.toUpper_toLower_eq_toUpper]
  · rw [Char.toLower_eq_of_not_isUpper h]

theorem isAlphabetic_toLower (c : Char) : isAlphabetic c.toLower = isAlphabetic c := by
  by_cases h : c.isUpper = true
  · have hlt : c.toNat < 0x80 := Nat.lt_of_le_of_lt (isUpper_bounds h).2 (by decide)
    rw [isAlphabetic, isAlphabetic, if_pos ((toNat_toLower_lt c).2 hlt), if_pos hlt,
      Char.isAlpha_toLower_eq_isAlpha]
  · rw [Char.toLower_eq_of_not_isUpper h]

theorem isAlphabetic_of_isAlpha {c : Char} (h : c.isAlpha = true) : isAlphabetic c = true := by
  have hlt : c.toNat < 0x80 := by
    simp only [Char.isAlpha, Char.isUpper, Char.isLower, UInt32.le_iff_toNat_le, Bool.or_eq_true,
      Bool.and_eq_true, decide_eq_true_eq, ge_iff_le] at h
    have hz : 'z'.val.toNat = 122 := rfl
    have hZ : 'Z'.val.toNat = 90 := rfl
    have hc : c.toNat = c.val.toNat := rfl
    omega
  rw [isAlphabetic, if_pos hlt, h]

theorem toLower_eq_of_eqIgnoringAsciiCase (h : eqIgnoringAsciiCase a b = true) :
    a.toList.map Char.toLower = b.toList.map Char.toLower := by
  simp only [eqIgnoringAsciiCase, toLowerAscii, beq_iff_eq] at h
  simpa using congrArg String.toList h

theorem toUpper_eq_of_eqIgnoringAsciiCase (h : eqIgnoringAsciiCase a b = true) :
    toUpper a = toUpper b := by
  have hlower (s : String) :
      s.toList.flatMap upperChars = (s.toList.map Char.toLower).flatMap upperChars := by
    simp only [List.flatMap_map, upperChars_toLower]
  rw [toUpper, toUpper, hlower a, hlower b, toLower_eq_of_eqIgnoringAsciiCase h]

theorem any_isAlphabetic_of_eqIgnoringAsciiCase (h : eqIgnoringAsciiCase a b = true) :
    a.toList.any isAlphabetic = b.toList.any isAlphabetic := by
  have hlower (s : String) :
      s.toList.any isAlphabetic = (s.toList.map Char.toLower).any isAlphabetic := by
    simp only [List.any_map, Function.comp_def, isAlphabetic_toLower]
  rw [hlower a, hlower b, toLower_eq_of_eqIgnoringAsciiCase h]

/-- A text without ASCII letters is found only as it stands. -/
theorem eq_of_eqIgnoringAsciiCase (h : eqIgnoringAsciiCase a b = true)
    (hb : b.toList.all (fun c => !c.isAlpha) = true) : a = b := by
  have hlower := toLower_eq_of_eqIgnoringAsciiCase h
  have halpha (s : String) : s.toList.all (fun c => !c.isAlpha) =
      (s.toList.map Char.toLower).all fun c => !c.isAlpha := by
    simp only [List.all_map, Function.comp_def, Char.isAlpha_toLower_eq_isAlpha]
  have hkept {s : String} (hs : s.toList.all (fun c => !c.isAlpha) = true) :
      s.toList.map Char.toLower = s.toList := by
    conv_rhs => rw [← List.map_id s.toList]
    apply List.map_congr_left
    intro c hc
    apply Char.toLower_eq_of_not_isUpper
    intro hupper
    simpa [Char.isAlpha, hupper] using List.all_eq_true.1 hs c hc
  have ha : a.toList.all (fun c => !c.isAlpha) = true := by
    rw [halpha, hlower, ← halpha, hb]
  rw [hkept ha, hkept hb] at hlower
  exact String.toList_inj.1 hlower

end DualSql.Text
