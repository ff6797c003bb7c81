import SwiftApp.Numerals
import Mathlib.Algebra.Field.Rat

namespace SwiftApp

open Numerals

/-- Colours in exact components, with the two named colours that stand for no colour. -/
inductive UIColor
  | clear
  | gray
  | rgba (red green blue alpha : ℚ)
deriving DecidableEq

def colorFromRGB (r g b alpha : ℚ) : UIColor := .rgba (r / 255) (g / 255) (b / 255) alpha

def COLORFROM16 (h : Int64) : UIColor :=
  colorFromRGB ((h >>> 16) &&& 0xFF).toInt ((h >>> 8) &&& 0xFF).toInt (h &&& 0xFF).toInt 1

namespace UIColor

def initValueRGB (valueRGB : UInt64) (alpha : ℚ) : UIColor :=
  .rgba (((valueRGB &&& 0xFF0000) >>> 16).toNat / 255) (((valueRGB &&& 0x00FF00) >>> 8).toNat / 255)
    ((valueRGB &&& 0x0000FF).toNat / 255) alpha

def initHex (hex : UInt32) : UIColor :=
  .rgba (((hex &&& 0xFF000000) >>> 24).toNat / 255) (((hex &&& 0x00FF0000) >>> 16).toNat / 255)
    (((hex &&& 0x0000FF00) >>> 8).toNat / 255) ((hex &&& 0x000000FF).toNat / 255)

/-- `none`: one of the three assertions fails. -/
def initRedGreenBlue (red green blue : Int64) : Option UIColor :=
  if (red ≥ 0 ∧ red ≤ 255) ∧ (green ≥ 0 ∧ green ≤ 255) ∧ (blue ≥ 0 ∧ blue ≤ 255) then
    some (.rgba (red.toInt / 255) (green.toInt / 255) (blue.toInt / 255) 1)
  else none

def initRgb (rgb : Int64) : Option UIColor :=
  initRedGreenBlue ((rgb >>> 16) &&& 0xFF) ((rgb >>> 8) &&& 0xFF) (rgb &&& 0xFF)

/-- The colour whose red, green and blue are the three low bytes of `n`. -/
def ofBytes (n : Nat) (alpha : ℚ) : UIColor :=
  .rgba (field 16 8 n / 255) (field 8 8 n / 255) (field 0 8 n / 255) alpha

theorem initValueRGB_eq (valueRGB : UInt64) (alpha : ℚ) :
    initValueRGB valueRGB alpha = ofBytes valueRGB.toNat alpha := by
  have red : ((valueRGB &&& 0xFF0000) >>> 16).toNat = field 16 8 valueRGB.toNat := by
    rw [UInt64.toNat_shiftRight, UInt64.toNat_and]
    exact mask_shift 16 8 valueRGB.toNat
  have green : ((valueRGB &&& 0x00FF00) >>> 8).toNat = field 8 8 valueRGB.toNat := by
    rw [UInt64.toNat_shiftRight, UInt64.toNat_and]
    exact mask_shift 8 8 valueRGB.toNat
  have blue : (valueRGB &&& 0x0000FF).toNat = field 0 8 valueRGB.toNat := by
    rw [UInt64.toNat_and]
    exact mask_shift 0 8 valueRGB.toNat
  unfold initValueRGB ofBytes
  rw [red, green, blue]

theorem initHex_eq (hex : UInt32) :
    initHex hex = ofBytes (hex.toNat / 256) (field 0 8 hex.toNat / 255) := by
  have red : ((hex &&& 0xFF000000) >>> 24).toNat = field 24 8 hex.toNat := by
    rw [UInt32.toNat_shiftRight, UInt32.toNat_and]
    exact mask_shift 24 8 hex.toNat
  have green : ((hex &&& 0x00FF0000) >>> 16).toNat = field 16 8 hex.toNat := by
    rw [UInt32.toNat_shiftRight, UInt32.toNat_and]
    exact mask_shift 16 8 hex.toNat
  have blue : ((hex &&& 0x0000FF00) >>> 8).toNat = field 8 8 hex.toNat := by
    rw [UInt32.toNat_shiftRight, UInt32.toNat_and]
    exact mask_shift 8 8 hex.toNat
  have low : (hex &&& 0x000000FF).toNat = field 0 8 hex.toNat := by
    rw [UInt32.toNat_and]
    exact mask_shift 0 8 hex.toNat
  have shifted (k : Nat) : field (8 + k) 8 hex.toNat = field k 8 (hex.toNat / 256) :=
    field_add 8 k 8 hex.toNat
  unfold initHex ofBytes
  rw [red, green, blue, low, ← shifted 16, ← shifted 8, ← shifted 0]

/-- A byte of a signed word, brought down by the arithmetic shift and masked. -/
theorem toInt_byte {n shifted : Int64} {low : Nat} (fits : low + 8 ≤ 64)
    (h : shifted.toBitVec = n.toBitVec.sshiftRight low) :
    (shifted &&& 0xFF).toInt = field low 8 n.toUInt64.toNat := by
  have byte : (shifted &&& 0xFF).toBitVec.toNat = field low 8 n.toUInt64.toNat := by
    rw [Int64.toBitVec_and, h]
    exact sshiftRight_mask n.toBitVec fits
  have small := field_lt low 8 n.toUInt64.toNat
  have positive : 2 * (shifted &&& 0xFF).toBitVec.toNat < 2 ^ 64 := by omega
  rw [← byte]
  exact BitVec.toInt_eq_toNat_of_lt positive

theorem toInt_red (n : Int64) : ((n >>> 16) &&& 0xFF).toInt = field 16 8 n.toUInt64.toNat :=
  toInt_byte (by omega) rfl

theorem toInt_green (n : Int64) : ((n >>> 8) &&& 0xFF).toInt = field 8 8 n.toUInt64.toNat :=
  toInt_byte (by omega) rfl

theorem toInt_blue (n : Int64) : (n &&& 0xFF).toInt = field 0 8 n.toUInt64.toNat :=
  toInt_byte (by omega) (BitVec.sshiftRight_zero).symm

end UIColor

theorem COLORFROM16_eq (h : Int64) : COLORFROM16 h = .ofBytes h.toUInt64.toNat 1 := by
  unfold COLORFROM16 colorFromRGB UIColor.ofBytes
  rw [UIColor.toInt_red, UIColor.toInt_green, UIColor.toInt_blue]
  simp only [Int.cast_natCast]

theorem UIColor.initRgb_eq (rgb : Int64) : initRgb rgb = some (ofBytes rgb.toUInt64.toNat 1) := by
  have byte {x : Int64} {low : Nat} (h : x.toInt = field low 8 rgb.toUInt64.toNat) :
      x ≥ 0 ∧ x ≤ 255 := by
    have small := field_lt low 8 rgb.toUInt64.toNat
    rw [ge_iff_le, Int64.le_iff_toInt_le, Int64.le_iff_toInt_le, h]
    refine ⟨Int.natCast_nonneg _, ?_⟩
    have top : (255 : Int64).toInt = 255 := rfl
    omega
  have red := toInt_red rgb
  have green := toInt_green rgb
  have blue := toInt_blue rgb
  unfold initRgb initRedGreenBlue ofBytes
  rw [if_pos ⟨byte red, byte green, byte blue⟩, red, green, blue]
  simp only [Int.cast_natCast]

/-- The low 24 bits of a word, shifted left by 8, and a full low byte. -/
def hexOfRGB (n : Int64) : UInt32 := (n.toUInt64 &&& 0xFFFFFF).toUInt32 <<< 8 ||| 0xFF

theorem toNat_hexOfRGB (n : Int64) :
    (hexOfRGB n).toNat = field 0 24 n.toUInt64.toNat * 256 + 255 := by
  have small := field_lt 0 24 n.toUInt64.toNat
  have low : (n.toUInt64 &&& 0xFFFFFF).toNat = field 0 24 n.toUInt64.toNat := by
    rw [UInt64.toNat_and]
    exact mask_shift 0 24 n.toUInt64.toNat
  have word : (n.toUInt64 &&& 0xFFFFFF).toUInt32.toNat = field 0 24 n.toUInt64.toNat := by
    rw [UInt64.toNat_toUInt32, low]
    omega
  have shifted : ((n.toUInt64 &&& 0xFFFFFF).toUInt32 <<< 8).toNat =
      field 0 24 n.toUInt64.toNat <<< 8 := by
    rw [UInt32.toNat_shiftLeft, word]
    have fits : field 0 24 n.toUInt64.toNat <<< 8 < 2 ^ 32 := by
      rw [Nat.shiftLeft_eq]
      omega
    exact Nat.mod_eq_of_lt fits
  calc (hexOfRGB n).toNat
      = field 0 24 n.toUInt64.toNat <<< 8 ||| 255 := by
        rw [hexOfRGB, UInt32.toNat_or, shifted]
        rfl
    _ = field 0 24 n.toUInt64.toNat <<< 8 + 255 :=
        (Nat.shiftLeft_add_eq_or_of_lt (by omega) _).symm
    _ = field 0 24 n.toUInt64.toNat * 256 + 255 := by rw [Nat.shiftLeft_eq]

theorem ofBytes_cut (n : Nat) (alpha : ℚ) :
    UIColor.ofBytes (field 0 24 n) alpha = UIColor.ofBytes n alpha := by
  unfold UIColor.ofBytes
  rw [field_cut (by omega), field_cut (by omega), field_cut (by omega)]

/-- The integer constructors agree on every word, and no range assertion fails. -/
theorem integer_colours_agree (n : Int64) :
    UIColor.initRgb n = some (COLORFROM16 n) ∧
      UIColor.initValueRGB n.toUInt64 1 = COLORFROM16 n ∧
      UIColor.initHex (hexOfRGB n) = COLORFROM16 n := by
  have hex : UIColor.initHex (hexOfRGB n) = .ofBytes n.toUInt64.toNat 1 := by
    have high : (hexOfRGB n).toNat / 256 = field 0 24 n.toUInt64.toNat := by
      rw [toNat_hexOfRGB]
      omega
    have low : field 0 8 (hexOfRGB n).toNat = 255 := by
      rw [toNat_hexOfRGB]
      unfold field
      omega
    rw [UIColor.initHex_eq, high, low, ofBytes_cut]
    norm_num
  rw [COLORFROM16_eq, UIColor.initRgb_eq, UIColor.initValueRGB_eq]
  exact ⟨rfl, rfl, hex⟩

end SwiftApp
