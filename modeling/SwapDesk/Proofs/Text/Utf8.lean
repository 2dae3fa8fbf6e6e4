import SwapDesk.Text.Utf8

/-! Text that is read back from its UTF-8 form. -/
namespace SwapDesk

variable {b : Nat} {cs : List Char}

/-! ### Single steps -/

/-- A scan between two characters, without a fault so far. -/
def Utf8Scan.between (cs : List Char) : Utf8Scan := ⟨cs, none, true⟩

/-- A scan within a character: bytes missing, bounds of the next one, bits so far. -/
def Utf8Scan.within (cs : List Char) (missing low high bits : Nat) : Utf8Scan :=
  ⟨cs, some ⟨missing, low, high, bits⟩, true⟩

namespace Utf8Scan

theorem step_ascii (h : b < 0x80) :
    (between cs).step (UInt8.ofNat b) = between (Char.ofNat b :: cs) := by
  have hb : (UInt8.ofNat b).toNat = b := UInt8.toNat_ofNat_of_lt' (Nat.lt_trans h (by decide))
  simp only [between, step, first, hb]
  rw [if_pos h]

theorem step_first {missing low high : Nat} (h : 0x80 ≤ b) (h' : b < 0x100)
    (hf : followers? b = some (missing, low, high)) :
    (between cs).step (UInt8.ofNat b) = within cs missing low high (b % pow2 (6 - missing)) := by
  have hb : (UInt8.ofNat b).toNat = b := UInt8.toNat_ofNat_of_lt' h'
  simp only [between, step, first, hb, hf]
  rw [if_neg (Nat.not_lt_of_le h)]
  rfl

theorem step_last {low high bits : Nat} (h : low ≤ b ∧ b ≤ high) (h' : b < 0x100) :
    (within cs 1 low high bits).step (UInt8.ofNat b) =
      between (Char.ofNat (64 * bits + b % 64) :: cs) := by
  have hb : (UInt8.ofNat b).toNat = b := UInt8.toNat_ofNat_of_lt' h'
  simp only [within, step, hb]
  rw [if_pos h]
  rfl

theorem step_more {missing low high bits : Nat} (h : low ≤ b ∧ b ≤ high) (h' : b < 0x100) :
    (within cs (missing + 2) low high bits).step (UInt8.ofNat b) =
      within cs (missing + 1) 0x80 0xBF (64 * bits + b % 64) := by
  have hb : (UInt8.ofNat b).toNat = b := UInt8.toNat_ofNat_of_lt' h'
  simp only [within, step, hb]
  rw [if_pos h, if_neg (by omega)]
  rfl

end Utf8Scan

/-! ### First bytes -/

variable {v : Nat}

theorem followers?_two (h : 0x80 ≤ v) (h' : v ≤ 0x7FF) :
    followers? (v / 64 % 32 + 192) = some (1, 0x80, 0xBF) :=
  if_pos (by omega)

/-- The bounds of the second byte keep out numbers that need fewer bytes, and halves of surrogate
pairs. -/
theorem followers?_three (h : 0x800 ≤ v) (h' : v ≤ 0xFFFF) (hv : v < 0xD800 ∨ 0xDFFF < v) :
    ∃ low high, followers? (v / 4096 % 16 + 224) = some (2, low, high) ∧
      low ≤ v / 64 % 64 + 128 ∧ v / 64 % 64 + 128 ≤ high := by
  unfold followers?
  rw [if_neg (by omega)]
  by_cases hlow : v / 4096 % 16 + 224 = 0xE0
  · rw [if_pos hlow]
    exact ⟨_, _, rfl, by omega, by omega⟩
  · rw [if_neg hlow]
    by_cases hhigh : v / 4096 % 16 + 224 = 0xED
    · rw [if_pos hhigh]
      exact ⟨_, _, rfl, by omega, by omega⟩
    · rw [if_neg hhigh, if_pos (by omega)]
      exact ⟨_, _, rfl, by omega, by omega⟩

/-- The same for numbers beyond the last code point. -/
theorem followers?_four (h : 0x10000 ≤ v) (h' : v < 0x110000) :
    ∃ low high, followers? (v / 262144 % 8 + 240) = some (3, low, high) ∧
      low ≤ v / 4096 % 64 + 128 ∧ v / 4096 % 64 + 128 ≤ high := by
  unfold followers?
  rw [if_neg (by omega), if_neg (by omega), if_neg (by omega), if_neg (by omega)]
  by_cases hlow : v / 262144 % 8 + 240 = 0xF0
  · rw [if_pos hlow]
    exact ⟨_, _, rfl, by omega, by omega⟩
  · rw [if_neg hlow]
    by_cases hhigh : v / 262144 % 8 + 240 = 0xF4
    · rw [if_pos hhigh]
      exact ⟨_, _, rfl, by omega, by omega⟩
    · rw [if_neg hhigh, if_pos (by omega)]
      exact ⟨_, _, rfl, by omega, by omega⟩

/-! ### Whole texts -/

namespace Utf8Scan

theorem foldl_char (cs : List Char) (c : Char) :
    (String.utf8EncodeChar c).foldl step (between cs) = between (c :: cs) := by
  have hvalid : c.toNat < 0xD800 ∨ (0xDFFF < c.toNat ∧ c.toNat < 0x110000) := c.valid
  have hchar : ∀ n, n = c.toNat → between (Char.ofNat n :: cs) = between (c :: cs) := by
    rintro n rfl
    rw [Char.ofNat_toNat]
  have hval : c.val.toNat = c.toNat := rfl
  unfold String.utf8EncodeChar
  simp only [hval]
  generalize c.toNat = v at hvalid hchar
  split
  · rw [List.foldl_cons, step_ascii (by omega)]
    exact hchar v rfl
  · split
    · rw [List.foldl_cons, step_first (by omega) (by omega) (followers?_two (by omega) (by omega)),
        List.foldl_cons, step_last (by omega) (by omega)]
      exact hchar _ (by rw [show pow2 (6 - 1) = 32 from rfl]; omega)
    · split
      · obtain ⟨low, high, hf, hb⟩ := followers?_three (v := v) (by omega) (by omega) (by omega)
        rw [List.foldl_cons, step_first (by omega) (by omega) hf, List.foldl_cons,
          step_more hb (by omega), List.foldl_cons, step_last (by omega) (by omega)]
        exact hchar _ (by rw [show pow2 (6 - 2) = 16 from rfl]; omega)
      · obtain ⟨low, high, hf, hb⟩ := followers?_four (v := v) (by omega) (by omega)
        rw [List.foldl_cons, step_first (by omega) (by omega) hf, List.foldl_cons,
          step_more hb (by omega), List.foldl_cons, step_more (by omega) (by omega), List.foldl_cons,
          step_last (by omega) (by omega)]
        exact hchar _ (by rw [show pow2 (6 - 3) = 8 from rfl]; omega)

theorem foldl_chars (cs ds : List Char) :
    (ds.flatMap String.utf8EncodeChar).foldl step (between cs) = between (ds.reverse ++ cs) := by
  induction ds generalizing cs with
  | nil => rfl
  | cons d ds ih =>
    rw [List.flatMap_cons, List.foldl_append, foldl_char, ih, List.reverse_cons, List.append_assoc]
    rfl

end Utf8Scan

theorem toList_loop (bytes : ByteArray) (i : Nat) (taken : List UInt8) :
    ByteArray.toList.loop bytes i taken = taken.reverse ++ bytes.data.toList.drop i := by
  fun_induction ByteArray.toList.loop bytes i taken with
  | case1 i taken h ih =>
    have hi : i < bytes.data.toList.length := h
    have hget : bytes.get! i = bytes.data.toList[i] := getElem!_pos bytes.data i h
    rw [ih, List.drop_eq_getElem_cons hi, hget, List.reverse_cons, List.append_assoc]
    rfl
  | case2 i taken h =>
    have hdone : bytes.data.toList.length ≤ i := Nat.le_of_not_lt h
    rw [List.drop_eq_nil_of_le hdone, List.append_nil]

theorem toList_toUTF8 (s : String) :
    s.toUTF8.toList = s.toList.flatMap String.utf8EncodeChar := by
  rw [ByteArray.toList, toList_loop, String.toUTF8, ← String.utf8Encode_toList]
  simp [List.utf8Encode]

/-- Text is read back from its bytes. -/
theorem decodeUtf8?_toUTF8 (s : String) : decodeUtf8? s.toUTF8.toList = some s := by
  have hscan : utf8Scan s.toUTF8.toList = Utf8Scan.between s.toList.reverse := by
    rw [utf8Scan, toList_toUTF8]
    change ((s.toList.flatMap String.utf8EncodeChar).foldl Utf8Scan.step (Utf8Scan.between [])).finish = _
    rw [Utf8Scan.foldl_chars, List.append_nil]
    rfl
  rw [decodeUtf8?, hscan]
  simp [Utf8Scan.between]

end SwapDesk
