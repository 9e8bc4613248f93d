import Memberwise.Text.Utf8

/-!
# Well-formed text needs no repair

Reading the bytes of a text gives the text back (`lossy_utf8`), so bytes are well-formed exactly if reading them as text
keeps them (`utf8_lossy_eq_iff`).

The scanner is followed through one character at a time: from the state between two characters, the bytes of a character
lead back to it with that character added (`scan_char`). A first byte fixes how many bytes follow and the range of the
next one (`start_two`, `start_three`, `start_four`); each continuation byte adds six bits (`push_next`, `push_last`).
-/

namespace Memberwise.Text

/-- The number of bytes of a text is the size that the standard library gives it. -/
theorem length_utf8 (s : String) : (utf8 s).length = s.utf8ByteSize := by
  have h : (String.ofList s.toList).toByteArray = (utf8 s).toByteArray := String.toByteArray_ofList
  rw [String.ofList_toList] at h
  rw [← String.size_toByteArray, h, List.size_toByteArray]

/-! ### Continuation bytes -/

private theorem toNat_continuation {d : Nat} (hd : d < 64) : (UInt8.ofNat (d + 0x80)).toNat = d + 128 := by
  rw [UInt8.toNat_ofNat']
  omega

private theorem push_next (out : List Char) (p : Pending) {d : Nat} (hd : d < 64) (hlow : p.low.toNat ≤ d + 128)
    (hhigh : d + 128 ≤ p.high.toNat) (hm : 1 < p.missing) :
    (⟨out, some p⟩ : Scan).push (UInt8.ofNat (d + 0x80)) =
      ⟨out, some ⟨p.missing - 1, 0x80, 0xBF, p.bits * 64 + d⟩⟩ := by
  have hb := toNat_continuation hd
  have hrange : p.low ≤ UInt8.ofNat (d + 0x80) ∧ UInt8.ofNat (d + 0x80) ≤ p.high := by
    rw [UInt8.le_iff_toNat_le, UInt8.le_iff_toNat_le, hb]
    exact ⟨hlow, hhigh⟩
  have hbits : (d + 128) % 64 = d := by omega
  simp only [Scan.push, Pending.step, if_pos hrange, if_neg (Nat.not_le.mpr hm), hb, hbits]
  rfl

private theorem push_last (out : List Char) (p : Pending) {d : Nat} (hd : d < 64) (hlow : p.low.toNat ≤ d + 128)
    (hhigh : d + 128 ≤ p.high.toNat) (hm : p.missing = 1) :
    (⟨out, some p⟩ : Scan).push (UInt8.ofNat (d + 0x80)) = ⟨Char.ofNat (p.bits * 64 + d) :: out, none⟩ := by
  have hb := toNat_continuation hd
  have hrange : p.low ≤ UInt8.ofNat (d + 0x80) ∧ UInt8.ofNat (d + 0x80) ≤ p.high := by
    rw [UInt8.le_iff_toNat_le, UInt8.le_iff_toNat_le, hb]
    exact ⟨hlow, hhigh⟩
  have hbits : (d + 128) % 64 = d := by omega
  simp only [Scan.push, Pending.step, if_pos hrange, if_pos (Nat.le_of_eq hm), hb, hbits]
  rfl

/-! ### First bytes -/

private theorem start_one {n : Nat} (h : n < 128) : Pending.start (UInt8.ofNat n) = ([Char.ofNat n], none) := by
  have hb : (UInt8.ofNat n).toNat = n := by
    rw [UInt8.toNat_ofNat']
    omega
  have hlt : UInt8.ofNat n < 0x80 := by
    rw [UInt8.lt_iff_toNat_lt, hb]
    exact h
  simp only [Pending.start, if_pos hlt, hb]

private theorem start_two : ∀ d : Fin 32, 2 ≤ d.val →
    Pending.start (UInt8.ofNat (d.val + 0xC0)) = ([], some ⟨1, 0x80, 0xBF, d.val⟩) := by
  decide

private theorem start_three : ∀ d : Fin 16,
    Pending.start (UInt8.ofNat (d.val + 0xE0)) =
      ([], some ⟨2, if d.val = 0 then 0xA0 else 0x80, if d.val = 13 then 0x9F else 0xBF, d.val⟩) := by
  decide

private theorem start_four : ∀ d : Fin 5,
    Pending.start (UInt8.ofNat (d.val + 0xF0)) =
      ([], some ⟨3, if d.val = 0 then 0x90 else 0x80, if d.val = 4 then 0x8F else 0xBF, d.val⟩) := by
  decide

/-! ### Characters and texts -/

private theorem push_start (out : List Char) {b : UInt8} {p : Pending} (h : Pending.start b = ([], some p)) :
    (⟨out, none⟩ : Scan).push b = ⟨out, some p⟩ := by
  simp only [Scan.push, Pending.step, h]
  rfl

private theorem scan_char (out : List Char) (c : Char) :
    (String.utf8EncodeChar c).foldl Scan.push ⟨out, none⟩ = ⟨c :: out, none⟩ := by
  have hc : Char.ofNat c.val.toNat = c := Char.ofNat_toNat c
  have hv : c.val.toNat < 0xD800 ∨ 0xDFFF < c.val.toNat ∧ c.val.toNat < 0x110000 := c.valid
  unfold String.utf8EncodeChar
  generalize c.val.toNat = n at hc hv
  dsimp only
  split
  · -- one byte
    simp only [List.foldl_cons, List.foldl_nil, Scan.push, Pending.step, start_one (show n < 128 by omega), hc]
    rfl
  split
  · -- two bytes
    have h₁ := start_two ⟨n / 64 % 32, by omega⟩ (by dsimp only; omega)
    simp only [List.foldl_cons, List.foldl_nil]
    rw [push_start _ h₁, push_last _ _ (by omega) (by simp) (by simp; omega) rfl]
    rw [show n / 64 % 32 * 64 + n % 64 = n by omega, hc]
  split
  · -- three bytes
    have h₁ := start_three ⟨n / 4096 % 16, by omega⟩
    simp only [List.foldl_cons, List.foldl_nil]
    rw [push_start _ h₁, push_next _ _ (by omega) (by dsimp only; split <;> simp; omega)
      (by dsimp only; split <;> simp <;> omega) (by simp)]
    rw [push_last _ _ (by omega) (by simp) (by simp; omega) rfl]
    rw [show (n / 4096 % 16 * 64 + n / 64 % 64) * 64 + n % 64 = n by omega, hc]
  · -- four bytes
    have h₁ := start_four ⟨n / 262144 % 8, by omega⟩
    simp only [List.foldl_cons, List.foldl_nil]
    rw [push_start _ h₁, push_next _ _ (by omega) (by dsimp only; split <;> simp; omega)
      (by dsimp only; split <;> simp <;> omega) (by simp)]
    rw [push_next _ _ (by omega) (by simp) (by simp; omega) (by simp)]
    rw [push_last _ _ (by omega) (by simp) (by simp; omega) rfl]
    rw [show ((n / 262144 % 8 * 64 + n / 4096 % 64) * 64 + n / 64 % 64) * 64 + n % 64 = n by omega, hc]

private theorem scan_chars (out cs : List Char) :
    (cs.flatMap String.utf8EncodeChar).foldl Scan.push ⟨out, none⟩ = ⟨cs.reverse ++ out, none⟩ := by
  induction cs generalizing out with
  | nil => rfl
  | cons c cs ih => simp [List.foldl_append, scan_char, ih]

/-- The bytes of a text read as the text. -/
theorem lossy_utf8 (s : String) : lossy (utf8 s) = s := by
  rw [lossy, utf8, scan_chars]
  simp [Scan.finish]

/-- Whether bytes are well-formed is judged by the standard library. They are exactly if reading them as text, which
repairs what is not, leaves all of them as they are. -/
theorem utf8_lossy_eq_iff {bs : Bytes} : utf8 (lossy bs) = bs ↔ bs.toByteArray.IsValidUTF8 := by
  constructor
  · intro hkept
    rw [← hkept]
    exact .intro (lossy bs).toList rfl
  · rintro ⟨cs, hcs⟩
    have hbytes : bs = utf8 (String.ofList cs) := by
      rw [utf8, String.toList_ofList]
      exact List.toByteArray_inj.1 hcs
    rw [hbytes, lossy_utf8]

end Memberwise.Text
