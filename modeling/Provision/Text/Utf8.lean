/-
**The characters of a text.**

A text is kept as its UTF-8 bytes.  Here its characters are read off the bytes from the front, one
character at a time, by recursion on the bytes.  The library's own reading jumps by positions, and
comes to the same; but it takes time that grows with the square of the length to evaluate in a proof.

Main definitions:

* `Provision.Text.decode` — the characters that bytes encode;
* `Provision.Text.chars` — the characters of a text.

Main result:

* `Provision.Text.chars_eq` — **the characters are those of the library**.
-/

set_option relaxedAutoImplicit false
set_option autoImplicit false

namespace Provision.Text

/-- The lowest six bits of a byte that goes on with a character. -/
def continuation (b : UInt8) : Nat := b.toNat % 64

/-- **The characters that bytes encode.**  The first byte of a character tells how many there are;
what is missing at the end is dropped. -/
def decode : List UInt8 → List Char
  | [] => []
  | a :: rest =>
      if a.toNat < 0x80 then Char.ofNat a.toNat :: decode rest
      else match rest with
        | [] => []
        | b :: rest =>
            if a.toNat < 0xE0 then
              Char.ofNat (a.toNat % 32 * 64 + continuation b) :: decode rest
            else match rest with
              | [] => []
              | c :: rest =>
                  if a.toNat < 0xF0 then
                    Char.ofNat (a.toNat % 16 * 4096 + continuation b * 64 + continuation c) ::
                      decode rest
                  else match rest with
                    | [] => []
                    | d :: rest =>
                        Char.ofNat (a.toNat % 8 * 262144 + continuation b * 4096 +
                          continuation c * 64 + continuation d) :: decode rest

/-- **The characters of a text.** -/
def chars (s : String) : List Char := decode s.toByteArray.data.toList

section

variable {a b c d : UInt8} (rest : List UInt8)

theorem decode_one (ha : a.toNat < 0x80) :
    decode (a :: rest) = Char.ofNat a.toNat :: decode rest := by
  rw [decode.eq_def]
  simp [ha]

theorem decode_two (ha : 0x80 ≤ a.toNat) (ha' : a.toNat < 0xE0) :
    decode (a :: b :: rest) = Char.ofNat (a.toNat % 32 * 64 + continuation b) :: decode rest := by
  rw [decode.eq_def]
  simp [Nat.not_lt.2 ha, ha']

theorem decode_three (ha : 0xE0 ≤ a.toNat) (ha' : a.toNat < 0xF0) :
    decode (a :: b :: c :: rest) =
      Char.ofNat (a.toNat % 16 * 4096 + continuation b * 64 + continuation c) :: decode rest := by
  rw [decode.eq_def]
  simp [show ¬a.toNat < 0x80 by omega, Nat.not_lt.2 ha, ha']

theorem decode_four (ha : 0xF0 ≤ a.toNat) :
    decode (a :: b :: c :: d :: rest) =
      Char.ofNat (a.toNat % 8 * 262144 + continuation b * 4096 + continuation c * 64 +
        continuation d) :: decode rest := by
  rw [decode.eq_def]
  simp [show ¬a.toNat < 0x80 by omega, show ¬a.toNat < 0xE0 by omega, Nat.not_lt.2 ha]

end

/-- **The bytes of one character are read as this character.** -/
theorem decode_utf8EncodeChar (c : Char) (rest : List UInt8) :
    decode (String.utf8EncodeChar c ++ rest) = c :: decode rest := by
  obtain ⟨n, hn, rfl⟩ : ∃ n, n = c.toNat ∧ Char.ofNat n = c := ⟨c.toNat, rfl, c.ofNat_toNat⟩
  have hn : (Char.ofNat n).val.toNat = n := hn.symm
  have hvalid : n < 0x110000 := by
    have := (Char.ofNat n).valid
    simp only [UInt32.isValidChar, Nat.isValidChar] at this
    omega
  have hbyte : ∀ k, k < 256 → (UInt8.ofNat k).toNat = k := fun k hk =>
    UInt8.toNat_ofNat_of_lt' hk
  have hcontinuation : ∀ k, continuation (UInt8.ofNat (k % 64 + 128)) = k % 64 := by
    intro k
    rw [continuation, hbyte _ (by omega)]
    omega
  unfold String.utf8EncodeChar
  dsimp only
  rw [hn]
  -- as many bytes as the number asks for
  split
  · next h =>
    have ha := hbyte n (by omega)
    rw [List.singleton_append, decode_one _ (by omega), ha]
  split
  · next h h' =>
    have ha := hbyte (n / 64 % 32 + 192) (by omega)
    rw [List.cons_append, List.singleton_append, decode_two _ (by omega) (by omega), ha,
      hcontinuation]
    congr 2
    omega
  split
  · next h h' h'' =>
    have ha := hbyte (n / 4096 % 16 + 224) (by omega)
    rw [List.cons_append, List.cons_append, List.singleton_append,
      decode_three _ (by omega) (by omega), ha, hcontinuation, hcontinuation]
    congr 2
    omega
  · next h h' h'' =>
    have ha := hbyte (n / 262144 % 8 + 240) (by omega)
    rw [List.cons_append, List.cons_append, List.cons_append, List.singleton_append,
      decode_four _ (by omega), ha, hcontinuation, hcontinuation, hcontinuation]
    congr 2
    omega

theorem decode_flatMap (s : List Char) : decode (s.flatMap String.utf8EncodeChar) = s := by
  induction s with
  | nil => rfl
  | cons c s ih => rw [List.flatMap_cons, decode_utf8EncodeChar, ih]

theorem bytes_eq (s : String) :
    s.toByteArray.data.toList = s.toList.flatMap String.utf8EncodeChar := by
  conv => lhs; rw [← String.ofList_toList (s := s)]
  rw [String.toByteArray_ofList, List.utf8Encode, List.data_toByteArray]

/-- **The characters are those of the library.** -/
@[simp] theorem chars_eq (s : String) : chars s = s.toList := by
  rw [chars, bytes_eq, decode_flatMap]

end Provision.Text
