/-!
# Words in bytes

A 32-bit word is four bytes, the low one first. Reading a word takes it off the front of the
bytes.
-/

namespace PolicyVault.Wire

def wordBytes (w : UInt32) : List UInt8 :=
  [UInt8.ofNat w.toNat, UInt8.ofNat (w.toNat / 256), UInt8.ofNat (w.toNat / 65536),
    UInt8.ofNat (w.toNat / 16777216)]

/-- The word off the front of the bytes, and what follows it. -/
def word? : List UInt8 → Option (UInt32 × List UInt8)
  | a :: b :: c :: d :: rest =>
    some (UInt32.ofNat (a.toNat + 256 * b.toNat + 65536 * c.toNat + 16777216 * d.toNat), rest)
  | _ => none

@[simp] theorem length_wordBytes (w : UInt32) : (wordBytes w).length = 4 := rfl

/-- A word that was written is read back. -/
theorem word?_wordBytes (w : UInt32) (rest : List UInt8) :
    word? (wordBytes w ++ rest) = some (w, rest) := by
  have bound := w.toNat_lt
  simp only [wordBytes, word?, List.cons_append, List.nil_append, UInt8.toNat_ofNat',
    Option.some.injEq, Prod.mk.injEq, and_true]
  apply UInt32.toNat_inj.mp
  rw [UInt32.toNat_ofNat']
  omega

/-- Bytes that hold a word begin with the bytes of that word. -/
theorem eq_append_of_word? {bytes rest : List UInt8} {w : UInt32}
    (h : word? bytes = some (w, rest)) : bytes = wordBytes w ++ rest := by
  match bytes with
  | a :: b :: c :: d :: tail =>
    simp only [word?, Option.some.injEq, Prod.mk.injEq] at h
    obtain ⟨rfl, rfl⟩ := h
    have := a.toNat_lt
    have := b.toNat_lt
    have := c.toNat_lt
    have := d.toNat_lt
    simp only [wordBytes, UInt32.toNat_ofNat', List.cons_append, List.nil_append,
      List.cons.injEq, and_true]
    refine ⟨?_, ?_, ?_, ?_⟩ <;> (apply UInt8.toNat_inj.mp; rw [UInt8.toNat_ofNat']; omega)
  | [] | [_] | [_, _] | [_, _, _] => simp [word?] at h

end PolicyVault.Wire
