import Mathlib
import PolicyVault.Proofs.Vault.Runs

/-!
# Contents of allocations

A read gives back what was last written to the allocation that now lives at its address, byte by
byte, and zeros where nothing was written. Nothing else is ever seen: no byte of another process,
of another allocation or of an earlier one in the same place, and no write that was refused.

Main statement: `Registry.read_exact`.
-/

namespace PolicyVault.Registry

/-- Every read in the history of a run that succeeds answers with as many bytes as it asks for.
They lie in an allocation made earlier at that address and not ended since. Byte `i` is the one
stored last among the writes since then that succeeded and reached it, and 0 if there is none. -/
theorem read_exact {calls : List Call} {earlier later : List Event} {pid : UInt32}
    {address length : Nat} {value : Value}
    (history : (empty.run calls).1 =
      earlier ++ ⟨.read pid address length, .ok value⟩ :: later) :
    ∃ before size policy since,
      earlier = before ++ ⟨.alloc pid size policy, .ok (.offset address)⟩ :: since ∧
      (∀ f ∈ since, f.ends pid address = false ∧ f.makes pid address = false) ∧
      length ≤ size ∧ ∃ bytes, value = .data bytes ∧ bytes.length = length ∧
        ∀ i < length, bytes[i]? = some (lastStored pid address i since) := by
  have whole := run_history empty_sound calls
  rw [history] at whole
  obtain ⟨s, first, t, step, -⟩ := History.append.mp whole
  cases step with
  | read found live fits allowed =>
    obtain ⟨before, origin, since, rfl, makes, lives⟩ :=
      first.made empty_sound (fun v missing => by cases missing) found live
    obtain ⟨size, policy, rfl⟩ := makes_iff.mp makes
    obtain ⟨quiet, -, -, w, b, -, -, -, foundW, -, liveW, rfl, told⟩ :=
      first.since_made empty_sound lives
    obtain rfl := Option.some.inj (found.symm.trans foundW)
    obtain rfl := Option.some.inj (live.symm.trans liveW)
    obtain rfl := (mem_of_find? found).2
    have inside := ((first.sound empty_sound).vault found).1.inside live
    obtain ⟨positive, short⟩ := fits
    refine ⟨before, _, policy, since, rfl, fun f member => ⟨lives f member, quiet f member⟩,
      short, _, rfl, ?_, ?_⟩
    · rw [List.length_take, inside.2.2]
      omega
    · intro i within
      rw [List.getElem?_take_of_lt within]
      exact told.bytes i (by omega)

/-- Events that write eight bytes, give them back, and write twice to four made in their place. -/
def reusing : List Event :=
  [⟨.load 1 8 [[0x57, 0x2a, 0x52]], .ok .done⟩, ⟨.alloc 1 8 0, .ok (.offset 0)⟩,
    ⟨.write 1 0 [1, 2, 3, 4, 5, 6, 7, 8], .ok .done⟩, ⟨.dealloc 1 0, .ok .done⟩,
    ⟨.alloc 1 4 0, .ok (.offset 0)⟩, ⟨.write 1 0 [9, 8, 7], .ok .done⟩,
    ⟨.write 1 0 [6], .ok .done⟩]

set_option maxRecDepth 2000 in
theorem read_exact_reusing :
    (empty.run (reusing.map (·.call) ++ [.read 1 0 4])).1 =
        reusing ++ ⟨.read 1 0 4, .ok (.data [6, 8, 7, 0])⟩ :: [] ∧
      ∃ before size policy since,
        reusing = before ++ ⟨.alloc 1 size policy, .ok (.offset 0)⟩ :: since ∧
        (∀ f ∈ since, f.ends 1 0 = false ∧ f.makes 1 0 = false) ∧ 4 ≤ size ∧
        ∀ i < 4, [6, 8, 7, 0][i]? = some (lastStored 1 0 i since) := by
  have history : (empty.run (reusing.map (·.call) ++ [.read 1 0 4])).1 =
      reusing ++ ⟨.read 1 0 4, .ok (.data [6, 8, 7, 0])⟩ :: [] := by cbv
  obtain ⟨before, size, policy, since, split, quiet, fits, bytes, same, -, stored⟩ :=
    read_exact history
  obtain rfl : [6, 8, 7, 0] = bytes := by simpa using same
  exact ⟨history, before, size, policy, since, split, quiet, fits, stored⟩

end PolicyVault.Registry
