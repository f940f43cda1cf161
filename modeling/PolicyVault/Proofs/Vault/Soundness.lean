import PolicyVault.Proofs.Memory.Arena
import PolicyVault.Proofs.Memory.Layout
import PolicyVault.Proofs.Policy.Bindings
import PolicyVault.Vault.Basic

/-!
# Sound vaults

In a sound vault every allocation has a monitor bound to a policy of the book, and each policy
counts the allocations bound to it and the monitors held by others. What can be reached of such a
vault is a map from offsets to independent allocations: `allocation?`.

Main statements: `Vault.Sound`, `Vault.Sound.allocation?_eq_some`, `Vault.allocation?_congr`.
-/

namespace PolicyVault

namespace Policy.Book

/-- The policies without their counts, which binding and unbinding leave alone. -/
def uncounted (book : Book) : Book := book.map fun p => { p with bindings := 0 }

theorem getElem?_uncounted (book : Book) (i : Nat) :
    book.uncounted[i]? = book[i]?.map fun p => { p with bindings := 0 } := by
  simp [uncounted]

/-- A policy of one book is in the other with another count. -/
theorem getElem?_of_uncounted {book others : Book} {i : Nat} {p : Loaded}
    (same : others.uncounted = book.uncounted) (found : book[i]? = some p) :
    ∃ q, others[i]? = some q ∧ p = { q with bindings := p.bindings } := by
  have here := congrArg (·[i]?) same
  simp only [getElem?_uncounted, found, Option.map_some] at here
  obtain ⟨q, located, equal⟩ := Option.map_eq_some_iff.mp here
  refine ⟨q, located, ?_⟩
  obtain ⟨source, automaton, bindings, retired⟩ := p
  simp only [Loaded.mk.injEq] at equal ⊢
  exact ⟨equal.1.symm, equal.2.1.symm, trivial, equal.2.2.2.symm⟩

theorem length_uncounted (book : Book) : book.uncounted.length = book.length := by
  simp [uncounted]

theorem uncounted_modify (book : Book) (i : Nat) (f : Loaded → Loaded)
    (same : ∀ p, { f p with bindings := 0 } = { p with bindings := 0 }) :
    uncounted (List.modify book i f) = book.uncounted := by
  apply List.ext_getElem?
  intro j
  rw [getElem?_uncounted, getElem?_uncounted, List.getElem?_modify]
  split
  · cases book[j]? with
    | none => rfl
    | some p => simp [same]
  · simp

theorem uncounted_retain (book : Book) (i : Nat) : (book.retain i).uncounted = book.uncounted :=
  uncounted_modify book i _ fun _ => rfl

theorem uncounted_release (book : Book) (i : Nat) : (book.release i).uncounted = book.uncounted :=
  uncounted_modify book i _ fun _ => rfl

end Policy.Book

namespace Vault

open Memory (Segment)

variable {v w : Vault} {held : Nat → Nat} {address : Nat}

def boundTo (i : Nat) (s : Segment Policy.Monitor) : Bool := s.payload.bind (·.policy) == some i

structure Sound (held : Nat → Nat) (v : Vault) : Prop where
  layout : v.layout.Sound
  size : v.arena.size = v.layout.arenaSize
  small : v.arena.size < Text.wordLimit64
  guarded : ∀ s ∈ v.layout.allocations, ∃ monitor i, s.payload = some monitor ∧
    monitor.policy = some i ∧ i < v.policies.length
  compiled : ∀ p ∈ v.policies, Policy.Automaton.compile p.source = .ok p.automaton
  counted : ∀ i p, v.policies[i]? = some p →
    p.bindings = v.layout.allocations.countP (boundTo i) + held i

/-- Every policy can be bound. -/
def Active (v : Vault) : Prop := ∀ p ∈ v.policies, p.retired = false

/-! ## Allocations as independent buffers -/

/-- What is reachable at an address. -/
structure Allocation where
  size : Nat
  monitor : Policy.Monitor
  bytes : List UInt8
  deriving DecidableEq, Repr

def contents (v : Vault) (s : Segment Policy.Monitor) : List UInt8 :=
  (List.range s.size).map fun i => v.arena.byte (s.offset + i)

def allocation? (v : Vault) (address : Nat) : Option Allocation :=
  (v.layout.allocations.find? (·.offset == address)).bind fun s =>
    s.payload.map fun monitor => ⟨s.size, monitor, v.contents s⟩

theorem Sound.find?_allocations (sound : v.Sound held) (address : Nat)
    (s : Segment Policy.Monitor) :
    v.layout.allocations.find? (·.offset == address) = some s ↔
      s ∈ v.layout.allocations ∧ s.offset = address := by
  constructor
  · intro found
    exact ⟨List.mem_of_find?_eq_some found, by simpa using List.find?_some found⟩
  · rintro ⟨member, rfl⟩
    cases found : v.layout.allocations.find? (·.offset == s.offset) with
    | none => simpa using List.find?_eq_none.mp found s member
    | some t =>
      have same : t.offset = s.offset := by simpa using List.find?_some found
      rw [sound.layout.eq_of_offset (List.mem_of_find?_eq_some found) member same]

theorem Sound.allocation?_of_mem (sound : v.Sound held) {s : Segment Policy.Monitor}
    {monitor : Policy.Monitor} (member : s ∈ v.layout.allocations)
    (guarded : s.payload = some monitor) :
    v.allocation? s.offset = some ⟨s.size, monitor, v.contents s⟩ := by
  rw [allocation?, (sound.find?_allocations s.offset s).mpr ⟨member, rfl⟩]
  simp [guarded]

theorem Sound.allocation?_eq_some (sound : v.Sound held) {a : Allocation} :
    v.allocation? address = some a ↔ ∃ s ∈ v.layout.allocations, s.offset = address ∧
      s.payload = some a.monitor ∧ a.size = s.size ∧ a.bytes = v.contents s := by
  constructor
  · intro found
    obtain ⟨s, located, guarded⟩ := Option.bind_eq_some_iff.mp found
    obtain ⟨monitor, payload, rfl⟩ := Option.map_eq_some_iff.mp guarded
    obtain ⟨member, at_⟩ := (sound.find?_allocations address s).mp located
    exact ⟨s, member, at_, payload, rfl, rfl⟩
  · rintro ⟨s, member, rfl, payload, size, bytes⟩
    rw [sound.allocation?_of_mem member payload, ← size, ← bytes]

theorem Sound.allocation?_eq_none (sound : v.Sound held) :
    v.allocation? address = none ↔ ∀ s ∈ v.layout.allocations, s.offset ≠ address := by
  constructor
  · intro missing s member same
    obtain ⟨monitor, _, payload, _⟩ := sound.guarded s member
    have found := sound.allocation?_of_mem member payload
    rw [same, missing] at found
    cases found
  · intro elsewhere
    rw [allocation?, List.find?_eq_none.mpr (by simpa using elsewhere)]
    rfl

theorem length_contents (v : Vault) (s : Segment Policy.Monitor) :
    (v.contents s).length = s.size := by
  simp [contents]

theorem contents_congr {s : Segment Policy.Monitor}
    (same : ∀ i, s.offset ≤ i → i < s.stop → w.arena.byte i = v.arena.byte i) :
    w.contents s = v.contents s := by
  apply List.map_congr_left
  intro i member
  have bound : i < s.size := List.mem_range.mp member
  exact same _ (by omega) (by unfold Segment.stop; omega)

/-- An address keeps what is reachable there if its segment stays and the bytes stay. -/
theorem allocation?_congr {before after : Nat → Nat} (soundV : v.Sound before)
    (soundW : w.Sound after)
    (segments : ∀ s : Segment Policy.Monitor, s.offset = address →
      (s ∈ w.layout.allocations ↔ s ∈ v.layout.allocations))
    (bytes : ∀ s ∈ v.layout.allocations, s.offset = address → w.contents s = v.contents s) :
    w.allocation? address = v.allocation? address := by
  apply Option.ext
  intro a
  rw [soundW.allocation?_eq_some, soundV.allocation?_eq_some]
  constructor
  · rintro ⟨s, member, at_, payload, size, contents⟩
    have inV := (segments s at_).mp member
    exact ⟨s, inV, at_, payload, size, contents.trans (bytes s inV at_)⟩
  · rintro ⟨s, member, at_, payload, size, contents⟩
    exact ⟨s, (segments s at_).mpr member, at_, payload, size,
      contents.trans (bytes s member at_).symm⟩

theorem Sound.inside (sound : v.Sound held) {a : Allocation}
    (found : v.allocation? address = some a) :
    0 < a.size ∧ address + a.size ≤ v.arena.size ∧ a.bytes.length = a.size := by
  obtain ⟨s, member, rfl, -, size, bytes⟩ := sound.allocation?_eq_some.mp found
  obtain ⟨positive, within⟩ := sound.layout.within member
  rw [bytes, length_contents, size, sound.size]
  exact ⟨positive, within, rfl⟩

end Vault

end PolicyVault
