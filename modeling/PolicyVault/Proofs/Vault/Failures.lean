import PolicyVault.Proofs.Vault.Runs

/-!
# The failures of the registry

Some errors only say that a vault contradicts itself: a used segment without a monitor, a range
outside of the arena, a policy whose count is off. No run of the registry comes to one. Each call
fails for reasons of its own kind, a process that is registered can be unloaded, and every segment
has a last byte to show.

Main statement: `Registry.failures_exact`.
-/

namespace PolicyVault

namespace Vault

open Memory (Segment)

variable {v : Vault} {held : Nat → Nat} {e : Error}

/-- Errors that no argument of a call explains. -/
inductive Error.Internal : Error → Prop
  | outOfBounds (offset length size : Nat) : Internal (.memory (.outOfBounds offset length size))
  | lock : Internal (.memory .lock)
  | unbound (address : Nat) : Internal (.unbound address)
  | policy (cause : Policy.Error) : Internal (.policy cause)
  | cleanup (pid : UInt32) (failures : List Error) : Internal (.cleanup pid failures)
  | poisoned : Internal .poisoned

theorem create_error {pid : UInt32} {arenaSize : UInt64} {sources : List (List UInt8)}
    (failed : create pid arenaSize sources = .error e) :
    e = .emptyArena ∧ arenaSize = 0 ∨ e = .noPolicies ∧ sources = [] ∨
      ∃ index cause, e = .compile index cause := by
  unfold create at failed
  split at failed
  · rename_i empty
    exact .inl ⟨(Except.error.inj failed).symm, empty⟩
  split at failed
  · rename_i none
    exact .inr (.inl ⟨(Except.error.inj failed).symm, List.isEmpty_iff.mp none⟩)
  split at failed
  · rename_i index cause _
    exact .inr (.inr ⟨index, cause, (Except.error.inj failed).symm⟩)
  · cases failed

/-- No segment is empty, so that the last byte of each can be told. -/
theorem Sound.last_segmentEntry (sound : v.Sound held) {s : Segment Policy.Monitor}
    (member : s ∈ v.layout.segments) :
    (segmentEntry v.policies s).last.toNat + 1 = s.stop := by
  obtain ⟨-, positive, within⟩ := sound.layout.tiles.within member
  have small := sound.small
  rw [sound.size] at small
  have ends : 0 < s.stop := Nat.add_pos_right s.offset positive
  have last : s.stop - 1 < Text.wordLimit64 := by omega
  have exact : (segmentEntry v.policies s).last.toNat = s.stop - 1 :=
    UInt64.toNat_ofNat_of_lt' last
  rw [exact, Nat.sub_add_cancel ends]

end Vault

namespace Registry

variable {r s : Registry} {pid : UInt32} {c : Call} {e : Vault.Error}

/-! ## The failures of each call -/

/-- The failures of a read or a write. -/
def AccessFails (pid : UInt32) (address length : Nat) (access : Policy.Access)
    (e : Vault.Error) : Prop :=
  e = .notRegistered pid ∨ e = .emptyAccess address ∨ e = .memory (.notFound address) ∨
    e = .memory (.notInUse address) ∨ (∃ size, e = .lengthExceedsSegment address length size) ∨
      ∃ text, e = .policyViolation address access text

/-- The call can fail with the error. -/
def Call.Fails : Call → Vault.Error → Prop
  | .load pid arenaSize sources, e =>
    e = .alreadyRegistered pid ∨ e = .emptyArena ∧ arenaSize = 0 ∨ e = .noPolicies ∧ sources = [] ∨
      ∃ index cause, e = .compile index cause
  | .unload pid, e => e = .notRegistered pid
  | .alloc pid size policy, e =>
    e = .notRegistered pid ∨ (∃ count, e = .unknownPolicy policy count) ∨ e = .memory .zeroSize ∨
      ∃ largest, e = .memory (.outOfMemory size largest)
  | .dealloc pid address, e =>
    e = .notRegistered pid ∨ e = .memory (.notFound address) ∨ e = .memory (.notInUse address)
  | .read pid address length, e => AccessFails pid address length .read e
  | .write pid address data, e => AccessFails pid address data.length .write e
  | .view pid, e => e = .notRegistered pid

theorem AccessFails.not_internal {address length : Nat} {access : Policy.Access}
    (fails : AccessFails pid address length access e) : ¬ e.Internal := by
  intro internal
  rcases fails with rfl | rfl | rfl | rfl | ⟨size, rfl⟩ | ⟨text, rfl⟩ <;> cases internal

theorem Call.Fails.not_internal (fails : c.Fails e) : ¬ e.Internal := by
  intro internal
  cases c with
  | load => rcases fails with rfl | ⟨rfl, -⟩ | ⟨rfl, -⟩ | ⟨index, cause, rfl⟩ <;> cases internal
  | unload | view =>
    obtain rfl := fails
    cases internal
  | alloc => rcases fails with rfl | ⟨count, rfl⟩ | rfl | ⟨largest, rfl⟩ <;> cases internal
  | dealloc => rcases fails with rfl | rfl | rfl <;> cases internal
  | read | write => exact AccessFails.not_internal fails internal

theorem load_fails {arenaSize : UInt64} {sources : List (List UInt8)}
    (failed : (r.load pid arenaSize sources).1 = .error e) :
    Call.Fails (.load pid arenaSize sources) e := by
  unfold load at failed
  split at failed
  · exact .inl (Except.error.inj failed).symm
  split at failed
  · rename_i cause refused
    obtain rfl := Except.error.inj failed
    exact .inr (Vault.create_error refused)
  · cases failed

theorem accessFails_of_refusal {address length : Nat} {access : Policy.Access}
    (reason : Vault.AccessRefusal address length e) :
    AccessFails pid address length access e := by
  cases reason with
  | empty => exact .inr (.inl rfl)
  | absent reason =>
    cases reason with
    | notFound => exact .inr (.inr (.inl rfl))
    | notInUse => exact .inr (.inr (.inr (.inl rfl)))
  | tooLong size => exact .inr (.inr (.inr (.inr (.inl ⟨size, rfl⟩))))

theorem Refusal.fails (reason : Refusal c e) (elsewhere : ∀ pid arenaSize sources,
    c ≠ .load pid arenaSize sources) : c.Fails e := by
  cases reason with
  | missing c =>
    cases c with
    | load pid arenaSize sources => exact absurd rfl (elsewhere pid arenaSize sources)
    | unload | view => rfl
    | alloc | dealloc | read | write => exact .inl rfl
  | registered | create => exact absurd rfl (elsewhere _ _ _)
  | alloc reason =>
    cases reason with
    | unknownPolicy count => exact .inr (.inl ⟨count, rfl⟩)
    | zeroSize => exact .inr (.inr (.inl rfl))
    | outOfMemory largest => exact .inr (.inr (.inr ⟨largest, rfl⟩))
  | dealloc reason =>
    cases reason with
    | notFound => exact .inr (.inl rfl)
    | notInUse => exact .inr (.inr rfl)
  | read reason | write reason => exact accessFails_of_refusal reason

theorem fails_of_rejected {address length : Nat} {access : Policy.Access} {text : String}
    (attempt : c.attempt? pid address = some (access, length)) :
    c.Fails (.policyViolation address access text) := by
  have violated : ∀ p n, AccessFails p address n access (.policyViolation address access text) :=
    fun _ _ => .inr (.inr (.inr (.inr (.inr ⟨text, rfl⟩))))
  cases c with
  | read p start n | write p start n =>
    obtain ⟨⟨rfl, rfl⟩, same⟩ := Option.ite_none_right_eq_some.mp attempt
    obtain ⟨rfl, rfl⟩ := Prod.mk.inj (Option.some.inj same)
    exact violated _ _
  | _ => cases attempt

theorem Transition.fails (step : Transition r ⟨c, .error e⟩ s) (elsewhere : ∀ pid arenaSize sources,
    c ≠ .load pid arenaSize sources) : c.Fails e := by
  cases step with
  | refused reason => exact reason.fails elsewhere
  | rejected c attempt => exact fails_of_rejected attempt

theorem answerAs_error {α : Type} {value : α → Value} {answer : Vault.Answer Registry α}
    (failed : (answerAs value answer).1 = .error e) : answer.1 = .error e := by
  obtain ⟨outcome, r⟩ := answer
  cases outcome with
  | error cause => exact congrArg Except.error (Except.error.inj failed)
  | ok => cases failed

theorem perform_fails (sound : r.Sound) (failed : (r.perform c).1 = .error e) : c.Fails e := by
  have step := perform_transition sound c
  rw [failed] at step
  cases c with
  | load => exact load_fails (answerAs_error failed)
  | _ => exact step.fails (by simp)

/-! ## The failures of a run -/

theorem run_sound (sound : r.Sound) (calls : List Call) : (r.run calls).2.Sound :=
  (run_history sound calls).sound sound

theorem run_fails (sound : r.Sound) (calls : List Call) :
    ∀ event ∈ (r.run calls).1, ∀ e, event.answer = .error e → event.call.Fails e := by
  induction calls generalizing r with
  | nil => simp [run]
  | cons c rest ih =>
    have next := (perform_transition sound c).sound sound
    intro event member e failed
    rcases List.mem_cons.mp member with rfl | later
    · exact perform_fails sound failed
    · exact ih next event later e failed

theorem inspect_error {α : Type} {look : Vault → α} (failed : r.inspect pid look = .error e) :
    e = .notRegistered pid := by
  unfold inspect at failed
  split at failed
  · exact (Except.error.inj failed).symm
  · cases failed

theorem unload_registered (sound : r.Sound) (registered : r.contains pid = true) :
    r.unload pid = (.ok (), r.erase pid) := by
  obtain ⟨v, found⟩ := Option.isSome_iff_exists.mp registered
  rw [unload, found]
  simp only [Vault.teardown_sound (sound.vault found).1]

theorem failures_exact (calls : List Call) :
    (∀ event ∈ (empty.run calls).1, ∀ e, event.answer = .error e →
      event.call.Fails e ∧ ¬ e.Internal) ∧
    (∀ pid e, (empty.run calls).2.arenaSize pid = .error e → e = .notRegistered pid) ∧
    (∀ pid, (empty.run calls).2.contains pid = true →
      (empty.run calls).2.unload pid = (.ok (), (empty.run calls).2.erase pid)) ∧
    ∀ pid v, (empty.run calls).2.find? pid = some v → ∀ s ∈ v.layout.segments,
      (Vault.segmentEntry v.policies s).last.toNat + 1 = s.stop := by
  have sound := run_sound empty_sound calls
  refine ⟨?_, ?_, ?_, ?_⟩
  · intro event member e failed
    have fails := run_fails empty_sound calls event member e failed
    exact ⟨fails, fails.not_internal⟩
  · intro pid e failed
    exact inspect_error failed
  · intro pid registered
    exact unload_registered sound registered
  · intro pid v found s member
    exact (sound.vault found).1.last_segmentEntry member

end Registry

end PolicyVault
