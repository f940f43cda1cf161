import PolicyVault.Proofs.Memory.Canonical
import PolicyVault.Proofs.Vault.Views

/-!
# Operations that fail

An operation on a vault that fails leaves the vault as it was, except that a refused access has
advanced one monitor. The delicate case is an allocation under a retired policy: its segment is
taken and zeroed before the policy refuses, so it has to be given back. As the layout is coalesced
and free bytes are zero already, nothing of it is left.

Main statement: `Vault.Shared.failing_atomic`.
-/

namespace PolicyVault

/-! ## Retired policies -/

namespace Policy.Book

variable {book others : Book} {i : Nat} {p : Loaded}

/-- Nothing is bound to a retired policy. -/
def Idle (book : Book) : Prop :=
  ∀ (i : Nat) (p : Loaded), book[i]? = some p → p.retired = true → p.bindings = 0

theorem Idle.modify {f : Loaded → Loaded} (idle : book.Idle)
    (changed : ∀ p, book[i]? = some p → (f p).retired = true → (f p).bindings = 0) :
    Idle (List.modify book i f) := by
  intro j q found
  obtain ⟨p, located, rfl⟩ := bindings_modify found
  split
  · rename_i here
    subst here
    exact changed p located
  · exact idle j p located

theorem Idle.retain (idle : book.Idle) (found : book[i]? = some p) (active : p.retired = false) :
    (book.retain i).Idle := by
  apply idle.modify
  intro q located retired
  obtain rfl := Option.some.inj (located.symm.trans found)
  exact absurd (active.symm.trans retired) Bool.false_ne_true

theorem Idle.release (idle : book.Idle) (i : Nat) : (book.release i).Idle := by
  apply idle.modify
  intro p located retired
  exact congrArg (· - 1) (idle i p located retired)

theorem Idle.retire (idle : book.Idle) (retired : book.retire i = .ok others) : others.Idle := by
  obtain ⟨⟨p, found, free⟩, rfl⟩ := retire_inversion retired
  apply idle.modify
  intro q located _
  obtain rfl := Option.some.inj (located.symm.trans found)
  exact free

end Policy.Book

namespace Vault

open Memory (Segment Layout)

variable {v w : Vault} {held : Nat → Nat} {address size policy offset n : Nat}

/-! ## Layouts stay coalesced -/

theorem alloc_divides (divides : v.layout.Divides n) (size policy : Nat) :
    (v.alloc size policy).2.layout.Divides n := by
  unfold alloc
  split
  swap
  · exact divides
  split
  · exact divides
  rename_i taken
  have kept := divides.allocate taken
  split
  · exact kept
  unfold guard
  split
  · split
    · exact kept
    · rename_i given
      exact kept.deallocate given
  · split
    · exact kept
    · rename_i attached
      obtain ⟨s, -, same⟩ := Option.map_eq_some_iff.mp attached
      obtain ⟨-, rfl⟩ := Prod.mk.inj same
      exact kept.setPayload _ _

theorem wipe_layout (v : Vault) (address size : Nat) :
    (v.wipe address size).2.layout = v.layout := by
  unfold wipe
  split <;> rfl

theorem unguard_divides (divides : v.layout.Divides n) (address : Nat) :
    (v.unguard address).2.layout.Divides n := by
  unfold unguard
  split
  · rename_i detached
    obtain ⟨s, -, same⟩ := Option.map_eq_some_iff.mp detached
    obtain ⟨-, rfl⟩ := Prod.mk.inj same
    split <;> exact divides.setPayload _ _
  · exact divides
  · exact divides

theorem giveBack_divides (divides : v.layout.Divides n) (address : Nat) :
    (v.giveBack address).2.layout.Divides n := by
  unfold giveBack
  split
  · exact divides
  · rename_i given
    exact divides.deallocate given

theorem dealloc_divides (divides : v.layout.Divides n) (address : Nat) :
    (v.dealloc address).2.layout.Divides n := by
  unfold dealloc
  split
  · exact divides
  · rename_i s _
    apply giveBack_divides
    apply unguard_divides
    rw [wipe_layout]
    exact divides

/-! ## What calls do to the counts -/

theorem alloc_policies (sound : v.Sound held) (size policy : Nat) :
    (v.alloc size policy).2.policies = v.policies ∨
      (∃ p, v.policies[policy]? = some p ∧ p.retired = false) ∧
        (v.alloc size policy).2.policies = v.policies.retain policy := by
  have outcome := alloc_inversion sound size policy
  generalize v.alloc size policy = answer at outcome ⊢
  cases outcome with
  | refused => exact .inl rfl
  | undone _ _ _ policies => exact .inl policies
  | granted found active _ policies => exact .inr ⟨⟨_, found, active⟩, policies⟩

theorem dealloc_policies (sound : v.Sound held) (address : Nat) :
    (v.dealloc address).2.policies = v.policies ∨
      ∃ i, (v.dealloc address).2.policies = v.policies.release i := by
  cases live : v.allocation? address with
  | none =>
    obtain ⟨e, failed, -⟩ := dealloc_missing sound live
    exact .inl (by rw [failed])
  | some a =>
    obtain ⟨s, member, rfl, -⟩ := sound.allocation?_eq_some.mp live
    obtain ⟨w, monitor, i, done, -, -, -, policies, -⟩ := dealloc_inversion sound member
    exact .inr ⟨i, by rw [done]; exact policies⟩

/-! ## What an access leaves -/

/-- The policies stay, and so does the layout but for the payload at an address. -/
def Touched (v : Vault) (address : Nat) (w : Vault) : Prop :=
  w.policies = v.policies ∧
    (w.layout = v.layout ∨ ∃ payload, w.layout = v.layout.setPayload address payload)

theorem Touched.refl (v : Vault) (address : Nat) : v.Touched address v := ⟨rfl, .inl rfl⟩

theorem authorize_touched (v : Vault) (address length : Nat) (access : Policy.Access) :
    v.Touched address (v.authorize address length access).2 := by
  unfold authorize
  split
  · exact .refl v address
  split
  · exact .refl v address
  split
  · exact .refl v address
  split
  · exact .refl v address
  · simp only
    split <;> exact ⟨rfl, .inr ⟨_, rfl⟩⟩

theorem read_touched (v : Vault) (address length : Nat) :
    v.Touched address (v.read address length).2 := by
  have touched := v.authorize_touched address length .read
  unfold read
  split
  · rename_i denied
    rwa [denied] at touched
  · rename_i granted
    rw [granted] at touched
    split <;> exact touched

theorem write_touched (v : Vault) (address : Nat) (data : List UInt8) :
    v.Touched address (v.write address data).2 := by
  have touched := v.authorize_touched address data.length .write
  unfold write
  split
  · rename_i denied
    rwa [denied] at touched
  · rename_i granted
    rw [granted] at touched
    split <;> exact touched

/-! ## Settled vaults -/

structure Settled (held : Nat → Nat) (v : Vault) : Prop extends Intact held v where
  coalesced : Memory.Coalesced v.layout.segments
  idle : v.policies.Idle

theorem Settled.neat (settled : v.Settled held) : v.layout.Neat :=
  ⟨settled.layout, settled.coalesced⟩

theorem Settled.divides (settled : v.Settled held) : v.layout.Divides v.layout.arenaSize :=
  settled.neat.divides

theorem create_settled {pid : UInt32} {arenaSize : UInt64} {sources : List (List UInt8)}
    (created : create pid arenaSize sources = .ok v) : v.Settled fun _ => 0 := by
  have intact := create_intact created
  obtain ⟨-, active, -⟩ := create_spec created
  obtain ⟨positive, policies, -, rfl⟩ := create_inversion created
  refine ⟨intact, .singleton _, ?_⟩
  intro i p found retired
  have usable := active p (List.mem_of_getElem? found)
  exact absurd (usable.symm.trans retired) Bool.false_ne_true

theorem Settled.alloc (settled : v.Settled held) (size policy : Nat) :
    (v.alloc size policy).2.Settled held := by
  refine ⟨settled.toIntact.alloc size policy, (alloc_divides settled.divides ..).coalesced, ?_⟩
  rcases alloc_policies settled.toSound size policy with same | ⟨⟨p, found, active⟩, more⟩
  · rw [same]
    exact settled.idle
  · rw [more]
    exact settled.idle.retain found active

theorem Settled.dealloc (settled : v.Settled held) (address : Nat) :
    (v.dealloc address).2.Settled held := by
  refine ⟨settled.toIntact.dealloc address, (dealloc_divides settled.divides _).coalesced, ?_⟩
  rcases dealloc_policies settled.toSound address with same | ⟨i, fewer⟩
  · rw [same]
    exact settled.idle
  · rw [fewer]
    exact settled.idle.release i

theorem Settled.touched (settled : v.Settled held) (touched : v.Touched address w)
    (intact : w.Intact held) : w.Settled held := by
  obtain ⟨policies, layout⟩ := touched
  refine ⟨intact, ?_, policies ▸ settled.idle⟩
  rcases layout with same | ⟨payload, same⟩
  · exact same ▸ settled.coalesced
  · exact same ▸ (settled.divides.setPayload address payload).coalesced

theorem Settled.read (settled : v.Settled held) (address length : Nat) :
    (v.read address length).2.Settled held :=
  settled.touched (v.read_touched address length) (settled.toIntact.read address length)

theorem Settled.write (settled : v.Settled held) (address : Nat) (data : List UInt8) :
    (v.write address data).2.Settled held :=
  settled.touched (v.write_touched address data) (settled.toIntact.write address data)

theorem Settled.teardown (settled : v.Settled held) : v.teardown.2.Settled held := by
  obtain ⟨failures, policies, torn, left⟩ := teardown_inversion settled.toSound
  refine ⟨settled.toIntact.teardown, ?_, ?_⟩
  · rw [torn]
    exact .singleton _
  · rw [torn]
    intro i p found retired
    obtain ⟨q, located, rfl⟩ := left i p found
    rcases Bool.or_eq_true_iff.mp retired with before | free
    · have count := settled.counted i q located
      have none := settled.idle i q located before
      exact Nat.eq_zero_of_add_eq_zero_left (count.symm.trans none)
    · exact beq_iff_eq.mp free

theorem discard_idle {book : Policy.Book} (idle : book.Idle) (m : Policy.Monitor) :
    (m.discard book).Idle := by
  unfold Policy.Monitor.discard
  split
  · exact idle.release _
  · exact idle

/-! ## Operations that fail -/

theorem Settled.alloc_retired {p : Policy.Loaded} {layout : Layout Policy.Monitor}
    (settled : v.Settled held) (found : v.policies[policy]? = some p) (retired : p.retired = true)
    (taken : v.layout.allocate size = .ok (offset, layout)) :
    v.alloc size policy = (.error (.policy .retired), v) := by
  have known := (List.getElem?_eq_some_iff.mp found).1
  have run := (settled.divides.runs.allocate_ok taken).run
  have inside : offset + size ≤ v.arena.size := settled.size ▸ run.inside
  -- The bytes were free, hence zero already: zeroing them is not to be undone.
  have zeroed : v.arena.zeroRange offset size = .ok v.arena := by
    apply Memory.Arena.zeroRange_clear settled.small inside
    intro i above below
    exact settled.clear i (run.free i above below)
  simp only [Vault.alloc, if_pos known, taken, zeroed, guard,
    Policy.Monitor.bind_retired found retired, settled.neat.allocate_undone taken]

theorem Settled.alloc_error {e : Error} (settled : v.Settled held)
    (failed : v.alloc size policy = (.error e, w)) : w = v := by
  have outcome := alloc_inversion settled.toSound size policy
  rw [failed] at outcome
  cases outcome with
  | refused => rfl
  | undone found retired =>
    have known := (List.getElem?_eq_some_iff.mp found).1
    cases taken : v.layout.allocate size with
    | error => simp [Vault.alloc, known, taken] at failed
    | ok result =>
      rw [settled.alloc_retired found retired taken] at failed
      exact (Prod.mk.inj failed).2.symm

theorem Settled.dealloc_error {e : Error} (settled : v.Settled held)
    (failed : v.dealloc address = (.error e, w)) : w = v := by
  cases live : v.allocation? address with
  | none =>
    obtain ⟨cause, refused, -⟩ := dealloc_missing settled.toSound live
    exact (Prod.mk.inj (failed.symm.trans refused)).2
  | some a =>
    obtain ⟨u, done, -⟩ := dealloc_found settled.toSound live
    cases failed.symm.trans done

/-- What an access that fails leaves behind. If its policy is violated, the monitor of the used
segment at the address has made one step, and all else is as before. -/
inductive Denied (v : Vault) (address length : Nat) (access : Policy.Access) : Error → Vault → Prop
  | refused {e : Error} (reason : AccessRefusal address length e) :
      Denied v address length access e v
  | violated {front back : List (Segment Policy.Monitor)} {s : Segment Policy.Monitor}
      {m : Policy.Monitor} (segments : v.layout.segments = front ++ s :: back)
      (used : s.used = true) (starts : s.offset = address) (payload : s.payload = some m)
      (rejected : (m.stepAccess v.policies access).verdict = .rejected) :
      Denied v address length access
        (.policyViolation address access ((m.policyText? v.policies).getD ""))
        { v with layout := ⟨front ++ { s with payload := some (m.stepAccess v.policies access) } ::
          back, v.layout.arenaSize⟩ }

theorem denied_of_rejected {a : Allocation} (sound : v.Sound held) {access : Policy.Access}
    (found : v.allocation? address = some a)
    (rejected : (v.stepped a access).verdict = .rejected) (length : Nat) :
    v.Denied address length access (v.refusal address a access)
      (v.advance address (v.stepped a access)) := by
  obtain ⟨s, member, rfl, payload, -⟩ := sound.allocation?_eq_some.mp found
  obtain ⟨inside, used⟩ := Layout.mem_allocations.mp member
  obtain ⟨front, back, whole, before, behind⟩ := sound.layout.split inside
  have segments :=
    Layout.setPayload_segments whole before behind (some (v.stepped a access))
  have left : v.advance s.offset (v.stepped a access) =
      { v with layout := ⟨front ++ { s with payload := some (v.stepped a access) } :: back,
        v.layout.arenaSize⟩ } := by
    rw [advance, ← segments]
    rfl
  rw [left]
  exact .violated whole used rfl payload rejected

/-- A read and a write fail alike: outside the allocations, or because the policy is violated. -/
theorem denied_of_answer {α : Type} {answer : Answer Vault α} {length : Nat}
    {access : Policy.Access} {e : Error} (sound : v.Sound held)
    (outside : (∀ a, v.allocation? address = some a → ¬ a.Fits length) →
      ∃ cause, answer = (.error cause, v) ∧ AccessRefusal address length cause)
    (rejected : ∀ a, v.allocation? address = some a → a.Fits length →
      (v.stepped a access).verdict = .rejected →
        answer = (.error (v.refusal address a access), v.advance address (v.stepped a access)))
    (allowed : ∀ a, v.allocation? address = some a → a.Fits length →
      (v.stepped a access).verdict = .allowed → ∃ value u, answer = (.ok value, u))
    (failed : answer = (.error e, w)) : v.Denied address length access e w := by
  by_cases within : ∃ a, v.allocation? address = some a ∧ a.Fits length
  · obtain ⟨a, live, fits⟩ := within
    cases verdict : (v.stepped a access).verdict with
    | allowed =>
      obtain ⟨value, u, done⟩ := allowed a live fits verdict
      cases failed.symm.trans done
    | rejected =>
      obtain ⟨same, rfl⟩ := Prod.mk.inj (failed.symm.trans (rejected a live fits verdict))
      obtain rfl := Except.error.inj same
      exact denied_of_rejected sound live verdict length
  · obtain ⟨cause, refused, reason⟩ := outside fun a live fits => within ⟨a, live, fits⟩
    obtain ⟨same, rfl⟩ := Prod.mk.inj (refused.symm.trans failed)
    exact Except.error.inj same ▸ .refused reason

theorem read_denied {length : Nat} {e : Error} (sound : v.Sound held)
    (failed : v.read address length = (.error e, w)) : v.Denied address length .read e w := by
  refine denied_of_answer sound (read_outside sound) ?_ ?_ failed
  · intro a live fits verdict
    exact read_rejected sound live fits verdict
  · intro a live fits verdict
    exact ⟨_, _, read_allowed sound live fits verdict⟩

theorem write_denied {data : List UInt8} {e : Error} (sound : v.Sound held)
    (failed : v.write address data = (.error e, w)) :
    v.Denied address data.length .write e w := by
  refine denied_of_answer sound (write_outside sound) ?_ ?_ failed
  · intro a live fits verdict
    exact write_rejected sound live fits verdict
  · intro a live fits verdict
    obtain ⟨u, written, -⟩ := write_allowed sound live fits verdict
    exact ⟨(), u, written⟩

namespace Shared

variable {g : Shared} {sources : List (List UInt8)}

def Settled (g : Shared) : Prop := g.vault.Settled (Policy.boundCount g.held)

theorem perform_settled (settled : g.Settled) (c : Call) : (g.perform c).Settled := by
  have intact := perform_intact settled.toIntact c
  cases c with
  | alloc size policy => exact Vault.Settled.alloc settled size policy
  | dealloc address => exact Vault.Settled.dealloc settled address
  | read address length => exact Vault.Settled.read settled address length
  | write address data => exact Vault.Settled.write settled address data
  | teardown => exact Vault.Settled.teardown settled
  | hold policy =>
    rw [perform] at intact ⊢
    cases bound : g.vault.hold policy with
    | error => exact settled
    | ok result =>
      rw [bound] at intact
      obtain ⟨⟨p, found, active⟩, left⟩ := hold_inversion bound
      obtain ⟨m, w⟩ := result
      subst left
      exact ⟨intact, settled.coalesced, settled.idle.retain found active⟩
  | release monitor =>
    rw [perform] at intact ⊢
    cases found : g.held[monitor]? with
    | none => exact settled
    | some m =>
      rw [found] at intact
      exact ⟨intact, settled.coalesced, discard_idle settled.idle m⟩

theorem Reached.settled (reached : Reached sources g) : g.Settled := by
  induction reached with
  | created created => exact create_settled created
  | performed _ c ih => exact perform_settled ih c
  | locked _ locked ih =>
    obtain ⟨pinned, same⟩ := pin_of_lock locked
    rw [same]
    exact ⟨ih.toIntact.pin pinned, ih.coalesced, ih.idle⟩
  | retired _ retired ih =>
    have idle := ih.idle.retire retired
    rw [(Policy.Book.retire_inversion retired).2] at idle ⊢
    exact ⟨ih.toIntact.retired _, ih.coalesced, idle⟩

/-- In every vault that can be reached, while others hold whatever monitors on its policies, an
allocation or a deallocation that fails leaves the vault as it was, bytes, layout, monitors and
counts; so does an access, unless its policy is violated. An allocation under a retired policy
that would find room is refused by the policy and undone. -/
theorem failing_atomic (reached : Reached sources g) :
    (∀ size policy e w, g.vault.alloc size policy = (.error e, w) → w = g.vault) ∧
    (∀ address e w, g.vault.dealloc address = (.error e, w) → w = g.vault) ∧
    (∀ address length e w, g.vault.read address length = (.error e, w) →
      g.vault.Denied address length .read e w) ∧
    (∀ address data e w, g.vault.write address data = (.error e, w) →
      g.vault.Denied address data.length .write e w) ∧
    ∀ (size policy offset : Nat) (p : Policy.Loaded) (layout : Layout Policy.Monitor),
      g.vault.policies[policy]? = some p → p.retired = true →
      g.vault.layout.allocate size = .ok (offset, layout) →
      g.vault.alloc size policy = (.error (.policy .retired), g.vault) := by
  have settled : g.Settled := reached.settled
  refine ⟨?_, ?_, ?_, ?_, ?_⟩
  · intro size policy e w failed
    exact settled.alloc_error failed
  · intro address e w failed
    exact settled.dealloc_error failed
  · intro address length e w failed
    exact read_denied settled.toSound failed
  · intro address data e w failed
    exact write_denied settled.toSound failed
  · intro size policy offset p layout found retired taken
    exact settled.alloc_retired found retired taken

/-- Calls after which the policy `R` is retired, and the policy `W` guards the bytes at 0. -/
def refusing : List Call := [.hold 1, .teardown, .alloc 8 1]

theorem failing_atomic_refusing :
    ∃ g, Reached [[0x52], [0x57]] g ∧
      g.vault.layout.segments = [⟨0, 8, true, some (.start 1)⟩, ⟨8, 8, false, none⟩] ∧
      g.vault.alloc 4 0 = (.error (.policy .retired), g.vault) ∧
      ∃ e w, g.vault.read 0 1 = (.error e, w) ∧ g.vault.Denied 0 1 .read e w ∧
        w.layout.segments = [⟨0, 8, true, some ⟨some 1, 0, 1, none⟩⟩, ⟨8, 8, false, none⟩] := by
  have run : (((create 7 16 [[0x52], [0x57]]).toOption.map fun v => after ⟨v, []⟩ refusing).map
      fun g => (g.vault.policies[0]?.map (·.retired), g.vault.layout.segments,
        (g.vault.layout.allocate 4).isOk, (g.vault.read 0 1).1.isOk,
        (g.vault.read 0 1).2.layout.segments)) =
      some (some true, [⟨0, 8, true, some (.start 1)⟩, ⟨8, 8, false, none⟩], true, false,
        [⟨0, 8, true, some ⟨some 1, 0, 1, none⟩⟩, ⟨8, 8, false, none⟩]) := by
    decide +kernel
  obtain ⟨g, made, same⟩ := Option.map_eq_some_iff.mp run
  obtain ⟨v, found, rfl⟩ := Option.map_eq_some_iff.mp made
  have reached := (Reached.created (Policy.ok_of_toOption found)).after refusing
  generalize after ⟨v, []⟩ refusing = g at reached same
  simp only [Prod.mk.injEq] at same
  obtain ⟨policy, segments, room, denied, left⟩ := same
  obtain ⟨p, known, retired⟩ := Option.map_eq_some_iff.mp policy
  obtain ⟨-, -, reads, -, undone⟩ := failing_atomic reached
  refine ⟨g, reached, segments, ?_, ?_⟩
  · cases taken : g.vault.layout.allocate 4 with
    | error e =>
      rw [taken] at room
      cases room
    | ok result => exact undone 4 0 result.1 p result.2 known retired taken
  · cases answer : g.vault.read 0 1 with
    | mk outcome w =>
      rw [answer] at denied left
      cases outcome with
      | ok => cases denied
      | error e => exact ⟨e, w, rfl, reads 0 1 e w answer, left⟩

end Shared

end Vault

end PolicyVault
