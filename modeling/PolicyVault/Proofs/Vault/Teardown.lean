import PolicyVault.Proofs.Vault.Atomicity

/-!
# The end of a vault

Teardown leaves a vault of zero bytes, without allocations. Each policy that others still hold
monitors of is reported once, with their number, and stays in use; every other policy is retired
for good. If others hold none, nothing works any more, and nothing changes the vault again.

Main statement: `Vault.Shared.teardown_exact`.
-/

namespace PolicyVault

namespace Policy.Book

theorem retireAll_failures (book : Book) :
    book.retireAll.2 = ((book.map (·.bindings)).filter (0 < ·)).map .inUse := by
  induction book with
  | nil => rfl
  | cons p book ih =>
    simp only [retireAll, Loaded.retire, List.map_cons, List.filter_cons]
    by_cases free : p.bindings = 0
    · simp [free, ih]
    · simp [free, ih, Nat.pos_iff_ne_zero]

/-- The book with new counts, in which the policies that nothing is bound to are retired. -/
def recount (book : Book) (held : Nat → Nat) : Book :=
  book.mapIdx fun i p => { p with bindings := held i, retired := p.retired || held i == 0 }

theorem length_recount (book : Book) (held : Nat → Nat) :
    (book.recount held).length = book.length :=
  List.length_mapIdx

theorem getElem?_recount (book : Book) (held : Nat → Nat) (i : Nat) :
    (book.recount held)[i]? = book[i]?.map fun p =>
      { p with bindings := held i, retired := p.retired || held i == 0 } :=
  List.getElem?_mapIdx

theorem recount_recount (book : Book) (held : Nat → Nat) :
    (book.recount held).recount held = book.recount held := by
  apply List.ext_getElem?
  intro i
  simp only [getElem?_recount, Option.map_map]
  congr 1
  funext p
  simp only [Function.comp_apply, Bool.or_assoc, Bool.or_self]

end Policy.Book

namespace Vault

open Memory (Segment Layout)

variable {v w : Vault} {held : Nat → Nat} {policy : Nat}

/-! ## What is reported -/

/-- The failures of a teardown: a policy in use for each of the first `count` that is held. -/
def leftovers (held : Nat → Nat) (count : Nat) : List Error :=
  ((List.range count).filter (0 < held ·)).map fun i => .policy (.inUse (held i))

theorem unbindAll_eq (sound : v.Sound held) :
    unbindAll v.policies v.layout.usedPayloads =
      ([], v.policies.mapIdx fun i p => { p with bindings := held i }) := by
  obtain ⟨rest, unbound, counts⟩ := unbindAll_own sound
  have sources := unbindAll_sources v.policies v.layout.usedPayloads
  rw [unbound] at sources ⊢
  have length : rest.length = v.policies.length := by
    simpa only [List.length_map] using congrArg List.length sources
  refine congrArg (Prod.mk []) (List.ext_getElem ?_ ?_)
  · rw [List.length_mapIdx, length]
  · intro i known _
    obtain ⟨q, located, same⟩ := counts i rest[i] (List.getElem?_eq_getElem known)
    obtain ⟨_, rfl⟩ := List.getElem?_eq_some_iff.mp located
    rw [same, List.getElem_mapIdx]

theorem teardown_eq (sound : v.Sound held) :
    v.teardown = (leftovers held v.policies.length,
      { v with
        arena := v.arena.zeroize
        layout := .start v.layout.arenaSize
        policies := v.policies.recount held }) := by
  have counts : (v.policies.mapIdx fun i p => { p with bindings := held i }).map (·.bindings) =
      (List.range v.policies.length).map held := by
    apply List.ext_getElem <;> simp
  have policies : (Policy.Book.retireAll
      (v.policies.mapIdx fun i p => { p with bindings := held i })).1 =
        v.policies.recount held := by
    apply List.ext_getElem?
    intro i
    rw [getElem?_retireAll, Policy.Book.getElem?_recount, List.getElem?_mapIdx, Option.map_map]
    rfl
  simp only [teardown, unbindAll_eq sound, Policy.Book.retireAll_failures, counts, policies,
    List.filter_map, List.map_map, List.nil_append]
  rfl

theorem teardown_twice (sound : v.Sound held) (torn : v.teardown.2.Sound held) :
    v.teardown.2.teardown = v.teardown := by
  rw [teardown_eq torn, teardown_eq sound]
  simp only [Policy.Book.length_recount, Policy.Book.recount_recount, Memory.Arena.zeroize_zeroize,
    Layout.start]

/-! ## What is left -/

/-- A vault after its end, with the monitors that others hold. -/
structure Ended (held : Nat → Nat) (v w : Vault) : Prop where
  size : w.arena.size = v.arena.size
  clear : ∀ i, w.arena.byte i = 0
  layout : w.layout = .start w.arena.size
  sources : w.policies.map (·.source) = v.policies.map (·.source)
  counted : ∀ i p, w.policies[i]? = some p → p.bindings = held i ∧ (p.retired = true ↔ held i = 0)

theorem Settled.ended (settled : v.Settled held) : Ended held v v.teardown.2 := by
  have sources := teardown_sources v
  rw [teardown_eq settled.toSound] at sources ⊢
  have size := v.arena.size_zeroize
  refine ⟨size, v.arena.byte_zeroize, ?_, sources, ?_⟩
  · exact congrArg Layout.start (settled.size.symm.trans size.symm)
  · intro i p found
    rw [Policy.Book.getElem?_recount] at found
    obtain ⟨q, located, rfl⟩ := Option.map_eq_some_iff.mp found
    refine ⟨rfl, ?_⟩
    simp only [Bool.or_eq_true, beq_iff_eq]
    constructor
    · rintro (before | free)
      · -- Nothing was bound to it when it was retired, and nothing could be since.
        have none := settled.idle i q located before
        have count := settled.counted i q located
        omega
      · exact free
    · exact .inr

/-! ## Retired policies -/

/-- There is no policy of that number that could be bound. -/
def Closed (v : Vault) (policy : Nat) : Prop :=
  ∀ p, v.policies[policy]? = some p → p.retired = true

theorem Continues.closed (continues : v.Continues w) (closed : v.Closed policy) :
    w.Closed policy := by
  intro q found
  obtain ⟨p, located, same⟩ := continues.policy found
  rw [same]
  exact closed p located

theorem Closed.teardown (sound : v.Sound held) (closed : v.Closed policy) :
    v.teardown.2.Closed policy := by
  rw [teardown_eq sound]
  intro p found
  rw [Policy.Book.getElem?_recount] at found
  obtain ⟨q, located, rfl⟩ := Option.map_eq_some_iff.mp found
  exact Bool.or_eq_true_iff.mpr (.inl (closed q located))

theorem Settled.alloc_closed (settled : v.Settled held) (closed : v.Closed policy) (size : Nat) :
    ∃ e, v.alloc size policy = (.error e, v) := by
  have outcome := alloc_inversion settled.toSound size policy
  cases answer : v.alloc size policy with
  | mk result w =>
  rw [answer] at outcome
  cases outcome with
  | refused => exact ⟨_, rfl⟩
  | undone => exact ⟨_, congrArg _ (settled.alloc_error answer)⟩
  | granted found active => exact absurd (active.symm.trans (closed _ found)) Bool.false_ne_true

theorem hold_closed (closed : v.Closed policy) : ∃ e, v.hold policy = .error e := by
  unfold hold
  cases found : v.policies[policy]? with
  | none => exact ⟨.retired, by simp [Policy.Monitor.bind, Policy.Book.acquire, found]⟩
  | some p => exact ⟨.retired, by rw [Policy.Monitor.bind_retired found (closed p found)]⟩

/-! ## Vaults that are over -/

/-- A vault on which every operation fails and changes nothing. -/
structure Inert (v : Vault) : Prop where
  alloc : ∀ size policy, ∃ e, v.alloc size policy = (.error e, v)
  dealloc : ∀ address, ∃ e, v.dealloc address = (.error e, v)
  read : ∀ address length, ∃ e, v.read address length = (.error e, v)
  write : ∀ address data, ∃ e, v.write address data = (.error e, v)

theorem Settled.inert (settled : v.Settled held) (closed : ∀ i, v.Closed i)
    (empty : v.layout.allocations = []) : v.Inert := by
  have missing : ∀ address, v.allocation? address = none := by
    intro address
    rw [allocation?, empty]
    rfl
  have outside : ∀ address length a, v.allocation? address = some a → ¬ a.Fits length := by
    intro address length a live
    cases live.symm.trans (missing address)
  refine ⟨?_, ?_, ?_, ?_⟩
  · intro size policy
    exact settled.alloc_closed (closed policy) size
  · intro address
    obtain ⟨e, failed, -⟩ := dealloc_missing settled.toSound (missing address)
    exact ⟨e, failed⟩
  · intro address length
    obtain ⟨e, failed, -⟩ := read_outside settled.toSound (outside address length)
    exact ⟨e, failed⟩
  · intro address data
    obtain ⟨e, failed, -⟩ := write_outside settled.toSound (outside address data.length)
    exact ⟨e, failed⟩

namespace Shared

variable {g : Shared} {sources : List (List UInt8)}

theorem perform_closed (intact : g.Intact) (closed : g.vault.Closed policy) (c : Call) :
    (g.perform c).vault.Closed policy := by
  cases c with
  | alloc size policy => exact (alloc_continues intact.toSound size policy).closed closed
  | dealloc address => exact (dealloc_continues intact.toSound address).closed closed
  | read address length => exact (read_continues intact.toSound address length).closed closed
  | write address data => exact (write_continues intact.toSound address data).closed closed
  | teardown => exact closed.teardown intact.toSound
  | hold policy =>
    simp only [perform]
    split
    · exact closed
    · rename_i bound
      exact (hold_continues bound).closed closed
  | release monitor =>
    simp only [perform]
    split
    · exact closed
    · exact (release_continues _ _).closed closed

theorem after_closed (intact : g.Intact) (closed : g.vault.Closed policy) (later : List Call) :
    (g.after later).vault.Closed policy := by
  induction later generalizing g with
  | nil => exact closed
  | cons c later ih => exact ih (perform_intact intact c) (perform_closed intact closed c)

/-- A vault that is over, and of which others hold nothing. -/
structure Spent (g : Shared) : Prop where
  inert : g.vault.Inert
  torn : g.vault.teardown.2 = g.vault
  closed : ∀ i, g.vault.Closed i
  unheld : ∀ i, Policy.boundCount g.held i = 0

theorem Spent.perform (spent : g.Spent) (c : Call) :
    (g.perform c).vault = g.vault ∧ (g.perform c).Spent := by
  -- As the vault stays the same, only what others hold has to be looked at.
  have kept : ∀ {h : Shared}, h.vault = g.vault → (∀ i, Policy.boundCount h.held i = 0) →
      h.vault = g.vault ∧ h.Spent := by
    intro h same unheld
    refine ⟨same, ?_, ?_, ?_, unheld⟩ <;> rw [same]
    · exact spent.inert
    · exact spent.torn
    · exact spent.closed
  cases c with
  | alloc size policy =>
    obtain ⟨e, failed⟩ := spent.inert.alloc size policy
    exact kept (congrArg Prod.snd failed) spent.unheld
  | dealloc address =>
    obtain ⟨e, failed⟩ := spent.inert.dealloc address
    exact kept (congrArg Prod.snd failed) spent.unheld
  | read address length =>
    obtain ⟨e, failed⟩ := spent.inert.read address length
    exact kept (congrArg Prod.snd failed) spent.unheld
  | write address data =>
    obtain ⟨e, failed⟩ := spent.inert.write address data
    exact kept (congrArg Prod.snd failed) spent.unheld
  | teardown => exact kept spent.torn spent.unheld
  | hold policy =>
    obtain ⟨e, failed⟩ := hold_closed (spent.closed policy)
    rw [Shared.perform, failed]
    exact kept rfl spent.unheld
  | release monitor =>
    rw [Shared.perform]
    cases found : g.held[monitor]? with
    | none => exact kept rfl spent.unheld
    | some m =>
      have unbound : m.policy = none := by
        cases bound : m.policy with
        | none => rfl
        | some i =>
          have counts := Policy.boundCount_pos (List.mem_of_getElem? found) bound
          exact absurd (spent.unheld i) (Nat.ne_of_gt counts)
      apply kept
      · simp only [release, Policy.Monitor.discard, unbound]
      · intro i
        have counts := Policy.boundCount_eraseIdx found i
        exact Nat.eq_zero_of_add_eq_zero_right (counts.symm.trans (spent.unheld i))

theorem Spent.after (spent : g.Spent) (later : List Call) : (g.after later).vault = g.vault := by
  induction later generalizing g with
  | nil => rfl
  | cons c later ih =>
    obtain ⟨same, next⟩ := spent.perform c
    exact (ih next).trans same

theorem Settled.spent (settled : g.Settled) (unheld : ∀ i, Policy.boundCount g.held i = 0) :
    (g.perform .teardown).Spent := by
  have ended := Vault.Settled.ended settled
  have torn := Vault.Settled.teardown settled
  have closed : ∀ i, g.vault.teardown.2.Closed i := by
    intro i p found
    exact (ended.counted i p found).2.mpr (unheld i)
  have empty : g.vault.teardown.2.layout.allocations = [] := by
    rw [ended.layout]
    exact Layout.start_allocations _
  refine ⟨torn.inert closed empty, ?_, closed, unheld⟩
  exact congrArg Prod.snd (teardown_twice settled.toSound torn.toSound)

/-- The teardown of a vault that can be reached reports each policy that others hold monitors of,
with their number, in order, and nothing else. It leaves zero bytes, one free segment, those
monitors counted, and the other policies retired: an allocation under one of them fails from then
on, whatever is called. If nothing is held, nothing works any more and no call changes the vault.
A second teardown does and tells the same. -/
theorem teardown_exact (reached : Reached sources g) :
    let held := Policy.boundCount g.held
    let torn := g.perform .teardown
    g.vault.teardown.1 = leftovers held g.vault.policies.length ∧
      Ended held g.vault torn.vault ∧
      (∀ policy, held policy = 0 → ∀ later size, ∃ e,
        (torn.after later).vault.alloc size policy = (.error e, (torn.after later).vault)) ∧
      ((∀ policy, held policy = 0) →
        torn.vault.Inert ∧ ∀ later, (torn.after later).vault = torn.vault) ∧
      torn.vault.teardown = (g.vault.teardown.1, torn.vault) := by
  intro held torn
  have settled : g.Settled := reached.settled
  have ended : Ended held g.vault torn.vault := Vault.Settled.ended settled
  have reachedTorn : Reached sources torn := reached.performed .teardown
  refine ⟨?_, ended, ?_, ?_, ?_⟩
  · rw [teardown_eq settled.toSound]
  · intro policy free later size
    have closed : torn.vault.Closed policy := fun p found =>
      (ended.counted policy p found).2.mpr free
    have settledLater : (torn.after later).Settled := (reachedTorn.after later).settled
    exact settledLater.alloc_closed (after_closed reachedTorn.intact closed later) size
  · intro free
    have spent : torn.Spent := settled.spent free
    exact ⟨spent.inert, spent.after⟩
  · exact teardown_twice settled.toSound reachedTorn.settled.toSound

/-- Calls that leave a byte under the policy `W`, whose second monitor is held. -/
def holding : List Call := [.alloc 8 0, .alloc 4 1, .hold 1, .write 8 [5]]

theorem teardown_exact_holding :
    ∃ g, Reached [[0x52], [0x57]] g ∧ g.held = [.start 1] ∧ g.vault.arena.byte 8 = 5 ∧
      g.vault.teardown.1 = [.policy (.inUse 1)] ∧
      (∀ later size, ∃ e, ((g.perform .teardown).after later).vault.alloc size 0 =
        (.error e, ((g.perform .teardown).after later).vault)) ∧
      ((g.perform (.release 0)).perform .teardown).vault.Inert := by
  have run : (((create 7 16 [[0x52], [0x57]]).toOption.map fun v => after ⟨v, []⟩ holding).map
      fun g => (g.held, g.vault.arena.byte 8, g.vault.policies.length)) =
      some ([.start 1], 5, 2) := by
    decide +kernel
  obtain ⟨g, made, same⟩ := Option.map_eq_some_iff.mp run
  obtain ⟨v, found, rfl⟩ := Option.map_eq_some_iff.mp made
  have reached := (Reached.created (Policy.ok_of_toOption found)).after holding
  generalize after ⟨v, []⟩ holding = g at reached same
  simp only [Prod.mk.injEq] at same
  obtain ⟨held, byte, count⟩ := same
  obtain ⟨report, -, retired, -, -⟩ := teardown_exact reached
  obtain ⟨-, -, -, inert, -⟩ := teardown_exact (reached.performed (.release 0))
  refine ⟨g, reached, held, byte, ?_, ?_, ?_⟩
  · rw [report, held, count]
    rfl
  · apply retired
    rw [held]
    rfl
  · refine (inert ?_).1
    intro policy
    simp only [Shared.perform, held]
    rfl

end Shared

end Vault

end PolicyVault
