import PolicyVault.Proofs.Policy.Compilation
import PolicyVault.Proofs.Vault.Operations

/-!
# What a vault is made of

A vault is used, torn down and used again, while others bind monitors to its policies and drop
them. Meanwhile its arena, its layout and its policies stay consistent with each other, and no byte
of a freed allocation is left behind.

Main statement: `Vault.Shared.integrity`.
-/

namespace PolicyVault

namespace Policy.Monitor

variable {book others : Book} {m : Monitor} {i : Nat} {p : Loaded}

/-- The monitor is bound to a policy of the book, and its states are states of the policy. -/
def Inside (m : Monitor) (book : Book) : Prop :=
  ∃ i p, m.policy = some i ∧ book[i]? = some p ∧
    m.current < p.automaton.stateCount ∧ m.previous < p.automaton.stateCount

theorem start_inside (found : book[i]? = some p)
    (compiled : Automaton.compile p.source = .ok p.automaton) : (start i).Inside book := by
  obtain ⟨current, -⟩ := Automaton.compile_states compiled
  exact ⟨i, p, rfl, found, current, Nat.zero_lt_of_lt current⟩

theorem Inside.step (inside : m.Inside book)
    (compiled : ∀ p ∈ book, Automaton.compile p.source = .ok p.automaton) (b : UInt8) :
    (m.step book b).Inside book := by
  obtain ⟨i, p, bound, found, current, -⟩ := inside
  obtain ⟨-, next⟩ := Automaton.compile_states (compiled p (List.mem_of_getElem? found))
  refine ⟨i, p, bound, found, ?_, current⟩
  rw [step_bound bound found]
  exact next _ _

theorem Inside.uncounted (inside : m.Inside book) (same : others.uncounted = book.uncounted) :
    m.Inside others := by
  obtain ⟨i, p, bound, found, current, previous⟩ := inside
  obtain ⟨q, located, equal⟩ := Book.getElem?_of_uncounted same found
  have automaton : q.automaton = p.automaton := (congrArg Loaded.automaton equal).symm
  exact ⟨i, q, bound, located, automaton ▸ current, automaton ▸ previous⟩

end Policy.Monitor

namespace Vault

open Memory (Segment Layout)

variable {v w : Vault} {held held' : Nat → Nat} {address : Nat} {a : Allocation}

structure Intact (held : Nat → Nat) (v : Vault) : Prop extends Sound held v where
  positive : 0 < v.arena.size
  inside : ∀ s ∈ v.layout.allocations, ∃ monitor, s.payload = some monitor ∧
    monitor.Inside v.policies
  clear : ∀ i, v.layout.FreeAt i → v.arena.byte i = 0

theorem create_intact {pid : UInt32} {arenaSize : UInt64} {sources : List (List UInt8)}
    (created : create pid arenaSize sources = .ok v) : v.Intact fun _ => 0 := by
  obtain ⟨sound, -⟩ := create_spec created
  obtain ⟨positive, policies, -, rfl⟩ := create_inversion created
  refine ⟨sound, ?_, ?_, ?_⟩
  · rw [Memory.Arena.size_zeroed]
    exact positive
  · simp [Layout.start_allocations]
  · intro i _
    exact Memory.Arena.byte_zeroed arenaSize i

/-! ## Allocations -/

theorem Intact.zeroed {offset size : Nat} (intact : v.Intact held)
    (zeroed : v.Zeroed offset size w) (sound : w.Sound held')
    (fresh : ∀ s ∈ w.layout.allocations, s ∈ v.layout.allocations ∨
      ∃ monitor, s.payload = some monitor ∧ monitor.Inside w.policies)
    (gone : ∀ s ∈ v.layout.allocations, s ∈ w.layout.allocations ∨
      s.offset = offset ∧ s.size = size) : w.Intact held' := by
  refine ⟨sound, ?_, ?_, ?_⟩
  · rw [zeroed.continues.size]
    exact intact.positive
  · intro s member
    rcases fresh s member with old | new
    · obtain ⟨monitor, payload, inside⟩ := intact.inside s old
      exact ⟨monitor, payload, inside.uncounted zeroed.continues.policies⟩
    · exact new
  · intro i free
    rw [zeroed.bytes]
    split
    · rfl
    · rename_i outside
      apply intact.clear
      intro s member covers
      rcases gone s member with kept | ⟨rfl, rfl⟩
      · exact free s kept covers
      · exact outside covers

theorem sound_of_perm {offset size : Nat} (sound : v.Sound held) (zeroed : v.Zeroed offset size w)
    (policies : w.policies = v.policies)
    (perm : w.layout.allocations.Perm v.layout.allocations) : w.Sound held := by
  refine ⟨zeroed.layout, zeroed.whole, ?_, ?_, zeroed.continues.compiled sound, ?_⟩
  · rw [zeroed.continues.size]
    exact sound.small
  · intro s member
    rw [policies]
    exact sound.guarded s (perm.mem_iff.mp member)
  · intro i p found
    rw [policies] at found
    rw [sound.counted i p found, perm.countP_eq]

theorem Intact.alloc (intact : v.Intact held) (size policy : Nat) :
    (v.alloc size policy).2.Intact held := by
  have outcome := alloc_inversion intact.toSound size policy
  generalize v.alloc size policy = answer at outcome ⊢
  cases outcome with
  | refused => exact intact
  | undone found _ zeroed policies perm =>
    apply intact.zeroed zeroed (sound_of_perm intact.toSound zeroed policies perm)
    · exact fun s member => .inl (perm.mem_iff.mp member)
    · exact fun s member => .inl (perm.mem_iff.mpr member)
  | granted found _ zeroed policies perm =>
    have known := (List.getElem?_eq_some_iff.mp found).1
    have sound := sound_of_perm_cons intact.toSound zeroed.layout zeroed.whole zeroed.continues
      known perm rfl policies
    apply intact.zeroed zeroed sound
    · intro s member
      cases List.mem_cons.mp (perm.mem_iff.mp member) with
      | inl new =>
        have inside := Policy.Monitor.start_inside found
          (intact.compiled _ (List.mem_of_getElem? found))
        exact .inr ⟨_, by rw [new], inside.uncounted zeroed.continues.policies⟩
      | inr old => exact .inl old
    · exact fun s member => .inl (perm.mem_iff.mpr (List.mem_cons_of_mem _ member))

theorem Intact.dealloc (intact : v.Intact held) (address : Nat) :
    (v.dealloc address).2.Intact held := by
  cases live : v.allocation? address with
  | none =>
    obtain ⟨e, failed, -⟩ := dealloc_missing intact.toSound live
    rw [failed]
    exact intact
  | some a =>
    obtain ⟨s, member, rfl, -⟩ := intact.allocation?_eq_some.mp live
    obtain ⟨w, monitor, i, done, zeroed, payload, bound, policies, perm⟩ :=
      dealloc_inversion intact.toSound member
    have sound := sound_of_cons_perm intact.toSound zeroed.layout zeroed.whole zeroed.continues
      perm payload bound policies
    rw [done]
    apply intact.zeroed zeroed sound
    · exact fun t inW => .inl (perm.mem_iff.mpr (List.mem_cons_of_mem s inW))
    · intro t inV
      cases List.mem_cons.mp (perm.mem_iff.mp inV) with
      | inl same => exact .inr ⟨by rw [same], by rw [same]⟩
      | inr kept => exact .inl kept

/-! ## Accesses -/

theorem Intact.stepped (intact : v.Intact held) (found : v.allocation? address = some a)
    (access : Policy.Access) : (v.advance address (v.stepped a access)).Intact held := by
  obtain ⟨sound, -⟩ := stepped_spec intact.toSound found access
  obtain ⟨s, member, rfl, payload, -⟩ := intact.allocation?_eq_some.mp found
  obtain ⟨-, others, before, after⟩ :=
    Layout.setPayload_spec intact.layout member (some (v.stepped a access))
  refine ⟨sound, intact.positive, ?_, ?_⟩
  · intro t inside
    cases List.mem_cons.mp (after.mem_iff.mp inside) with
    | inl changed =>
      obtain ⟨monitor, same, within⟩ := intact.inside s member
      obtain rfl := Option.some.inj (payload.symm.trans same)
      have next : (v.stepped a access).Inside v.policies :=
        within.step intact.compiled access.symbol
      exact ⟨_, by rw [changed], next⟩
    | inr kept => exact intact.inside t (before.mem_iff.mpr (List.mem_cons_of_mem s kept))
  · intro i free
    apply intact.clear
    intro t inside covers
    cases List.mem_cons.mp (before.mem_iff.mp inside) with
    | inl same =>
      subst same
      exact free _ (after.mem_iff.mpr (List.mem_cons_self ..)) covers
    | inr kept => exact free t (after.mem_iff.mpr (List.mem_cons_of_mem _ kept)) covers

theorem Intact.patched (intact : v.Intact held) (found : v.allocation? address = some a)
    {data : List UInt8} (short : data.length ≤ a.size) {arena : Memory.Arena}
    (size : arena.size = v.arena.size)
    (bytes : ∀ i, arena.byte i =
      if address ≤ i ∧ i < address + data.length then data.getD (i - address) 0
      else v.arena.byte i) : ({ v with arena := arena } : Vault).Intact held := by
  obtain ⟨sound, -⟩ := patched_spec intact.toSound found short size bytes
  obtain ⟨s, member, rfl, -, whole, -⟩ := intact.allocation?_eq_some.mp found
  refine ⟨sound, size ▸ intact.positive, intact.inside, ?_⟩
  intro i free
  have outside : ¬ (s.offset ≤ i ∧ i < s.offset + data.length) := by
    rintro ⟨low, high⟩
    exact free s member ⟨low, Nat.lt_of_lt_of_le high (Nat.add_le_add_left (whole ▸ short) _)⟩
  rw [bytes, if_neg outside]
  exact intact.clear i free

theorem Intact.read (intact : v.Intact held) (address length : Nat) :
    (v.read address length).2.Intact held := by
  by_cases within : ∃ a, v.allocation? address = some a ∧ a.Fits length
  · obtain ⟨a, live, fits⟩ := within
    have stepped := intact.stepped live .read
    cases verdict : (v.stepped a .read).verdict with
    | allowed =>
      rw [read_allowed intact.toSound live fits verdict]
      exact stepped
    | rejected =>
      rw [read_rejected intact.toSound live fits verdict]
      exact stepped
  · obtain ⟨e, failed, -⟩ :=
      read_outside intact.toSound fun a live fits => within ⟨a, live, fits⟩
    rw [failed]
    exact intact

theorem Intact.write (intact : v.Intact held) (address : Nat) (data : List UInt8) :
    (v.write address data).2.Intact held := by
  by_cases within : ∃ a, v.allocation? address = some a ∧ a.Fits data.length
  · obtain ⟨a, live, fits⟩ := within
    have stepped := intact.stepped live .write
    cases verdict : (v.stepped a .write).verdict with
    | allowed =>
      obtain ⟨arena, written, size, bytes⟩ := write_inversion intact.toSound live fits verdict
      obtain ⟨-, advanced⟩ := stepped_spec intact.toSound live .write
      rw [written]
      exact stepped.patched advanced.here fits.2 size bytes
    | rejected =>
      rw [write_rejected intact.toSound live fits verdict]
      exact stepped
  · obtain ⟨e, failed, -⟩ :=
      write_outside intact.toSound fun a live fits => within ⟨a, live, fits⟩
    rw [failed]
    exact intact

/-! ## Policies -/

theorem Intact.teardown (intact : v.Intact held) : v.teardown.2.Intact held := by
  obtain ⟨failures, policies, torn, left⟩ := teardown_inversion intact.toSound
  have positive : 0 < v.layout.arenaSize := intact.size ▸ intact.positive
  have size := v.arena.size_zeroize
  rw [torn]
  refine ⟨⟨Layout.start_sound positive, size.trans intact.size, ?_, ?_, ?_, ?_⟩, ?_, ?_, ?_⟩
  · exact size ▸ intact.small
  · simp [Layout.start_allocations]
  · intro p member
    obtain ⟨i, found⟩ := List.getElem?_of_mem member
    obtain ⟨q, located, rfl⟩ := left i p found
    exact intact.compiled q (List.mem_of_getElem? located)
  · intro i p found
    obtain ⟨q, -, rfl⟩ := left i p found
    simp [Layout.start_allocations]
  · exact size ▸ intact.positive
  · simp [Layout.start_allocations]
  · intro i _
    exact Memory.Arena.byte_zeroize v.arena i

theorem Intact.recounted (intact : v.Intact held) {book : Policy.Book}
    (same : book.uncounted = v.policies.uncounted)
    (counted : ∀ (i : Nat) (p : Policy.Loaded), book[i]? = some p →
      p.bindings = v.layout.allocations.countP (boundTo i) + held' i) :
    ({ v with policies := book } : Vault).Intact held' := by
  have continues : v.Continues { v with policies := book } := ⟨rfl, rfl, same⟩
  refine ⟨⟨intact.layout, intact.size, intact.small, ?_, continues.compiled intact.toSound,
    counted⟩, intact.positive, ?_, intact.clear⟩
  · intro s member
    rw [continues.length]
    exact intact.guarded s member
  · intro s member
    obtain ⟨monitor, payload, inside⟩ := intact.inside s member
    exact ⟨monitor, payload, inside.uncounted same⟩

theorem Intact.retain {i : Nat} (intact : v.Intact held)
    (more : ∀ j, held' j = held j + if i = j then 1 else 0) :
    ({ v with policies := v.policies.retain i } : Vault).Intact held' := by
  apply intact.recounted (Policy.Book.uncounted_retain _ _)
  intro j p found
  obtain ⟨q, located, rfl⟩ := Policy.Book.bindings_modify found
  have count := intact.counted j q located
  rw [more]
  split
  · simp only [Policy.Loaded.retain, count, Nat.add_assoc]
  · exact count

theorem Intact.release {i : Nat} (intact : v.Intact held)
    (fewer : ∀ j, held j = held' j + if i = j then 1 else 0) :
    ({ v with policies := v.policies.release i } : Vault).Intact held' := by
  apply intact.recounted (Policy.Book.uncounted_release _ _)
  intro j p found
  obtain ⟨q, located, rfl⟩ := Policy.Book.bindings_modify found
  have count := intact.counted j q located
  rw [fewer] at count
  split
  · rename_i here
    simp only [Policy.Loaded.release, count, here, if_true]
    rfl
  · rename_i elsewhere
    simpa only [if_neg elsewhere, Nat.add_zero] using count

/-! ## Vaults whose policies are shared -/

/-- A vault, and the monitors on its policies that others hold. -/
structure Shared where
  vault : Vault
  held : List Policy.Monitor

namespace Shared

inductive Call
  | alloc (size policy : Nat)
  | dealloc (address : Nat)
  | read (address length : Nat)
  | write (address : Nat) (data : List UInt8)
  | teardown
  | hold (policy : Nat)
  | release (monitor : Nat)

/-- What a call leaves behind, failed or not. -/
def perform (g : Shared) : Call → Shared
  | .alloc size policy => { g with vault := (g.vault.alloc size policy).2 }
  | .dealloc address => { g with vault := (g.vault.dealloc address).2 }
  | .read address length => { g with vault := (g.vault.read address length).2 }
  | .write address data => { g with vault := (g.vault.write address data).2 }
  | .teardown => { g with vault := g.vault.teardown.2 }
  | .hold policy =>
    match g.vault.hold policy with
    | .error _ => g
    | .ok (monitor, vault) => ⟨vault, g.held ++ [monitor]⟩
  | .release monitor =>
    match g.held[monitor]? with
    | none => g
    | some m => ⟨g.vault.release m, g.held.eraseIdx monitor⟩

def after (g : Shared) (calls : List Call) : Shared := calls.foldl perform g

def Intact (g : Shared) : Prop := g.vault.Intact (Policy.boundCount g.held)

theorem perform_hold_intact {g : Shared} (intact : g.Intact) (policy : Nat) :
    (g.perform (.hold policy)).Intact := by
  simp only [perform, hold]
  cases found : g.vault.policies[policy]? with
  | none =>
    simp only [Policy.Monitor.bind, Policy.Book.acquire, found]
    exact intact
  | some p =>
    cases retired : p.retired with
    | true =>
      rw [Policy.Monitor.bind_retired found retired]
      exact intact
    | false =>
      rw [Policy.Monitor.bind_ok found retired]
      apply Vault.Intact.retain intact
      intro j
      rw [Policy.boundCount_snoc]
      simp [Policy.Monitor.start]

theorem perform_release_intact {g : Shared} (intact : g.Intact) (monitor : Nat) :
    (g.perform (.release monitor)).Intact := by
  simp only [perform]
  cases found : g.held[monitor]? with
  | none => exact intact
  | some m =>
    have counts := Policy.boundCount_eraseIdx found
    cases bound : m.policy with
    | none =>
      have same : Policy.boundCount (g.held.eraseIdx monitor) = Policy.boundCount g.held := by
        funext j
        rw [counts, bound]
        rfl
      simp only [Vault.release, Policy.Monitor.discard, bound, Intact, same]
      exact intact
    | some i =>
      simp only [Vault.release, Policy.Monitor.discard, bound]
      apply Vault.Intact.release intact
      intro j
      rw [counts, bound]
      simp

theorem perform_intact {g : Shared} (intact : g.Intact) (c : Call) : (g.perform c).Intact := by
  cases c with
  | alloc size policy => exact Vault.Intact.alloc intact size policy
  | dealloc address => exact Vault.Intact.dealloc intact address
  | read address length => exact Vault.Intact.read intact address length
  | write address data => exact Vault.Intact.write intact address data
  | teardown => exact Vault.Intact.teardown intact
  | hold policy => exact perform_hold_intact intact policy
  | release monitor => exact perform_release_intact intact monitor

theorem after_intact {g : Shared} (intact : g.Intact) (calls : List Call) :
    (g.after calls).Intact := by
  induction calls generalizing g with
  | nil => exact intact
  | cons c calls ih => exact ih (perform_intact intact c)

/-- After any calls on a vault that was made, the arena is as large as the layout says. The used
segments, and no others, have a monitor; it is bound to a policy of the vault, and is in states of
that policy. Each policy counts the used segments bound to it and the monitors that others hold. A
byte of the arena in no used segment is 0. -/
theorem integrity {v : Vault} {pid : UInt32} {arenaSize : UInt64} {sources : List (List UInt8)}
    (created : create pid arenaSize sources = .ok v) (calls : List Call) :
    let g := (⟨v, []⟩ : Shared).after calls
    let segments := g.vault.layout.segments
    g.vault.arena.size = g.vault.layout.arenaSize ∧
      (∀ s ∈ segments, (s.used = true ↔ ∃ m, s.payload = some m) ∧
        ∀ m, s.payload = some m → ∃ i p, m.policy = some i ∧ g.vault.policies[i]? = some p ∧
          m.current < p.automaton.stateCount ∧ m.previous < p.automaton.stateCount) ∧
      (∀ i p, g.vault.policies[i]? = some p →
        p.bindings = (segments.filter (·.used)).countP (boundTo i) +
          Policy.boundCount g.held i) ∧
      ∀ i, (∀ s ∈ segments, s.used = true → ¬ (s.offset ≤ i ∧ i < s.stop)) →
        g.vault.arena.byte i = 0 := by
  intro g segments
  have made : (⟨v, []⟩ : Shared).Intact := create_intact created
  have intact : g.Intact := after_intact made calls
  refine ⟨intact.size, ?_, intact.counted, ?_⟩
  · intro s member
    cases used : s.used with
    | false =>
      have bare : s.payload = none := intact.layout.clean s member used
      simp [bare]
    | true =>
      obtain ⟨monitor, payload, inside⟩ :=
        intact.inside s (Layout.mem_allocations.mpr ⟨member, used⟩)
      refine ⟨iff_of_true rfl ⟨monitor, payload⟩, ?_⟩
      intro m same
      obtain rfl := Option.some.inj (payload.symm.trans same)
      exact inside
  · intro i free
    apply intact.clear
    intro s member
    obtain ⟨inside, used⟩ := Layout.mem_allocations.mp member
    exact free s inside used

/-- Calls that write under the policy `R`, hold the policy `W` and tear down. The first is then
retired, and the second, which is held, is used on. -/
def tornDown : List Call :=
  [.alloc 4 0, .write 0 [1], .hold 1, .teardown, .alloc 4 0, .alloc 8 1, .write 0 [7, 7]]

theorem integrity_torn_down :
    ∃ v, create 7 16 [[0x52], [0x57]] = .ok v ∧
      let g := (⟨v, []⟩ : Shared).after tornDown
      g.vault.layout.segments =
          [⟨0, 8, true, some ⟨some 1, 2, 1, none⟩⟩, ⟨8, 8, false, none⟩] ∧
        (∀ i p, g.vault.policies[i]? = some p → p.bindings = if i = 1 then 2 else 0) ∧
        ∀ i, 8 ≤ i → g.vault.arena.byte i = 0 := by
  have run : ((create 7 16 [[0x52], [0x57]]).toOption.map fun v =>
      let g := (⟨v, []⟩ : Shared).after tornDown
      (g.vault.layout.segments, g.held)) =
        some ([⟨0, 8, true, some ⟨some 1, 2, 1, none⟩⟩, ⟨8, 8, false, none⟩], [.start 1]) := by
    decide +kernel
  obtain ⟨v, found, same⟩ := Option.map_eq_some_iff.mp run
  obtain ⟨segments, held⟩ := Prod.mk.inj same
  have created := Policy.ok_of_toOption found
  obtain ⟨-, -, counted, clear⟩ := integrity created tornDown
  refine ⟨v, created, segments, ?_, ?_⟩
  · intro i p policy
    rw [counted i p policy, segments, held]
    by_cases one : i = 1
    · subst one
      rfl
    · have differ : 1 ≠ i := Ne.symm one
      simp [boundTo, Policy.boundCount, Policy.Monitor.start, one, differ]
  · intro i behind
    apply clear
    rw [segments]
    simp [Segment.stop]
    omega

end Shared

end Vault

end PolicyVault
