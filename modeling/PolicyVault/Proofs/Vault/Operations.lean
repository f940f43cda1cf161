import PolicyVault.Proofs.Vault.Soundness

/-!
# Operations on sound vaults

Each operation on a sound vault either fails and leaves the vault as it was, or changes the one
allocation that it is about; a refused access advances the monitor of that allocation. All of them
keep the vault sound.

Main statements: `Vault.alloc_inversion`, `Vault.alloc_cases`, `Vault.dealloc_found`,
`Vault.read_allowed`, `Vault.write_allowed`, `Vault.teardown_inversion`, `Vault.create_spec`.
-/

namespace PolicyVault.Vault

open Memory (Segment Layout)

variable {v w : Vault} {held : Nat → Nat} {address : Nat} {a : Allocation}

/-- The vault of the same process, with the same arena size and the same policies but for their
counts. -/
structure Continues (v w : Vault) : Prop where
  pid : w.pid = v.pid
  size : w.arena.size = v.arena.size
  policies : w.policies.uncounted = v.policies.uncounted

theorem Continues.refl (v : Vault) : v.Continues v := ⟨rfl, rfl, rfl⟩

theorem Continues.trans {u : Vault} (first : u.Continues v) (second : v.Continues w) :
    u.Continues w :=
  ⟨second.pid.trans first.pid, second.size.trans first.size,
    second.policies.trans first.policies⟩

theorem Continues.length (continues : v.Continues w) : w.policies.length = v.policies.length := by
  rw [← Policy.Book.length_uncounted, continues.policies, Policy.Book.length_uncounted]

theorem Continues.sources (continues : v.Continues w) :
    w.policies.map (·.source) = v.policies.map (·.source) := by
  have uncounted : ∀ book : Policy.Book, book.map (·.source) = book.uncounted.map (·.source) := by
    intro book
    simp [Policy.Book.uncounted]
  rw [uncounted, continues.policies, ← uncounted]

/-- A policy was there before with another count. -/
theorem Continues.policy {i : Nat} {q : Policy.Loaded} (continues : v.Continues w)
    (found : w.policies[i]? = some q) :
    ∃ p, v.policies[i]? = some p ∧ q = { p with bindings := q.bindings } :=
  Policy.Book.getElem?_of_uncounted continues.policies.symm found

theorem compiled_iff_uncounted :
    (∀ p ∈ v.policies, Policy.Automaton.compile p.source = .ok p.automaton) ↔
      ∀ p ∈ v.policies.uncounted, Policy.Automaton.compile p.source = .ok p.automaton := by
  simp [Policy.Book.uncounted]

theorem Continues.compiled (continues : v.Continues w) (sound : v.Sound held) :
    ∀ p ∈ w.policies, Policy.Automaton.compile p.source = .ok p.automaton := by
  rw [compiled_iff_uncounted, continues.policies, ← compiled_iff_uncounted]
  exact sound.compiled

theorem active_iff_uncounted : v.Active ↔ ∀ p ∈ v.policies.uncounted, p.retired = false := by
  simp [Active, Policy.Book.uncounted]

theorem Continues.active (continues : v.Continues w) (active : v.Active) : w.Active := by
  rw [active_iff_uncounted] at active ⊢
  rw [continues.policies]
  exact active

/-! ## Advancing a monitor -/

/-- The vault with another monitor at an address. -/
def advance (v : Vault) (address : Nat) (monitor : Policy.Monitor) : Vault :=
  { v with layout := v.layout.setPayload address (some monitor) }

theorem mem_cons_of_offset {s t : Segment Policy.Monitor} {others : List (Segment Policy.Monitor)}
    (differ : t.offset ≠ s.offset) : t ∈ s :: others ↔ t ∈ others := by
  simp only [List.mem_cons, or_iff_right_iff_imp]
  rintro rfl
  exact absurd rfl differ

/-- The allocation at `address` becomes `changed`, and no other one changes. -/
structure Updated (v : Vault) (address : Nat) (changed : Option Allocation) (w : Vault) :
    Prop where
  continues : v.Continues w
  here : w.allocation? address = changed
  elsewhere : ∀ x, x ≠ address → w.allocation? x = v.allocation? x

theorem Updated.trans {u : Vault} {first second : Option Allocation}
    (before : u.Updated address first v) (after : v.Updated address second w) :
    u.Updated address second w where
  continues := before.continues.trans after.continues
  here := after.here
  elsewhere x differ := (after.elsewhere x differ).trans (before.elsewhere x differ)

theorem advance_spec (sound : v.Sound held) (found : v.allocation? address = some a)
    {monitor : Policy.Monitor} (samePolicy : monitor.policy = a.monitor.policy) :
    (v.advance address monitor).Sound held ∧
      v.Updated address (some { a with monitor := monitor }) (v.advance address monitor) := by
  obtain ⟨s, member, rfl, payload, size, bytes⟩ := sound.allocation?_eq_some.mp found
  obtain ⟨layout, others, before, after⟩ :=
    Layout.setPayload_spec sound.layout member (some monitor)
  obtain ⟨_, i, same, bound, known⟩ := sound.guarded s member
  obtain rfl := Option.some.inj (payload.symm.trans same)
  have changedMember : { s with payload := some monitor } ∈
      (v.advance s.offset monitor).layout.allocations := after.mem_iff.mpr (by simp)
  have soundW : (v.advance s.offset monitor).Sound held := by
    refine ⟨layout, sound.size, sound.small, ?_, sound.compiled, ?_⟩
    · intro t inside
      rcases List.mem_cons.mp (after.mem_iff.mp inside) with rfl | inside
      · exact ⟨monitor, i, rfl, samePolicy.trans bound, known⟩
      · exact sound.guarded t (before.mem_iff.mpr (by simp [inside]))
    · intro j p policy
      rw [sound.counted j p policy, before.countP_eq]
      simp only [advance]
      rw [after.countP_eq]
      simp [List.countP_cons, boundTo, payload, samePolicy]
  refine ⟨soundW, ⟨rfl, rfl, rfl⟩, ?_, ?_⟩
  · rw [soundW.allocation?_of_mem changedMember rfl]
    simp only [size, bytes]
    rfl
  · intro x differ
    apply allocation?_congr sound soundW
    · rintro t rfl
      exact (after.mem_iff.trans (mem_cons_of_offset differ)).trans
        (before.mem_iff.trans (mem_cons_of_offset differ)).symm
    · intro t _ _
      rfl

/-! ## Taking and giving back -/

theorem used_of_mem (sound : v.Sound held) {s : Segment Policy.Monitor}
    (member : s ∈ v.layout.allocations) : v.used s.offset = .ok s := by
  obtain ⟨inside, inUse⟩ := Layout.mem_allocations.mp member
  simp [used, sound.layout.find?_of_mem inside, inUse]

/-- Errors that say that nothing is allocated at an address. -/
inductive Absent (address : Nat) : Error → Prop
  | notFound : Absent address (.memory (.notFound address))
  | notInUse : Absent address (.memory (.notInUse address))

theorem used_absent (sound : v.Sound held) (missing : v.allocation? address = none) :
    ∃ e, v.used address = .error e ∧ Absent address e := by
  unfold used
  split
  · exact ⟨_, rfl, .notFound⟩
  · rename_i s found
    obtain ⟨inside, starts⟩ := Layout.mem_of_find? found
    have unused : ¬ s.used = true := fun inUse =>
      sound.allocation?_eq_none.mp missing s (Layout.mem_allocations.mpr ⟨inside, inUse⟩) starts
    exact ⟨_, if_neg unused, .notInUse⟩

theorem contents_apart {t : Segment Policy.Monitor} {offset size : Nat}
    (bytes : ∀ i, ¬ (offset ≤ i ∧ i < offset + size) → w.arena.byte i = v.arena.byte i)
    (apart : t.stop ≤ offset ∨ offset + size ≤ t.offset) : w.contents t = v.contents t := by
  apply contents_congr
  intro i low high
  apply bytes
  omega

/-- One more allocation. Read backwards, one allocation less. -/
theorem allocation?_of_perm_cons {before after : Nat → Nat} {s : Segment Policy.Monitor}
    (soundV : v.Sound before) (soundW : w.Sound after)
    (perm : w.layout.allocations.Perm (s :: v.layout.allocations))
    (bytes : ∀ i, ¬ (s.offset ≤ i ∧ i < s.stop) → w.arena.byte i = v.arena.byte i) :
    v.allocation? s.offset = none ∧
      ∀ x, x ≠ s.offset → w.allocation? x = v.allocation? x := by
  have member : s ∈ w.layout.allocations := perm.mem_iff.mpr (List.mem_cons_self ..)
  constructor
  · rw [soundV.allocation?_eq_none]
    intro t inV same
    have distinct := (perm.map (·.offset)).nodup_iff.mp soundW.layout.nodup
    exact (List.nodup_cons.mp distinct).1 (List.mem_map.mpr ⟨t, inV, same⟩)
  · intro x differ
    apply allocation?_congr soundV soundW
    · rintro t rfl
      exact perm.mem_iff.trans (mem_cons_of_offset differ)
    · rintro t inV rfl
      have inW := perm.mem_iff.mpr (List.mem_cons_of_mem s inV)
      exact contents_apart bytes (soundW.layout.disjoint inW member differ)

theorem sound_of_perm_cons {s : Segment Policy.Monitor} {i : Nat} (sound : v.Sound held)
    (layout : w.layout.Sound) (size : w.arena.size = w.layout.arenaSize)
    (continues : v.Continues w) (known : i < v.policies.length)
    (perm : w.layout.allocations.Perm (s :: v.layout.allocations))
    (payload : s.payload = some (.start i)) (policies : w.policies = v.policies.retain i) :
    w.Sound held := by
  refine ⟨layout, size, by rw [continues.size]; exact sound.small, ?_,
    continues.compiled sound, ?_⟩
  · intro t member
    rw [continues.length]
    rcases List.mem_cons.mp (perm.mem_iff.mp member) with rfl | inside
    · exact ⟨_, i, payload, rfl, known⟩
    · exact sound.guarded t inside
  · intro j p found
    rw [policies] at found
    obtain ⟨q, located, rfl⟩ := Policy.Book.bindings_modify found
    have count := sound.counted j q located
    rw [perm.countP_eq, List.countP_cons]
    by_cases here : i = j
    · simp only [here, if_true, Policy.Loaded.retain, count, boundTo, payload]
      simp [Policy.Monitor.start]
      omega
    · simp [here, count, boundTo, payload, Policy.Monitor.start]

theorem sound_of_cons_perm {s : Segment Policy.Monitor} {monitor : Policy.Monitor} {i : Nat}
    (sound : v.Sound held) (layout : w.layout.Sound) (size : w.arena.size = w.layout.arenaSize)
    (continues : v.Continues w) (perm : v.layout.allocations.Perm (s :: w.layout.allocations))
    (payload : s.payload = some monitor) (bound : monitor.policy = some i)
    (policies : w.policies = v.policies.release i) : w.Sound held := by
  refine ⟨layout, size, by rw [continues.size]; exact sound.small, ?_,
    continues.compiled sound, ?_⟩
  · intro t member
    rw [continues.length]
    exact sound.guarded t (perm.mem_iff.mpr (List.mem_cons_of_mem s member))
  · intro j p found
    rw [policies] at found
    obtain ⟨q, located, rfl⟩ := Policy.Book.bindings_modify found
    have count := sound.counted j q located
    rw [perm.countP_eq, List.countP_cons] at count
    by_cases here : i = j
    · simp only [boundTo, payload, Option.bind_some, bound, here, beq_self_eq_true, if_true]
        at count
      simp only [here, if_true, Policy.Loaded.release, count]
      unfold boundTo
      omega
    · simpa [here, boundTo, payload, bound] using count

theorem contents_zeroed {s : Segment Policy.Monitor}
    (zeroed : ∀ i, s.offset ≤ i ∧ i < s.stop → v.arena.byte i = 0) :
    v.contents s = List.replicate s.size 0 := by
  apply List.eq_replicate_iff.mpr
  refine ⟨length_contents v s, ?_⟩
  intro b member
  obtain ⟨i, bound, rfl⟩ := List.mem_map.mp member
  have bound : i < s.size := List.mem_range.mp bound
  exact zeroed _ ⟨Nat.le_add_right _ _, by unfold Segment.stop; omega⟩

inductive AllocRefusal (size policy : Nat) : Error → Prop
  | unknownPolicy (count : Nat) : AllocRefusal size policy (.unknownPolicy policy count)
  | zeroSize : AllocRefusal size policy (.memory .zeroSize)
  | outOfMemory (largest : Nat) : AllocRefusal size policy (.memory (.outOfMemory size largest))

/-- The bytes of a range become zero. -/
structure Zeroed (v : Vault) (offset size : Nat) (w : Vault) : Prop where
  continues : v.Continues w
  layout : w.layout.Sound
  whole : w.arena.size = w.layout.arenaSize
  bytes : ∀ i, w.arena.byte i = if offset ≤ i ∧ i < offset + size then 0 else v.arena.byte i

/-- All that an allocation can come to. -/
inductive Allocated (v : Vault) (size policy : Nat) : Answer Vault Nat → Prop
  | refused {e : Error} (reason : AllocRefusal size policy e) :
      Allocated v size policy (.error e, v)
  | undone {p : Policy.Loaded} {offset : Nat} {w : Vault} (found : v.policies[policy]? = some p)
      (retired : p.retired = true) (zeroed : v.Zeroed offset size w)
      (policies : w.policies = v.policies)
      (perm : w.layout.allocations.Perm v.layout.allocations) :
      Allocated v size policy (.error (.policy .retired), w)
  | granted {p : Policy.Loaded} {offset : Nat} {w : Vault} (found : v.policies[policy]? = some p)
      (active : p.retired = false) (zeroed : v.Zeroed offset size w)
      (policies : w.policies = v.policies.retain policy)
      (perm : w.layout.allocations.Perm
        (⟨offset, size, true, some (.start policy)⟩ :: v.layout.allocations)) :
      Allocated v size policy (.ok offset, w)

theorem alloc_inversion (sound : v.Sound held) (size policy : Nat) :
    Allocated v size policy (v.alloc size policy) := by
  unfold alloc
  split
  · rename_i known
    have found : v.policies[policy]? = some v.policies[policy] := List.getElem?_eq_getElem known
    split
    · rename_i e failed
      rcases Layout.allocate_error failed with rfl | rfl
      · exact .refused .zeroSize
      · exact .refused (.outOfMemory _)
    · rename_i offset layout taken
      obtain ⟨soundTaken, sameTaken, permTaken⟩ := Layout.allocate_spec sound.layout taken
      have member : ⟨offset, size, true, none⟩ ∈ layout.allocations :=
        permTaken.mem_iff.mpr (List.mem_cons_self ..)
      have inside : offset + size ≤ v.arena.size := by
        rw [sound.size, ← sameTaken]
        exact (soundTaken.within member).2
      obtain ⟨arena, zeroed, sizeArena, bytes⟩ :=
        Memory.Arena.zeroRange_inside sound.small inside
      simp only [zeroed, guard]
      cases retired : v.policies[policy].retired with
      | true =>
        obtain ⟨last, freed, soundLast, sameLast, permLast⟩ :=
          Layout.deallocate_spec soundTaken member
        rw [Policy.Monitor.bind_retired found retired]
        simp only [freed]
        exact .undone found retired
          ⟨⟨rfl, sizeArena, rfl⟩, soundLast,
            sizeArena.trans (sound.size.trans (sameLast.trans sameTaken).symm), bytes⟩
          rfl (permLast.symm.trans permTaken).cons_inv
      | false =>
        obtain ⟨last, attached, soundLast, sameSize, perm⟩ :=
          Layout.allocate_attach sound.layout taken (.start policy)
        rw [Policy.Monitor.bind_ok found retired]
        simp only [attached]
        exact .granted found retired
          ⟨⟨rfl, sizeArena, Policy.Book.uncounted_retain _ _⟩, soundLast,
            sizeArena.trans (sound.size.trans sameSize.symm), bytes⟩
          rfl perm
  · exact .refused (.unknownPolicy _)

theorem alloc_cases (sound : v.Sound held) (active : v.Active) (size policy : Nat) :
    (∃ e, v.alloc size policy = (.error e, v) ∧ AllocRefusal size policy e) ∨
      ∃ offset w, v.alloc size policy = (.ok offset, w) ∧ w.Sound held ∧
        v.allocation? offset = none ∧ policy < v.policies.length ∧
        v.Updated offset (some ⟨size, .start policy, List.replicate size 0⟩) w := by
  have outcome := alloc_inversion sound size policy
  generalize v.alloc size policy = answer at outcome ⊢
  cases outcome with
  | refused reason => exact .inl ⟨_, rfl, reason⟩
  | undone found retired =>
    have usable := active _ (List.mem_of_getElem? found)
    rw [retired] at usable
    cases usable
  | @granted p offset w found _ zeroed policies perm =>
    have known := (List.getElem?_eq_some_iff.mp found).1
    have soundW := sound_of_perm_cons sound zeroed.layout zeroed.whole zeroed.continues known perm
      rfl policies
    obtain ⟨fresh, elsewhere⟩ := allocation?_of_perm_cons sound soundW perm fun i outside =>
      (zeroed.bytes i).trans (if_neg outside)
    refine .inr ⟨offset, w, rfl, soundW, fresh, known, zeroed.continues, ?_, elsewhere⟩
    rw [soundW.allocation?_of_mem (perm.mem_iff.mpr (List.mem_cons_self ..)) rfl,
      contents_zeroed fun i within => (zeroed.bytes i).trans (if_pos within)]

theorem dealloc_missing (sound : v.Sound held) (missing : v.allocation? address = none) :
    ∃ e, v.dealloc address = (.error e, v) ∧ Absent address e := by
  obtain ⟨e, failed, absent⟩ := used_absent sound missing
  exact ⟨e, by rw [dealloc, failed], absent⟩

theorem dealloc_inversion (sound : v.Sound held) {s : Segment Policy.Monitor}
    (member : s ∈ v.layout.allocations) :
    ∃ w monitor i, v.dealloc s.offset = (.ok (), w) ∧ v.Zeroed s.offset s.size w ∧
      s.payload = some monitor ∧ monitor.policy = some i ∧
      w.policies = v.policies.release i ∧
      v.layout.allocations.Perm (s :: w.layout.allocations) := by
  obtain ⟨monitor, i, payload, bound, -⟩ := sound.guarded s member
  obtain ⟨bare, last, detached, freed, soundLast, sameSize, perm⟩ :=
    Layout.detach_deallocate sound.layout member
  have inside : s.offset + s.size ≤ v.arena.size := by
    rw [sound.size]
    exact (sound.layout.within member).2
  obtain ⟨arena, zeroed, sizeArena, bytes⟩ := Memory.Arena.zeroRange_inside sound.small inside
  refine ⟨⟨v.pid, arena, last, v.policies.release i⟩, monitor, i, ?_,
    ⟨⟨rfl, sizeArena, Policy.Book.uncounted_release _ _⟩, soundLast,
      sizeArena.trans (sound.size.trans sameSize.symm), bytes⟩, payload, bound, rfl, perm⟩
  rw [payload] at detached
  simp only [dealloc, used_of_mem sound member, wipe, zeroed, unguard, detached,
    Policy.Monitor.unbind_ok bound, giveBack, freed, collect, List.append_nil]

theorem dealloc_found (sound : v.Sound held) (found : v.allocation? address = some a) :
    ∃ w, v.dealloc address = (.ok (), w) ∧ w.Sound held ∧ v.Updated address none w := by
  obtain ⟨s, member, rfl, -, -, -⟩ := sound.allocation?_eq_some.mp found
  obtain ⟨w, monitor, i, done, zeroed, payload, bound, policies, perm⟩ :=
    dealloc_inversion sound member
  have soundW := sound_of_cons_perm sound zeroed.layout zeroed.whole zeroed.continues perm payload
    bound policies
  -- The allocations before are one more than those after.
  obtain ⟨gone, elsewhere⟩ := allocation?_of_perm_cons soundW sound perm fun i outside =>
    ((zeroed.bytes i).trans (if_neg outside)).symm
  exact ⟨w, done, soundW, zeroed.continues, gone, fun x differ => (elsewhere x differ).symm⟩

/-! ## Accesses -/

/-- Whether an access of some length stays within an allocation. -/
def Allocation.Fits (a : Allocation) (length : Nat) : Prop := 0 < length ∧ length ≤ a.size

/-- The monitor of an allocation after an access. -/
def stepped (v : Vault) (a : Allocation) (access : Policy.Access) : Policy.Monitor :=
  a.monitor.stepAccess v.policies access

/-- The answer to an access that the monitor refuses. -/
def refusal (v : Vault) (address : Nat) (a : Allocation) (access : Policy.Access) : Error :=
  .policyViolation address access (((v.stepped a access).policyText? v.policies).getD "")

/-- The errors of an access, but for the violation of the policy. -/
inductive AccessRefusal (address length : Nat) : Error → Prop
  | empty : AccessRefusal address length (.emptyAccess address)
  | absent {e : Error} (reason : Absent address e) : AccessRefusal address length e
  | tooLong (size : Nat) : AccessRefusal address length (.lengthExceedsSegment address length size)

theorem authorize_outside (sound : v.Sound held) {length : Nat} (access : Policy.Access)
    (outside : ∀ a, v.allocation? address = some a → ¬ a.Fits length) :
    ∃ e, v.authorize address length access = (.error e, v) ∧ AccessRefusal address length e := by
  unfold authorize
  split
  · exact ⟨_, rfl, .empty⟩
  rename_i positive
  cases found : v.allocation? address with
  | none =>
    obtain ⟨e, failed, absent⟩ := used_absent sound found
    exact ⟨e, by rw [failed], .absent absent⟩
  | some a =>
    obtain ⟨s, member, rfl, payload, size, -⟩ := sound.allocation?_eq_some.mp found
    have long : s.size < length := by
      have := outside a found
      simp only [Allocation.Fits, size] at this
      omega
    refine ⟨.lengthExceedsSegment s.offset length s.size, ?_, .tooLong s.size⟩
    simp [used_of_mem sound member, long]

theorem authorize_inside (sound : v.Sound held) {length : Nat} (access : Policy.Access)
    (found : v.allocation? address = some a) (fits : a.Fits length) :
    v.authorize address length access =
      (match (v.stepped a access).verdict with
        | .allowed => .ok ()
        | .rejected => .error (v.refusal address a access),
        v.advance address (v.stepped a access)) := by
  obtain ⟨s, member, rfl, payload, size, -⟩ := sound.allocation?_eq_some.mp found
  obtain ⟨_, i, same, bound, -⟩ := sound.guarded s member
  obtain rfl := Option.some.inj (payload.symm.trans same)
  have some : length ≠ 0 := Nat.ne_of_gt fits.1
  have short : ¬ s.size < length := by
    have := fits.2
    omega
  have isBound : a.monitor.isBound = true := by simp [Policy.Monitor.isBound, bound]
  simp only [authorize, some, if_false, used_of_mem sound member, short, payload,
    Option.filter_some, isBound, if_true]
  unfold stepped advance refusal
  cases (a.monitor.stepAccess v.policies access).verdict <;> rfl

theorem stepped_spec (sound : v.Sound held) (found : v.allocation? address = some a)
    (access : Policy.Access) :
    (v.advance address (v.stepped a access)).Sound held ∧
      v.Updated address (some { a with monitor := v.stepped a access })
        (v.advance address (v.stepped a access)) :=
  advance_spec sound found rfl

theorem read_outside (sound : v.Sound held) {length : Nat}
    (outside : ∀ a, v.allocation? address = some a → ¬ a.Fits length) :
    ∃ e, v.read address length = (.error e, v) ∧ AccessRefusal address length e := by
  obtain ⟨e, refused, reason⟩ := authorize_outside sound .read outside
  exact ⟨e, by rw [read, refused], reason⟩

theorem read_rejected (sound : v.Sound held) {length : Nat}
    (found : v.allocation? address = some a) (fits : a.Fits length)
    (rejected : (v.stepped a .read).verdict = .rejected) :
    v.read address length =
      (.error (v.refusal address a .read), v.advance address (v.stepped a .read)) := by
  rw [read, authorize_inside sound .read found fits, rejected]

theorem read_allowed (sound : v.Sound held) {length : Nat}
    (found : v.allocation? address = some a) (fits : a.Fits length)
    (allowed : (v.stepped a .read).verdict = .allowed) :
    v.read address length =
      (.ok (a.bytes.take length), v.advance address (v.stepped a .read)) := by
  have inside := (sound.inside found).2.1
  obtain ⟨positive, short⟩ := fits
  rw [read, authorize_inside sound .read found ⟨positive, short⟩, allowed]
  obtain ⟨s, member, rfl, -, size, bytes⟩ := sound.allocation?_eq_some.mp found
  have reading : (v.advance s.offset (v.stepped a .read)).arena.read s.offset length =
      .ok (a.bytes.take length) := by
    have whole : (v.advance s.offset (v.stepped a .read)).arena = v.arena := rfl
    rw [whole, Memory.Arena.read_inside sound.small (by omega), bytes, contents,
      ← List.map_take, List.take_range, Nat.min_eq_left (by omega)]
  simp only [reading]

theorem write_outside (sound : v.Sound held) {data : List UInt8}
    (outside : ∀ a, v.allocation? address = some a → ¬ a.Fits data.length) :
    ∃ e, v.write address data = (.error e, v) ∧ AccessRefusal address data.length e := by
  obtain ⟨e, refused, reason⟩ := authorize_outside sound .write outside
  exact ⟨e, by rw [write, refused], reason⟩

theorem write_rejected (sound : v.Sound held) {data : List UInt8}
    (found : v.allocation? address = some a) (fits : a.Fits data.length)
    (rejected : (v.stepped a .write).verdict = .rejected) :
    v.write address data =
      (.error (v.refusal address a .write), v.advance address (v.stepped a .write)) := by
  rw [write, authorize_inside sound .write found fits, rejected]

/-- Bytes written into an allocation replace its first ones. -/
theorem patched_spec (sound : v.Sound held) (found : v.allocation? address = some a)
    {data : List UInt8} (short : data.length ≤ a.size) {arena : Memory.Arena}
    (size : arena.size = v.arena.size)
    (bytes : ∀ i, arena.byte i =
      if address ≤ i ∧ i < address + data.length then data.getD (i - address) 0
      else v.arena.byte i) :
    ({ v with arena := arena } : Vault).Sound held ∧
      v.Updated address (some { a with bytes := data ++ a.bytes.drop data.length })
        { v with arena := arena } := by
  have soundW : ({ v with arena := arena } : Vault).Sound held :=
    ⟨sound.layout, size.trans sound.size, by rw [size]; exact sound.small, sound.guarded,
      sound.compiled, sound.counted⟩
  refine ⟨soundW, ⟨rfl, size, rfl⟩, ?_, ?_⟩
  · obtain ⟨s, member, rfl, payload, sizeA, contentsA⟩ := sound.allocation?_eq_some.mp found
    refine soundW.allocation?_eq_some.mpr ⟨s, member, rfl, payload, sizeA, ?_⟩
    rw [contentsA, contents, contents]
    apply List.ext_getElem
    · simp only [List.length_append, List.length_drop, List.length_map, List.length_range]
      omega
    · intro i _ bound
      have bound : i < s.size := by simpa using bound
      rw [List.getElem_map, List.getElem_range, bytes]
      by_cases written : i < data.length
      · rw [if_pos (by omega), List.getElem_append_left written, Nat.add_sub_cancel_left]
        exact List.getElem_eq_getD 0
      · rw [if_neg (by omega), List.getElem_append_right (by omega), List.getElem_drop,
          List.getElem_map, List.getElem_range, Nat.add_sub_cancel' (by omega)]
  · intro x differ
    apply allocation?_congr sound soundW
    · intro t _
      rfl
    · rintro t inV rfl
      obtain ⟨s, member, rfl, -, sizeA, -⟩ := sound.allocation?_eq_some.mp found
      have apart := sound.layout.disjoint inV member differ
      have kept : ∀ i, ¬ (s.offset ≤ i ∧ i < s.offset + data.length) →
          arena.byte i = v.arena.byte i := by
        intro i outside
        exact (bytes i).trans (if_neg outside)
      apply contents_apart kept
      unfold Segment.stop at apart ⊢
      omega

theorem write_inversion (sound : v.Sound held) {data : List UInt8}
    (found : v.allocation? address = some a) (fits : a.Fits data.length)
    (allowed : (v.stepped a .write).verdict = .allowed) :
    ∃ arena, v.write address data =
        (.ok (), { v.advance address (v.stepped a .write) with arena := arena }) ∧
      arena.size = v.arena.size ∧ ∀ i, arena.byte i =
        if address ≤ i ∧ i < address + data.length then data.getD (i - address) 0
        else v.arena.byte i := by
  have inside := (sound.inside found).2.1
  have short := fits.2
  have within : address + data.length ≤ v.arena.size := by omega
  obtain ⟨arena, written, size, bytes⟩ := Memory.Arena.write_inside sound.small within
  refine ⟨arena, ?_, size, bytes⟩
  have whole : (v.advance address (v.stepped a .write)).arena = v.arena := rfl
  rw [write, authorize_inside sound .write found fits, allowed]
  simp only [whole, written]

theorem write_allowed (sound : v.Sound held) {data : List UInt8}
    (found : v.allocation? address = some a) (fits : a.Fits data.length)
    (allowed : (v.stepped a .write).verdict = .allowed) :
    ∃ w, v.write address data = (.ok (), w) ∧ w.Sound held ∧
      v.Updated address
        (some ⟨a.size, v.stepped a .write, data ++ a.bytes.drop data.length⟩) w := by
  obtain ⟨arena, written, size, bytes⟩ := write_inversion sound found fits allowed
  obtain ⟨soundU, advanced⟩ := stepped_spec sound found .write
  obtain ⟨soundW, patched⟩ := patched_spec soundU advanced.here fits.2 size bytes
  exact ⟨_, written, soundW, advanced.trans patched⟩

/-! ## The end and the beginning -/

theorem unbindAll_spec {segments : List (Segment Policy.Monitor)}
    (guarded : ∀ s ∈ segments, ∃ monitor i, s.payload = some monitor ∧ monitor.policy = some i)
    (book : Policy.Book) :
    ∃ rest : Policy.Book, unbindAll book (segments.map (·.payload)) = ([], rest) ∧
      ∀ (i : Nat) (p : Policy.Loaded), rest[i]? = some p → ∃ q, book[i]? = some q ∧
        p = { q with bindings := q.bindings - segments.countP (boundTo i) } := by
  induction segments generalizing book with
  | nil => exact ⟨book, rfl, fun i p found => ⟨p, found, rfl⟩⟩
  | cons s segments ih =>
    obtain ⟨monitor, i, payload, bound⟩ := guarded s (List.mem_cons_self ..)
    obtain ⟨rest, unbound, counts⟩ :=
      ih (fun t member => guarded t (List.mem_cons_of_mem s member)) (book.release i)
    refine ⟨rest, ?_, ?_⟩
    · simp only [List.map_cons, payload, unbindAll, Policy.Monitor.unbind_ok bound]
      exact unbound
    · intro j p found
      obtain ⟨q, located, rfl⟩ := counts j p found
      obtain ⟨origin, first, rfl⟩ := Policy.Book.bindings_modify located
      refine ⟨origin, first, ?_⟩
      rw [List.countP_cons]
      by_cases here : i = j
      · simp [here, Policy.Loaded.release, boundTo, payload, bound]
        omega
      · simp [here, boundTo, payload, bound]

/-- Unbinding its own monitors leaves a vault with those that others hold. -/
theorem unbindAll_own (sound : v.Sound held) :
    ∃ rest, unbindAll v.policies v.layout.usedPayloads = ([], rest) ∧
      ∀ (i : Nat) (p : Policy.Loaded), rest[i]? = some p → ∃ q, v.policies[i]? = some q ∧
        p = { q with bindings := held i } := by
  have guarded : ∀ s ∈ v.layout.allocations, ∃ monitor i, s.payload = some monitor ∧
      monitor.policy = some i := by
    intro s member
    obtain ⟨monitor, i, payload, bound, -⟩ := sound.guarded s member
    exact ⟨monitor, i, payload, bound⟩
  obtain ⟨rest, unbound, counts⟩ := unbindAll_spec guarded v.policies
  refine ⟨rest, unbound, ?_⟩
  intro i p found
  obtain ⟨q, located, rfl⟩ := counts i p found
  refine ⟨q, located, ?_⟩
  rw [sound.counted i q located, Nat.add_sub_cancel_left]

theorem retireAll_idle {book : Policy.Book} (idle : ∀ p ∈ book, p.bindings = 0) :
    book.retireAll.2 = [] := by
  induction book with
  | nil => rfl
  | cons p book ih =>
    have free : p.bindings = 0 := idle p (List.mem_cons_self ..)
    have rest := ih fun q member => idle q (List.mem_cons_of_mem p member)
    simp only [Policy.Book.retireAll, Policy.Loaded.retire, free, if_true]
    exact rest

theorem getElem?_retireAll (book : Policy.Book) (i : Nat) :
    book.retireAll.1[i]? =
      book[i]?.map fun p => { p with retired := p.retired || p.bindings == 0 } := by
  induction book generalizing i with
  | nil => rfl
  | cons p book ih =>
    simp only [Policy.Book.retireAll, Policy.Loaded.retire]
    by_cases idle : p.bindings = 0
    · cases i <;> simp [idle, ih]
    · have kept : (p.bindings == 0) = false := beq_false_of_ne idle
      cases i <;> simp [idle, ih, kept]

theorem teardown_inversion (sound : v.Sound held) :
    ∃ failures policies, v.teardown = (failures,
        { v with
          arena := v.arena.zeroize
          layout := .start v.layout.arenaSize
          policies := policies }) ∧
      ∀ (i : Nat) (p : Policy.Loaded), policies[i]? = some p → ∃ q, v.policies[i]? = some q ∧
        p = { q with bindings := held i, retired := q.retired || held i == 0 } := by
  obtain ⟨rest, unbound, counts⟩ := unbindAll_own sound
  refine ⟨rest.retireAll.2.map .policy, rest.retireAll.1, ?_, ?_⟩
  · simp only [teardown, unbound]
    rfl
  intro i p found
  rw [getElem?_retireAll] at found
  obtain ⟨q, located, rfl⟩ := Option.map_eq_some_iff.mp found
  obtain ⟨origin, first, rfl⟩ := counts i q located
  exact ⟨origin, first, rfl⟩

/-- A vault whose monitors are all its own can be torn down without failure. -/
theorem teardown_sound (sound : v.Sound fun _ => 0) : v.teardown.1 = [] := by
  obtain ⟨rest, unbound, counts⟩ := unbindAll_own sound
  have idle : ∀ p ∈ rest, p.bindings = 0 := by
    intro p member
    obtain ⟨i, found⟩ := List.getElem?_of_mem member
    obtain ⟨q, -, rfl⟩ := counts i p found
    rfl
  simp only [teardown, unbound, retireAll_idle idle]
  rfl
theorem load_spec {sources : List (List UInt8)} {book : Policy.Book} {index : Nat}
    (loaded : Policy.Book.load.go index sources = .ok book) :
    book.map (·.source) = sources ∧ ∀ p ∈ book,
      Policy.Automaton.compile p.source = .ok p.automaton ∧ p.bindings = 0 ∧
        p.retired = false := by
  induction sources generalizing index book with
  | nil =>
    obtain rfl : [] = book := by simpa [Policy.Book.load.go] using loaded
    simp
  | cons source sources ih =>
    rw [Policy.Book.load.go] at loaded
    cases head : Policy.Loaded.load source with
    | error e => simp [head] at loaded
    | ok p =>
      cases tail : Policy.Book.load.go (index + 1) sources with
      | error e => simp [head, tail] at loaded
      | ok rest =>
        obtain rfl : p :: rest = book := by simpa [head, tail] using loaded
        obtain ⟨same, all⟩ := ih tail
        unfold Policy.Loaded.load at head
        split at head
        · cases head
        · rename_i automaton compiled
          obtain rfl := Except.ok.inj head
          refine ⟨by simp [same], ?_⟩
          intro q member
          rcases List.mem_cons.mp member with rfl | member
          · exact ⟨compiled, rfl, rfl⟩
          · exact all q member

theorem create_inversion {pid : UInt32} {arenaSize : UInt64} {sources : List (List UInt8)}
    (created : create pid arenaSize sources = .ok v) :
    0 < arenaSize.toNat ∧ ∃ policies, Policy.Book.load sources = .ok policies ∧
      v = ⟨pid, .zeroed arenaSize, .start arenaSize.toNat, policies⟩ := by
  unfold create at created
  split at created
  · cases created
  rename_i some
  split at created
  · cases created
  split at created
  · cases created
  rename_i policies loaded
  refine ⟨?_, policies, loaded, (Except.ok.inj created).symm⟩
  rw [Nat.pos_iff_ne_zero]
  intro zero
  exact some (UInt64.toNat_inj.mp zero)

theorem create_spec {pid : UInt32} {arenaSize : UInt64} {sources : List (List UInt8)}
    (created : create pid arenaSize sources = .ok v) :
    v.Sound (fun _ => 0) ∧ v.Active ∧ v.pid = pid ∧ v.arena.size = arenaSize.toNat ∧
      v.policies.map (·.source) = sources ∧ ∀ address, v.allocation? address = none := by
  obtain ⟨positive, policies, loaded, rfl⟩ := create_inversion created
  obtain ⟨same, all⟩ := load_spec loaded
  have size := Memory.Arena.size_zeroed arenaSize
  refine ⟨⟨Layout.start_sound positive, size, ?_, ?_, fun p member => (all p member).1, ?_⟩,
    fun p member => (all p member).2.2, rfl, size, same, fun _ => rfl⟩
  · rw [size]
    exact arenaSize.toNat_lt
  · simp [Layout.start_allocations]
  · intro i p found
    simp [Layout.start_allocations, (all p (List.mem_of_getElem? found)).2.1]

end PolicyVault.Vault
