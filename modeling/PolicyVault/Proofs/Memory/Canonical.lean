import PolicyVault.Proofs.Memory.Locality

/-!
# Layouts by their used segments

In a coalesced layout whose free segments have no payload, the used segments say everything: what
lies between two of them is one free segment. So giving back what was just taken undoes it, and the
order in which segments are given back leaves no trace.

Main statement: `Layout.deallocate_exact`.
-/

namespace PolicyVault.Memory.Layout

variable {α : Type} {l m changed : Layout α} {start stop offset size : Nat} {s : Segment α}
  {segments : List (Segment α)} {offsets others : List Nat}

/-! ## Filling the gaps -/

/-- The given segments, with a free one wherever they leave room from `start` to `stop`. -/
def spread (start stop : Nat) : List (Segment α) → List (Segment α)
  | [] => remainder start stop
  | s :: rest => remainder start s.offset ++ s :: spread s.stop stop rest

theorem remainder_self (start : Nat) : (remainder start start : List (Segment α)) = [] := by
  simp [remainder]

theorem remainder_stop (positive : 0 < s.size) (free : s.used = false) (bare : s.payload = none) :
    remainder s.offset s.stop = [s] := by
  obtain ⟨first, length, used, payload⟩ := s
  have more : first < first + length := Nat.lt_add_of_pos_right positive
  simp only at free bare
  simp [remainder, Segment.stop, Segment.free, more, free, bare]

theorem eq_spread (tiles : Tiles start segments stop) (coalesced : Coalesced segments)
    (clean : Clean segments) : segments = spread start stop (segments.filter (·.used)) := by
  induction segments generalizing start with
  | nil =>
    obtain rfl : start = stop := tiles
    exact (remainder_self start).symm
  | cons s rest ih =>
    obtain ⟨rfl, positive, tiles⟩ := tiles
    obtain ⟨next, behind⟩ := List.isChain_cons.mp coalesced
    obtain ⟨bare, others⟩ := List.forall_mem_cons.mp clean
    have following := ih tiles behind others
    cases used : s.used with
    | true =>
      rw [List.filter_cons_of_pos used, spread, remainder_self, List.nil_append, ← following]
    | false =>
      -- Behind a free segment is a used one or nothing, so it fills its gap alone.
      have gap := remainder_stop positive used (bare used)
      rw [List.filter_cons_of_neg (by simp [used])]
      cases rest with
      | nil =>
        obtain rfl : s.stop = stop := tiles
        exact gap.symm
      | cons t rest =>
        have usedT : t.used = true := by simpa [used] using next t rfl
        have meets : t.offset = s.stop := tiles.1
        rw [List.filter_cons_of_pos usedT, spread, meets] at following ⊢
        rw [remainder_self, List.nil_append] at following
        rw [gap, ← following]
        rfl

/-! ## Neat layouts -/

structure Neat (l : Layout α) : Prop extends Sound l where
  coalesced : Coalesced l.segments

theorem start_neat (positive : 0 < size) : (Layout.start size : Layout α).Neat :=
  ⟨start_sound positive, .singleton _⟩

theorem Neat.divides (neat : l.Neat) : l.Divides l.arenaSize := ⟨neat.tiles, neat.coalesced⟩

theorem Neat.ascending (neat : l.Neat) : Ascending l.segments :=
  (Formed.divided neat.divides).ascending

theorem Neat.eq_of_allocations (first : l.Neat) (second : m.Neat)
    (size : m.arenaSize = l.arenaSize) (same : m.allocations = l.allocations) : m = l := by
  have one := eq_spread first.tiles first.coalesced first.clean
  have other := eq_spread second.tiles second.coalesced second.clean
  have segments : m.segments = l.segments := by
    rw [one, other, size]
    exact congrArg (spread 0 l.arenaSize) same
  obtain ⟨_, _⟩ := l
  obtain ⟨_, _⟩ := m
  exact (Layout.mk.injEq ..).mpr ⟨segments, size⟩

theorem Neat.allocate (neat : l.Neat) (taken : l.allocate size = .ok (offset, changed)) :
    changed.Neat :=
  ⟨(allocate_spec neat.toSound taken).1, (neat.divides.allocate taken).coalesced⟩

theorem Neat.deallocate (neat : l.Neat) (member : s ∈ l.allocations) :
    ∃ changed, l.deallocate s.offset = .ok (s.payload, changed) ∧ changed.Neat ∧
      changed.arenaSize = l.arenaSize ∧ changed.allocations = l.besides (some s.offset) := by
  obtain ⟨inside, used⟩ := mem_allocations.mp member
  obtain ⟨changed, answer, sound, -⟩ := deallocate_spec neat.toSound member
  obtain ⟨again, same, size, left⟩ := deallocate_used neat.ascending inside used
  obtain ⟨-, rfl⟩ := Prod.mk.inj (Except.ok.inj (same.symm.trans answer))
  exact ⟨again, answer, ⟨sound, (neat.divides.deallocate answer).coalesced⟩, size, left⟩

theorem Neat.setPayload (neat : l.Neat) (member : s ∈ l.allocations) (payload : Option α) :
    (l.setPayload s.offset payload).Neat :=
  ⟨(setPayload_spec neat.toSound member payload).1,
    (neat.divides.setPayload s.offset payload).coalesced⟩

theorem Neat.allocate_undone (neat : l.Neat) (taken : l.allocate size = .ok (offset, changed)) :
    changed.deallocate offset = .ok (none, l) := by
  obtain ⟨-, sameSize, perm⟩ := allocate_spec neat.toSound taken
  have fresh : ⟨offset, size, true, none⟩ ∈ changed.allocations :=
    perm.mem_iff.mpr (List.mem_cons_self ..)
  obtain ⟨last, answer, neatLast, lastSize, left⟩ := (neat.allocate taken).deallocate fresh
  obtain ⟨-, after⟩ := allocate_besides neat.ascending taken
  rw [neat.eq_of_allocations neatLast (lastSize.trans sameSize) (left.trans after)] at answer
  exact answer

/-! ## Giving back in some order -/

/-- Gives segments back one after the other, and hands out their payloads. -/
def deallocateAll (l : Layout α) : List Nat → Except Error (List (Option α) × Layout α)
  | [] => .ok ([], l)
  | offset :: rest =>
    match l.deallocate offset with
    | .error e => .error e
    | .ok (payload, l) =>
      match l.deallocateAll rest with
      | .error e => .error e
      | .ok (payloads, l) => .ok (payload :: payloads, l)

def payloadAt (l : Layout α) (offset : Nat) : Option α := (l.find? offset).bind (·.payload)

/-- A used segment starts at each of the offsets. -/
def Uses (l : Layout α) (offsets : List Nat) : Prop :=
  ∀ offset ∈ offsets, ∃ s ∈ l.allocations, s.offset = offset

theorem Neat.payloadAt_eq (neat : l.Neat) (member : s ∈ l.allocations) :
    l.payloadAt s.offset = s.payload := by
  rw [payloadAt, neat.find?_of_mem (mem_allocations.mp member).1]
  rfl

theorem Neat.deallocateAll (neat : l.Neat) (distinct : offsets.Nodup) (used : l.Uses offsets) :
    ∃ left, l.deallocateAll offsets = .ok (offsets.map l.payloadAt, left) ∧ left.Neat ∧
      left.arenaSize = l.arenaSize ∧
      left.allocations = l.allocations.filter fun s => s.offset ∉ offsets := by
  induction offsets generalizing l with
  | nil => exact ⟨l, rfl, neat, rfl, by simp⟩
  | cons offset rest ih =>
    obtain ⟨fresh, apart⟩ := List.nodup_cons.mp distinct
    obtain ⟨⟨s, member, rfl⟩, others⟩ := List.forall_mem_cons.mp used
    obtain ⟨changed, answer, neatC, sizeC, leftC⟩ := neat.deallocate member
    -- The other offsets are still in use once the first is given back, with the same payloads.
    have kept : ∀ other ∈ rest, ∃ t, t ∈ l.allocations ∧ t ∈ changed.allocations ∧
        t.offset = other := by
      intro other inside
      obtain ⟨t, inL, rfl⟩ := others other inside
      have differ : some t.offset ≠ some s.offset := fun same =>
        fresh (Option.some.inj same ▸ inside)
      exact ⟨t, inL, leftC ▸ mem_besides.mpr ⟨inL, differ⟩, rfl⟩
    have usedC : changed.Uses rest := by
      intro other inside
      obtain ⟨t, -, inC, starts⟩ := kept other inside
      exact ⟨t, inC, starts⟩
    have payloads : rest.map changed.payloadAt = rest.map l.payloadAt := by
      apply List.map_congr_left
      intro other inside
      obtain ⟨t, inL, inC, rfl⟩ := kept other inside
      rw [neat.payloadAt_eq inL, neatC.payloadAt_eq inC]
    obtain ⟨left, answers, neatLeft, size, remain⟩ := ih neatC apart usedC
    refine ⟨left, ?_, neatLeft, size.trans sizeC, ?_⟩
    · simp only [Layout.deallocateAll, answer, answers, List.map_cons, payloads,
        neat.payloadAt_eq member]
    · rw [remain, leftC, besides, List.filter_filter]
      apply List.filter_congr
      intro t _
      simp [Bool.and_comm]

theorem Neat.deallocateAll_perm (neat : l.Neat) (distinct : offsets.Nodup) (used : l.Uses offsets)
    (perm : offsets.Perm others) :
    ∃ left, l.deallocateAll offsets = .ok (offsets.map l.payloadAt, left) ∧
      l.deallocateAll others = .ok (others.map l.payloadAt, left) := by
  have usedOthers : l.Uses others := fun offset inside => used offset (perm.mem_iff.mpr inside)
  obtain ⟨left, answers, neatLeft, size, remain⟩ := neat.deallocateAll distinct used
  obtain ⟨again, answersAgain, neatAgain, sizeAgain, remainAgain⟩ :=
    neat.deallocateAll (perm.nodup_iff.mp distinct) usedOthers
  have same : again.allocations = left.allocations := by
    rw [remain, remainAgain]
    apply List.filter_congr
    intro s _
    simp [perm.mem_iff]
  obtain rfl := neatLeft.eq_of_allocations neatAgain (sizeAgain.trans size.symm) same
  exact ⟨again, answers, answersAgain⟩

theorem Neat.deallocateAll_used (neat : l.Neat) (positive : 0 < l.arenaSize)
    (perm : offsets.Perm (l.allocations.map (·.offset))) :
    l.deallocateAll offsets = .ok (offsets.map l.payloadAt, .start l.arenaSize) := by
  have mem : ∀ offset, offset ∈ offsets ↔ ∃ s ∈ l.allocations, s.offset = offset := by
    intro offset
    rw [perm.mem_iff, List.mem_map]
  obtain ⟨left, answers, neatLeft, size, remain⟩ :=
    neat.deallocateAll (perm.nodup_iff.mpr neat.nodup) fun offset => (mem offset).mp
  have none : left.allocations = [] := by
    rw [remain, List.filter_eq_nil_iff]
    intro s member
    simpa using (mem s.offset).mpr ⟨s, member, rfl⟩
  rw [(start_neat positive).eq_of_allocations neatLeft size none] at answers
  exact answers

/-! ## Layouts whose free segments stay bare -/

/-- The call attaches and detaches at used segments only. -/
def Call.Proper (l : Layout α) : Call α → Prop
  | .allocate _ => True
  | .deallocate _ => True
  | .attach offset _ => ∀ s ∈ l.segments, s.offset = offset.toNat → s.used = true
  | .detach offset => ∀ s ∈ l.segments, s.offset = offset.toNat → s.used = true

inductive Reached (arenaSize : Nat) : Layout α → Prop
  | start : Reached arenaSize (.start arenaSize)
  | performed {l : Layout α} {c : Call α} (reached : Reached arenaSize l) (proper : c.Proper l) :
      Reached arenaSize (l.perform c)

theorem Neat.perform (neat : l.Neat) {c : Call α} (proper : c.Proper l) : (l.perform c).Neat := by
  cases c with
  | allocate size =>
    rw [Layout.perform]
    cases taken : l.allocate size.toNat with
    | error => exact neat
    | ok result => exact neat.allocate taken
  | deallocate offset =>
    by_cases live : ∃ s ∈ l.allocations, s.offset = offset.toNat
    · obtain ⟨s, member, starts⟩ := live
      obtain ⟨changed, answer, neatC, -⟩ := neat.deallocate member
      rw [Layout.perform, ← starts, answer]
      exact neatC
    · have unused : ∀ s ∈ l.allocations, s.offset ≠ offset.toNat :=
        fun s member starts => live ⟨s, member, starts⟩
      rw [perform_deallocate_unused neat.ascending unused]
      exact neat
  | attach offset payload =>
    rw [Layout.perform, attach]
    cases found : l.find? offset.toNat with
    | none => exact neat
    | some s =>
      obtain ⟨member, starts⟩ := mem_of_find? found
      have used := mem_allocations.mpr ⟨member, proper s member starts⟩
      exact starts ▸ neat.setPayload used (some payload)
  | detach offset =>
    rw [Layout.perform, detach]
    cases found : l.find? offset.toNat with
    | none => exact neat
    | some s =>
      obtain ⟨member, starts⟩ := mem_of_find? found
      have used := mem_allocations.mpr ⟨member, proper s member starts⟩
      exact starts ▸ neat.setPayload used none

theorem Reached.neat {arenaSize : Nat} (positive : 0 < arenaSize) (reached : Reached arenaSize l) :
    l.Neat ∧ l.arenaSize = arenaSize := by
  induction reached with
  | start => exact ⟨start_neat positive, rfl⟩
  | performed _ proper ih =>
    obtain ⟨neat, size⟩ := ih
    exact ⟨neat.perform proper, (arenaSize_perform ..).trans size⟩

theorem start_zero_allocate (size : Nat) (result : Nat × Layout α) :
    (Layout.start 0 : Layout α).allocate size ≠ .ok result := by
  intro taken
  obtain ⟨positive, front, s, back, whole, -, fits, -⟩ := allocate_inversion taken
  have member : s ∈ (Layout.start 0 : Layout α).segments := by simp [whole]
  obtain rfl := List.mem_singleton.mp member
  exact absurd fits (Nat.not_le.mpr positive)

/-- In an arena without bytes nothing is ever taken. -/
theorem Reached.eq_start (reached : Reached 0 l) : l = .start 0 := by
  induction reached with
  | start => rfl
  | @performed l c _ proper ih =>
    subst ih
    have elsewhere : ∀ offset : UInt64,
        (∀ s ∈ (Layout.start 0 : Layout α).segments, s.offset = offset.toNat → s.used = true) →
          (Layout.start 0 : Layout α).find? offset.toNat = none := by
      intro offset used
      apply find?_eq_none.mpr
      intro s member starts
      have inUse := used s member starts
      obtain rfl := List.mem_singleton.mp member
      cases inUse
    cases c with
    | allocate size =>
      rw [Layout.perform]
      cases taken : (Layout.start 0 : Layout α).allocate size.toNat with
      | error => rfl
      | ok result => exact absurd taken (start_zero_allocate size.toNat result)
    | deallocate offset =>
      exact perform_deallocate_unused (start_formed 0).ascending (by simp [start_allocations])
    | attach offset payload => rw [Layout.perform, attach, elsewhere offset proper]; rfl
    | detach offset => rw [Layout.perform, detach, elsewhere offset proper]; rfl

theorem Reached.deallocateAll_perm {arenaSize : Nat} (reached : Reached arenaSize l)
    (distinct : offsets.Nodup) (used : l.Uses offsets) (perm : offsets.Perm others) :
    ∃ left, l.deallocateAll offsets = .ok (offsets.map l.payloadAt, left) ∧
      l.deallocateAll others = .ok (others.map l.payloadAt, left) := by
  rcases Nat.eq_zero_or_pos arenaSize with rfl | positive
  · obtain rfl := reached.eq_start
    have none : offsets = [] := by
      apply List.eq_nil_iff_forall_not_mem.mpr
      intro offset inside
      obtain ⟨s, member, -⟩ := used offset inside
      cases member
    subst none
    obtain rfl := List.nil_perm.mp perm
    exact ⟨_, rfl, rfl⟩
  · exact (reached.neat positive).1.deallocateAll_perm distinct used perm

/-- What was taken can be given back at once, without a payload, and then the layout is what it was
before. Used segments that are given back in two orders leave the same layout and hand out the same
payloads, each for its offset; if they are all of them, one free segment is left. -/
theorem deallocate_exact {arenaSize : UInt64} (reached : Reached arenaSize.toNat l) :
    (∀ size offset changed, l.allocate size = .ok (offset, changed) →
      changed.deallocate offset = .ok (none, l)) ∧
    (∀ offsets others : List Nat, offsets.Nodup → l.Uses offsets → offsets.Perm others →
      ∃ left, l.deallocateAll offsets = .ok (offsets.map l.payloadAt, left) ∧
        l.deallocateAll others = .ok (others.map l.payloadAt, left)) ∧
    ∀ offsets : List Nat, offsets.Perm (l.allocations.map (·.offset)) →
      l.deallocateAll offsets = .ok (offsets.map l.payloadAt, .start arenaSize.toNat) := by
  refine ⟨?_, fun offsets others => reached.deallocateAll_perm, ?_⟩
  · intro size offset changed taken
    rcases Nat.eq_zero_or_pos arenaSize.toNat with none | positive
    · rw [none] at reached
      obtain rfl := reached.eq_start
      exact absurd taken (start_zero_allocate size _)
    · exact (reached.neat positive).1.allocate_undone taken
  · intro offsets perm
    rcases Nat.eq_zero_or_pos arenaSize.toNat with none | positive
    · rw [none] at reached
      obtain rfl := reached.eq_start
      rw [start_allocations] at perm
      obtain rfl := List.perm_nil.mp perm
      rw [none]
      rfl
    · obtain ⟨neat, size⟩ := reached.neat positive
      rw [← size] at positive ⊢
      exact neat.deallocateAll_used positive perm

theorem deallocate_exact_twenty :
    ∃ l : Layout Nat, Reached (20 : UInt64).toNat l ∧
      l.segments = [⟨0, 4, true, some 7⟩, ⟨4, 4, true, none⟩, ⟨8, 4, true, some 9⟩,
        ⟨12, 8, false, none⟩] ∧
      (∃ changed, l.allocate 5 = .ok (12, changed) ∧ changed.deallocate 12 = .ok (none, l)) ∧
      (∃ left, l.deallocateAll [0, 4] = .ok ([some 7, none], left) ∧
        l.deallocateAll [4, 0] = .ok ([none, some 7], left)) ∧
      l.deallocateAll [4, 8, 0] = .ok ([none, some 9, some 7], .start 20) := by
  have taken : Reached 20 (((Layout.start 20 : Layout Nat).perform (.allocate 4)).perform
      (.allocate 4) |>.perform (.allocate 4)) :=
    .performed (.performed (.performed .start trivial) trivial) trivial
  have one := taken.performed (c := .attach 0 7) (by simp only [Call.Proper]; decide)
  have two : Reached (20 : UInt64).toNat _ :=
    one.performed (c := .attach 8 9) (by simp only [Call.Proper]; decide)
  obtain ⟨undoes, anyOrder, all⟩ := deallocate_exact two
  refine ⟨_, two, rfl, ⟨_, rfl, undoes 5 12 _ rfl⟩, anyOrder [0, 4] [4, 0] ?_ ?_ ?_,
    all [4, 8, 0] ?_⟩
  · decide
  · simp only [Uses]
    decide
  · decide
  · decide

end PolicyVault.Memory.Layout
