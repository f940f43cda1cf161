import PolicyVault.Proofs.Memory.Coalescing

/-!
# First fit

An address is free if it lies in no used segment. In a coalesced layout the free segments are the
longest runs of free addresses: beside each of them, the arena ends or a used segment begins. So
the first free segment that is large enough begins the lowest run that is, and the largest one is
as long as the longest run.

Main statement: `Layout.allocate_exact`.
-/

namespace PolicyVault.Memory

variable {α : Type}

/-! ## Addresses -/

def Segment.Covers (s : Segment α) (address : Nat) : Prop :=
  s.offset ≤ address ∧ address < s.stop

section Tilings

variable {start stop address : Nat} {segments : List (Segment α)} {s t : Segment α}

theorem Tiles.exists_covers (tiles : Tiles start segments stop) (low : start ≤ address)
    (high : address < stop) : ∃ s ∈ segments, s.Covers address := by
  induction segments generalizing start with
  | nil =>
    have := tiles.le
    simp only [Tiles] at tiles
    omega
  | cons t rest ih =>
    obtain ⟨first, -, tiles⟩ := tiles
    rcases Nat.lt_or_ge address t.stop with inside | behind
    · exact ⟨t, List.mem_cons_self .., by omega, inside⟩
    · obtain ⟨s, member, covers⟩ := ih tiles behind
      exact ⟨s, List.mem_cons_of_mem _ member, covers⟩

theorem eq_of_covers (ordered : segments.Pairwise fun s t => s.stop ≤ t.offset)
    (inS : s ∈ segments) (inT : t ∈ segments) (first : s.Covers address)
    (second : t.Covers address) : s = t := by
  obtain ⟨front, back, rfl⟩ := List.append_of_mem inS
  obtain ⟨-, behind, before⟩ := List.pairwise_append.mp ordered
  obtain ⟨low, high⟩ := first
  obtain ⟨floor, ceiling⟩ := second
  rcases List.mem_append.mp inT with inFront | inBack
  · have := before t inFront s (List.mem_cons_self ..)
    omega
  · rcases List.mem_cons.mp inBack with rfl | inBack
    · rfl
    · have := (List.pairwise_cons.mp behind).1 t inBack
      omega

/-- The segment that begins where a free one ends is used. -/
theorem Coalesced.used_behind (coalesced : Coalesced segments) (tiles : Tiles start segments stop)
    (inS : s ∈ segments) (free : s.used = false) (inT : t ∈ segments)
    (covers : t.Covers s.stop) : t.used = true := by
  obtain ⟨front, back, rfl⟩ := List.append_of_mem inS
  obtain ⟨middle, -, -, -, behind⟩ := Tiles.append.mp tiles
  cases back with
  | nil =>
    obtain rfl : s.stop = stop := behind
    exact absurd covers.2 (Nat.not_lt.mpr (tiles.within inT).2.2)
  | cons u rest =>
    obtain ⟨starts, positive, -⟩ := behind
    have inU : u ∈ front ++ s :: u :: rest := by simp
    have here : u.Covers s.stop := by
      unfold Segment.Covers Segment.stop at *
      omega
    obtain rfl := eq_of_covers tiles.ordered inU inT here covers
    have next := (List.isChain_cons_cons.mp (List.isChain_append.mp coalesced).2.1).1
    simpa [free] using next

end Tilings

namespace Layout

variable {l changed : Layout α} {offset size address : Nat}

/-- The addresses from an offset on, `size` of them, are free and in the arena. -/
structure FreeRun (l : Layout α) (offset size : Nat) : Prop where
  inside : offset + size ≤ l.arenaSize
  free : ∀ address, offset ≤ address → address < offset + size → l.FreeAt address

def LongestRun (l : Layout α) (size : Nat) : Prop :=
  (∃ offset, l.FreeRun offset size) ∧ ∀ offset other, l.FreeRun offset other → other ≤ size

theorem Divides.freeAt_iff (divides : l.Divides l.arenaSize) (inside : address < l.arenaSize) :
    l.FreeAt address ↔ ∃ s ∈ l.segments, s.used = false ∧ s.Covers address := by
  constructor
  · intro untaken
    obtain ⟨s, member, covers⟩ := divides.tiles.exists_covers (Nat.zero_le _) inside
    refine ⟨s, member, ?_, covers⟩
    by_contra used
    exact untaken s (mem_allocations.mpr ⟨member, by simpa using used⟩) covers
  · rintro ⟨s, member, free, covers⟩ t inT other
    obtain ⟨alsoMember, used⟩ := mem_allocations.mp inT
    obtain rfl := eq_of_covers divides.tiles.ordered member alsoMember covers other
    exact Bool.false_ne_true (free.symm.trans used)

/-- The free segments are the longest runs of free addresses. -/
structure Runs (l : Layout α) : Prop where
  ordered : l.segments.Pairwise fun s t => s.stop ≤ t.offset
  freeRun_iff : ∀ {offset size}, 0 < size → (l.FreeRun offset size ↔
    ∃ s ∈ l.segments, s.used = false ∧ s.offset ≤ offset ∧ offset + size ≤ s.stop)

theorem Divides.runs (divides : l.Divides l.arenaSize) : l.Runs where
  ordered := divides.tiles.ordered
  freeRun_iff {offset size} positive := by
    constructor
    · intro run
      have inside := run.inside
      have first := run.free offset (Nat.le_refl _) (Nat.lt_add_of_pos_right positive)
      obtain ⟨s, member, free, low, high⟩ := (divides.freeAt_iff (by omega)).mp first
      refine ⟨s, member, free, low, Nat.not_lt.mp fun more => ?_⟩
      have next := run.free s.stop (Nat.le_of_lt high) more
      obtain ⟨t, inT, alsoFree, covers⟩ := (divides.freeAt_iff (by omega)).mp next
      have used := divides.coalesced.used_behind divides.tiles member free inT covers
      exact Bool.false_ne_true (alsoFree.symm.trans used)
    · rintro ⟨s, member, free, low, high⟩
      have inside := (divides.tiles.within member).2.2
      refine ⟨Nat.le_trans high inside, fun address above below => ?_⟩
      exact (divides.freeAt_iff (by omega)).mpr ⟨s, member, free, by omega, by omega⟩

/-! ## Layouts that calls lead to -/

theorem arenaSize_perform (l : Layout α) (c : Call α) : (l.perform c).arenaSize = l.arenaSize := by
  cases c with
  | allocate request =>
    simp only [perform]
    split
    · rfl
    · rename_i taken
      obtain ⟨-, front, s, back, -, -, -, -, -, rfl⟩ := allocate_inversion taken
      rfl
  | deallocate offset =>
    simp only [perform]
    split
    · rfl
    · rename_i given
      obtain ⟨front, s, back, -, rfl⟩ := deallocate_inversion given
      rfl
  | attach offset payload =>
    simp only [perform, attach]
    cases l.find? offset.toNat <;> rfl
  | detach offset =>
    simp only [perform, detach]
    cases l.find? offset.toNat <;> rfl

theorem arenaSize_after (l : Layout α) (calls : List (Call α)) :
    (l.after calls).arenaSize = l.arenaSize := by
  induction calls generalizing l with
  | nil => rfl
  | cons c calls ih => rw [after_cons, ih, arenaSize_perform]

/-- An arena without bytes has one segment, which is empty and stays free. -/
theorem perform_empty {payload : Option α} (empty : l.segments = [⟨0, 0, false, payload⟩])
    (c : Call α) : ∃ payload, (l.perform c).segments = [⟨0, 0, false, payload⟩] := by
  have patched (offset : Nat) (other : Option α) :
      ∃ payload, (l.setPayload offset other).segments = [⟨0, 0, false, payload⟩] := by
    rw [setPayload, empty, List.map_singleton]
    split
    · exact ⟨other, rfl⟩
    · exact ⟨payload, rfl⟩
  cases c with
  | allocate request =>
    simp only [perform]
    split
    · exact ⟨payload, empty⟩
    · rename_i taken
      obtain ⟨positive, front, s, back, whole, -, fits, -⟩ := allocate_inversion taken
      have member : s ∈ [(⟨0, 0, false, payload⟩ : Segment α)] := by
        rw [← empty, whole]
        simp
      obtain rfl := List.mem_singleton.mp member
      exact absurd fits (Nat.not_le.mpr positive)
  | deallocate offset =>
    have kept : l.perform (.deallocate offset) = l := by
      simp only [perform, deallocate, empty, giveBack]
      by_cases here : 0 = offset.toNat <;> simp [here]
    exact ⟨payload, kept.symm ▸ empty⟩
  | attach offset other =>
    simp only [perform, attach]
    cases l.find? offset.toNat with
    | none => exact ⟨payload, empty⟩
    | some s => exact patched _ _
  | detach offset =>
    simp only [perform, detach]
    cases l.find? offset.toNat with
    | none => exact ⟨payload, empty⟩
    | some s => exact patched _ _

theorem after_empty {payload : Option α} (empty : l.segments = [⟨0, 0, false, payload⟩])
    (calls : List (Call α)) : ∃ payload, (l.after calls).segments = [⟨0, 0, false, payload⟩] := by
  induction calls generalizing l payload with
  | nil => exact ⟨payload, empty⟩
  | cons c calls ih =>
    obtain ⟨payload, empty⟩ := perform_empty empty c
    exact ih empty

theorem reached_runs (arenaSize : Nat) (calls : List (Call α)) :
    ((start arenaSize : Layout α).after calls).Runs := by
  have size : ((start arenaSize : Layout α).after calls).arenaSize = arenaSize :=
    arenaSize_after ..
  rcases Nat.eq_zero_or_pos arenaSize with rfl | positive
  · have begins : (start 0 : Layout α).segments = [⟨0, 0, false, none⟩] := rfl
    obtain ⟨payload, empty⟩ := after_empty begins calls
    refine ⟨by rw [empty]; exact List.pairwise_singleton .., fun some => iff_of_false ?_ ?_⟩
    · intro run
      have inside := run.inside
      omega
    · rintro ⟨s, member, -, low, high⟩
      rw [empty] at member
      obtain rfl := List.mem_singleton.mp member
      simp only [Segment.stop] at high
      omega
  · apply Divides.runs
    rw [size]
    exact (start_divides positive).after calls

/-! ## Allocating -/

/-- Taking `size` bytes at an offset, said of addresses. -/
structure Takes (l changed : Layout α) (offset size : Nat) : Prop where
  run : l.FreeRun offset size
  least : ∀ other, l.FreeRun other size → offset ≤ other
  arenaSize : changed.arenaSize = l.arenaSize
  allocated : ∃ payload, changed.allocations.Perm (⟨offset, size, true, payload⟩ :: l.allocations)
  freeAt_iff : ∀ address, changed.FreeAt address ↔
    l.FreeAt address ∧ ¬ (offset ≤ address ∧ address < offset + size)
  split : l.FreeRun offset (size + 1) → changed.segments.length = l.segments.length + 1
  whole : ¬ l.FreeRun offset (size + 1) → changed.segments.length = l.segments.length

theorem largestFree_eq (l : Layout α) :
    (l.largestFree = 0 ∧ ∀ s ∈ l.segments, s.used = true) ∨
      (∃ s ∈ l.segments, s.used = false ∧ s.size = l.largestFree) ∧
        ∀ s ∈ l.segments, s.used = false → s.size ≤ l.largestFree := by
  unfold largestFree
  rw [List.foldl_max]
  cases largest : ((l.segments.filter (!·.used)).map (·.size)).max? with
  | none =>
    rw [List.max?_eq_none_iff, List.map_eq_nil_iff, List.filter_eq_nil_iff] at largest
    exact .inl ⟨rfl, by simpa using largest⟩
  | some size =>
    obtain ⟨member, bound⟩ := List.max?_eq_some_iff.mp largest
    simp only [Option.getD_some, Nat.zero_max]
    refine .inr ⟨by simpa [and_assoc] using member, fun s inside free => ?_⟩
    exact bound s.size (List.mem_map_of_mem (List.mem_filter.mpr ⟨inside, by simp [free]⟩))

theorem Runs.longest (runs : l.Runs) : l.LongestRun l.largestFree := by
  have empty : l.FreeRun 0 0 :=
    ⟨Nat.zero_le _, fun address _ below => absurd below (Nat.not_lt_zero _)⟩
  rcases l.largestFree_eq with ⟨none, used⟩ | ⟨⟨s, member, free, size⟩, bound⟩
  · rw [none]
    refine ⟨⟨0, empty⟩, fun offset other run => Nat.not_lt.mp fun positive => ?_⟩
    obtain ⟨s, member, free, -⟩ := (runs.freeRun_iff positive).mp run
    exact Bool.false_ne_true (free.symm.trans (used s member))
  · constructor
    · rcases Nat.eq_zero_or_pos l.largestFree with none | positive
      · exact ⟨0, none ▸ empty⟩
      · refine ⟨s.offset, (runs.freeRun_iff positive).mpr ⟨s, member, free, Nat.le_refl _, ?_⟩⟩
        rw [← size]
        exact Nat.le_refl _
    · intro offset other run
      rcases Nat.eq_zero_or_pos other with rfl | positive
      · exact Nat.zero_le _
      · obtain ⟨t, inside, alsoFree, low, high⟩ := (runs.freeRun_iff positive).mp run
        have := bound t inside alsoFree
        unfold Segment.stop at high
        omega

/-- If a segment is large enough and all free ones in front of it are too small, a run that is large
enough lies in it or behind it. -/
theorem Runs.not_in_front {front back : List (Segment α)} {s : Segment α} {n : Nat} (runs : l.Runs)
    (whole : l.segments = front ++ s :: back) (small : ∀ t ∈ front, t.used = false → t.size < size)
    (fits : size ≤ s.size) (positive : 0 < size) (enough : size ≤ n) (run : l.FreeRun offset n) :
    s.offset ≤ offset ∧ (offset = s.offset → offset + n ≤ s.stop) := by
  have ordered := runs.ordered
  rw [whole] at ordered
  have behind := (List.pairwise_cons.mp (List.pairwise_append.mp ordered).2.1).1
  obtain ⟨t, inT, free, low, high⟩ :=
    (runs.freeRun_iff (Nat.lt_of_lt_of_le positive enough)).mp run
  rw [whole] at inT
  unfold Segment.stop at *
  rcases List.mem_append.mp inT with inFront | inBack
  · have := small t inFront free
    omega
  · rcases List.mem_cons.mp inBack with rfl | inBack
    · omega
    · have := behind t inBack
      omega

theorem Runs.allocate_ok (runs : l.Runs) (taken : l.allocate size = .ok (offset, changed)) :
    l.Takes changed offset size := by
  obtain ⟨positive, front, s, back, whole, free, fits, small, rfl, rfl⟩ := allocate_inversion taken
  have member : s ∈ l.segments := by simp [whole]
  have perm : Layout.allocations ⟨front ++ s.take size ++ back, l.arenaSize⟩ |>.Perm
      (⟨s.offset, size, true, s.payload⟩ :: l.allocations) := by
    rw [allocations, allocations, whole]
    exact Segment.filter_used_split free fits
  have wider : l.FreeRun s.offset (size + 1) ↔ size < s.size := by
    constructor
    · intro run
      have := (runs.not_in_front whole small fits positive (Nat.le_succ size) run).2 rfl
      unfold Segment.stop at this
      omega
    · exact fun more => (runs.freeRun_iff (Nat.succ_pos size)).mpr
        ⟨s, member, free, Nat.le_refl _, Nat.add_le_add_left more s.offset⟩
  refine ⟨?_, ?_, rfl, ⟨s.payload, perm⟩, ?_, ?_, ?_⟩
  · exact (runs.freeRun_iff positive).mpr
      ⟨s, member, free, Nat.le_refl _, Nat.add_le_add_left fits s.offset⟩
  · exact fun other run => (runs.not_in_front whole small fits positive (Nat.le_refl size) run).1
  · intro address
    simp only [FreeAt, perm.mem_iff, List.forall_mem_cons, Segment.stop]
    tauto
  · intro run
    simp [whole, Segment.take, wider.mp run]
    omega
  · intro ends
    simp [whole, Segment.take, mt wider.mpr ends]

theorem Runs.allocate_error {e : Error} (runs : l.Runs) (positive : 0 < size)
    (refused : l.allocate size = .error e) : (∀ offset, ¬ l.FreeRun offset size) ∧
      ∃ longest, e = .outOfMemory size longest ∧ l.LongestRun longest := by
  unfold allocate at refused
  rw [if_neg (Nat.ne_of_gt positive)] at refused
  split at refused
  · rename_i none
    refine ⟨fun offset run => ?_, l.largestFree, (Except.error.inj refused).symm, runs.longest⟩
    obtain ⟨s, member, free, low, high⟩ := (runs.freeRun_iff positive).mp run
    have small := takeFirst_eq_none.mp none s member free
    unfold Segment.stop at high
    omega
  · cases refused

/-- In every layout that calls lead to, an allocation of at least one byte succeeds just if so many
addresses in a row are free. It takes the lowest of them as one segment and leaves all other
addresses and used segments as they are; the list grows by one if the run goes on behind. Else it
tells the length of the longest run and changes nothing. -/
theorem allocate_exact (α : Type) (arenaSize : UInt64) (calls : List (Call α)) (size : UInt64)
    (positive : 0 < size) :
    let l := (start arenaSize.toNat : Layout α).after calls
    ((∃ offset changed, l.allocate size.toNat = .ok (offset, changed)) ↔
      ∃ offset, l.FreeRun offset size.toNat) ∧
    (∀ offset changed, l.allocate size.toNat = .ok (offset, changed) →
      l.Takes changed offset size.toNat) ∧
    ∀ e, l.allocate size.toNat = .error e →
      (∃ longest, e = .outOfMemory size.toNat longest ∧ l.LongestRun longest) ∧
      l.perform (.allocate size) = l := by
  intro l
  have runs : l.Runs := reached_runs ..
  have bytes : 0 < size.toNat := positive
  refine ⟨⟨?_, ?_⟩, fun offset changed => runs.allocate_ok, fun e refused => ⟨?_, ?_⟩⟩
  · rintro ⟨offset, changed, taken⟩
    exact ⟨offset, (runs.allocate_ok taken).run⟩
  · rintro ⟨offset, run⟩
    cases taken : l.allocate size.toNat with
    | ok result => exact ⟨result.1, result.2, rfl⟩
    | error e => exact absurd run ((runs.allocate_error bytes taken).1 offset)
  · exact (runs.allocate_error bytes refused).2
  · simp only [perform, refused]

/-- Between a used segment and both ends of the arena, four bytes are free at 0 and at 12. -/
theorem allocate_exact_sixteen :
    let l := (start 16 : Layout Nat).after [.allocate 4, .allocate 8, .deallocate 0]
    (0 : UInt64) < 4 ∧ (0 : UInt64) < 5 ∧
      (∃ changed, l.allocate 4 = .ok (0, changed) ∧ l.Takes changed 0 4) ∧
      l.allocate 5 = .error (.outOfMemory 5 4) ∧ l.LongestRun 4 ∧ ¬ ∃ offset, l.FreeRun offset 5 := by
  intro l
  have four : (0 : UInt64) < 4 := by decide
  have five : (0 : UInt64) < 5 := by decide
  obtain ⟨-, takes, -⟩ :=
    allocate_exact Nat 16 [.allocate 4, .allocate 8, .deallocate 0] 4 four
  obtain ⟨fits, -, refuses⟩ :=
    allocate_exact Nat 16 [.allocate 4, .allocate 8, .deallocate 0] 5 five
  have refused : l.allocate 5 = .error (.outOfMemory 5 4) := rfl
  obtain ⟨⟨longest, same, longestRun⟩, -⟩ := refuses _ refused
  obtain ⟨-, rfl⟩ := Error.outOfMemory.inj same
  refine ⟨four, five, ⟨_, rfl, takes 0 _ rfl⟩, refused, longestRun, fun run => ?_⟩
  obtain ⟨offset, changed, taken⟩ := fits.mpr run
  cases refused.symm.trans taken

end Layout

end PolicyVault.Memory
