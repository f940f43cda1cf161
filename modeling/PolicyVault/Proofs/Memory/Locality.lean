import PolicyVault.Proofs.Memory.FirstFit

/-!
# Operations on one segment

Whatever was done to a layout, its segments start at ascending offsets. So an offset names one
segment at most, which halving finds, and an operation is about the segment that its offset names:
the other used segments keep their places, their sizes and their payloads, however the segments
around them are split and joined.

Main statement: `Layout.edit_exact`.
-/

namespace PolicyVault.Memory

variable {α : Type}

def Ascending (segments : List (Segment α)) : Prop :=
  segments.Pairwise fun s t => s.offset < t.offset

namespace Ascending

variable {segments : List (Segment α)} {s t : Segment α} {i j : Nat}

theorem nodup (ascending : Ascending segments) : (segments.map (·.offset)).Nodup :=
  List.pairwise_map.mpr (ascending.imp fun before => Nat.ne_of_lt before)

theorem unique (ascending : Ascending segments) (inS : s ∈ segments) (inT : t ∈ segments)
    (same : s.offset = t.offset) : s = t :=
  List.inj_on_of_nodup_map ascending.nodup inS inT same

theorem split (ascending : Ascending segments) (member : s ∈ segments) :
    ∃ front back, segments = front ++ s :: back ∧ (∀ t ∈ front, t.offset ≠ s.offset) ∧
      ∀ t ∈ back, t.offset ≠ s.offset := by
  obtain ⟨front, back, rfl⟩ := List.append_of_mem member
  obtain ⟨-, behind, before⟩ := List.pairwise_append.mp ascending
  refine ⟨front, back, rfl, ?_, ?_⟩
  · intro t inside
    exact Nat.ne_of_lt (before t inside s (List.mem_cons_self ..))
  · intro t inside
    exact Nat.ne_of_gt ((List.pairwise_cons.mp behind).1 t inside)

theorem le_of_getElem? (ascending : Ascending segments) (first : segments[i]? = some s)
    (second : segments[j]? = some t) (offsets : s.offset ≤ t.offset) : i ≤ j := by
  obtain ⟨inside, rfl⟩ := List.getElem?_eq_some_iff.mp first
  obtain ⟨bound, rfl⟩ := List.getElem?_eq_some_iff.mp second
  by_contra behind
  have before := List.pairwise_iff_getElem.mp ascending j i bound inside (Nat.lt_of_not_le behind)
  exact absurd offsets (Nat.not_le.mpr before)

end Ascending

namespace Layout

variable {l changed : Layout α} {offset size low high i : Nat} {s t : Segment α}
  {segments front back : List (Segment α)}

/-! ## Finding by halving -/

/-- Looks among the segments from number `low` up to number `high` for the one that starts at
`offset`, and tells its number. -/
def bisect (segments : List (Segment α)) (offset low high : Nat) : Option Nat :=
  if low < high then
    let middle := low + (high - low) / 2
    match segments[middle]? with
    | none => none
    | some s =>
      if s.offset = offset then some middle
      else if s.offset < offset then bisect segments offset (middle + 1) high
      else bisect segments offset low middle
  else none
termination_by high - low

def search? (l : Layout α) (offset : Nat) : Option (Segment α) :=
  (bisect l.segments offset 0 l.segments.length).bind (l.segments[·]?)

theorem bisect_sound (found : bisect segments offset low high = some i) :
    ∃ s, segments[i]? = some s ∧ s.offset = offset := by
  fun_induction bisect segments offset low high with
  | case1 => cases found
  | case2 low high proper middle s here starts =>
    obtain rfl := Option.some.inj found
    exact ⟨s, here, starts⟩
  | case3 low high proper middle s here differ before ih => exact ih found
  | case4 low high proper middle s here differ behind ih => exact ih found
  | case5 => cases found

theorem bisect_complete (ascending : Ascending segments) (inside : high ≤ segments.length)
    (above : low ≤ i) (below : i < high) (found : segments[i]? = some s) :
    (bisect segments s.offset low high).isSome = true := by
  fun_induction bisect segments s.offset low high with
  | case1 low high proper middle outside =>
    have behind : segments.length ≤ middle := List.getElem?_eq_none_iff.mp outside
    omega
  | case2 => rfl
  | case3 low high proper middle t here differ before ih =>
    -- The middle starts too early, so the segment is behind it.
    have order := ascending.le_of_getElem? here found (Nat.le_of_lt before)
    have apart : middle ≠ i := by
      rintro rfl
      exact differ (congrArg Segment.offset (Option.some.inj (here.symm.trans found)))
    exact ih inside (by omega) below
  | case4 low high proper middle t here differ behind ih =>
    -- The middle starts too late, so the segment is in front of it.
    have order := ascending.le_of_getElem? found here (Nat.le_of_not_lt behind)
    have apart : middle ≠ i := by
      rintro rfl
      exact differ (congrArg Segment.offset (Option.some.inj (here.symm.trans found)))
    exact ih (by omega) above (by omega)
  | case5 low high proper => omega

theorem search?_eq_some (ascending : Ascending l.segments) :
    l.search? offset = some s ↔ s ∈ l.segments ∧ s.offset = offset := by
  constructor
  · intro found
    obtain ⟨i, number, here⟩ := Option.bind_eq_some_iff.mp found
    obtain ⟨t, located, starts⟩ := bisect_sound number
    obtain rfl := Option.some.inj (located.symm.trans here)
    exact ⟨List.mem_of_getElem? here, starts⟩
  · rintro ⟨member, rfl⟩
    obtain ⟨i, here⟩ := List.getElem?_of_mem member
    have below := (List.getElem?_eq_some_iff.mp here).1
    obtain ⟨j, number⟩ := Option.isSome_iff_exists.mp
      (bisect_complete ascending (Nat.le_refl _) (Nat.zero_le i) below here)
    obtain ⟨t, located, starts⟩ := bisect_sound number
    obtain rfl := ascending.unique (List.mem_of_getElem? located) member starts
    rw [search?, number]
    exact located

theorem find?_eq_none : l.find? offset = none ↔ ∀ s ∈ l.segments, s.offset ≠ offset := by
  simp [find?]

theorem find?_eq_some (ascending : Ascending l.segments) :
    l.find? offset = some s ↔ s ∈ l.segments ∧ s.offset = offset := by
  constructor
  · exact mem_of_find?
  · rintro ⟨member, rfl⟩
    cases found : l.find? s.offset with
    | none => exact absurd rfl (find?_eq_none.mp found s member)
    | some t =>
      obtain ⟨inside, starts⟩ := mem_of_find? found
      rw [ascending.unique inside member starts]

/-! ## Used segments but one -/

/-- The used segments that do not start at the given offset, if one is given. -/
def besides (l : Layout α) (target : Option Nat) : List (Segment α) :=
  l.allocations.filter fun s => some s.offset ≠ target

theorem mem_besides {target : Option Nat} :
    s ∈ l.besides target ↔ s ∈ l.allocations ∧ some s.offset ≠ target := by
  simp [besides]

theorem filter_elsewhere (elsewhere : ∀ t ∈ segments, t.offset ≠ offset) :
    segments.filter (fun s => some s.offset ≠ some offset) = segments :=
  List.filter_eq_self.mpr fun t member => by simpa using elsewhere t member

theorem besides_setPayload (l : Layout α) (offset : Nat) (payload : Option α) :
    (l.setPayload offset payload).besides (some offset) = l.besides (some offset) := by
  have kept : ∀ t ∈ l.besides (some offset),
      (if t.offset = offset then { t with payload := payload } else t) = t := by
    intro t member
    exact if_neg fun here => (mem_besides.mp member).2 (congrArg some here)
  have used : ((·.used) ∘ fun t : Segment α =>
      if t.offset = offset then { t with payload := payload } else t) = (·.used) := by
    funext t
    simp only [Function.comp_apply]
    split <;> rfl
  have starts : ((fun t : Segment α => decide (some t.offset ≠ some offset)) ∘ fun t =>
      if t.offset = offset then { t with payload := payload } else t) =
        fun t => decide (some t.offset ≠ some offset) := by
    funext t
    simp only [Function.comp_apply]
    split <;> rfl
  rw [besides, allocations, setPayload, List.filter_map, used, List.filter_map, starts]
  exact (List.map_congr_left kept).trans (List.map_id' _)

/-! ## Taking -/

/-- What is taken was free before, and it keeps the payload that it had. -/
theorem allocate_taken (taken : l.allocate size = .ok (offset, changed)) :
    ∃ s ∈ l.segments, s.offset = offset ∧ s.used = false ∧
      changed.allocations.Perm (⟨offset, size, true, s.payload⟩ :: l.allocations) := by
  obtain ⟨-, front, s, back, whole, free, fits, -, rfl, rfl⟩ := allocate_inversion taken
  refine ⟨s, by simp [whole], rfl, free, ?_⟩
  rw [allocations, allocations, whole]
  exact Segment.filter_used_split free fits

theorem allocate_besides (ascending : Ascending l.segments)
    (taken : l.allocate size = .ok (offset, changed)) :
    l.besides (some offset) = l.allocations ∧ changed.besides (some offset) = l.allocations := by
  obtain ⟨-, front, s, back, whole, free, fits, -, rfl, rfl⟩ := allocate_inversion taken
  rw [whole] at ascending
  have used : l.allocations = front.filter (·.used) ++ back.filter (·.used) := by
    rw [allocations, whole, List.filter_append, List.filter_cons, free]
    rfl
  have elsewhere : ∀ t ∈ l.allocations, t.offset ≠ s.offset := by
    intro t member same
    obtain ⟨inside, inUse⟩ := mem_allocations.mp member
    rw [whole] at inside
    obtain rfl := ascending.unique inside (by simp) same
    exact Bool.false_ne_true (free.symm.trans inUse)
  refine ⟨filter_elsewhere elsewhere, ?_⟩
  rw [used] at elsewhere ⊢
  obtain ⟨before, behind⟩ := List.forall_mem_append.mp elsewhere
  rw [besides, allocations, List.filter_append, List.filter_append, List.filter_append,
    List.filter_append, filter_elsewhere before, filter_elsewhere behind,
    s.filter_used_take size fits]
  simp

/-! ## Giving back -/

theorem giveBack_missing (elsewhere : ∀ t ∈ segments, t.offset ≠ offset) :
    giveBack offset segments = .error (.notFound offset) := by
  induction segments with
  | nil => rfl
  | cons t rest ih =>
    obtain ⟨here, others⟩ := List.forall_mem_cons.mp elsewhere
    rw [giveBack, if_neg here, ih others]

theorem giveBack_unused (elsewhere : ∀ t ∈ front, t.offset ≠ s.offset) (free : s.used = false) :
    giveBack s.offset (front ++ s :: back) = .error (.notInUse s.offset) := by
  induction front with
  | nil => simp [giveBack, free]
  | cons t front ih =>
    obtain ⟨here, others⟩ := List.forall_mem_cons.mp elsewhere
    rw [List.cons_append, giveBack, if_neg here, ih others]

theorem deallocate_missing (missing : ∀ s ∈ l.segments, s.offset ≠ offset) :
    l.deallocate offset = .error (.notFound offset) := by
  rw [deallocate, giveBack_missing missing]

theorem deallocate_unused (ascending : Ascending l.segments) (member : s ∈ l.segments)
    (free : s.used = false) : l.deallocate s.offset = .error (.notInUse s.offset) := by
  obtain ⟨front, back, whole, before, -⟩ := ascending.split member
  rw [deallocate, whole, giveBack_unused before free]

theorem deallocate_used (ascending : Ascending l.segments) (member : s ∈ l.segments)
    (used : s.used = true) : ∃ changed, l.deallocate s.offset = .ok (s.payload, changed) ∧
      changed.arenaSize = l.arenaSize ∧ changed.allocations = l.besides (some s.offset) := by
  obtain ⟨front, back, whole, before, behind⟩ := ascending.split member
  refine ⟨⟨front.foldr Segment.join (s.released.join back), l.arenaSize⟩, ?_, rfl, ?_⟩
  · rw [deallocate, whole, giveBack_split before used]
  · have inFront : ∀ t ∈ front.filter (·.used), t.offset ≠ s.offset :=
      fun t inside => before t (List.mem_filter.mp inside).1
    have inBack : ∀ t ∈ back.filter (·.used), t.offset ≠ s.offset :=
      fun t inside => behind t (List.mem_filter.mp inside).1
    rw [besides, allocations, allocations, whole, Segment.filter_used_foldr_join,
      List.filter_append, Segment.filter_used_join, List.filter_append, List.filter_append,
      filter_elsewhere inFront, List.filter_cons, List.filter_cons, used, if_pos rfl,
      List.filter_cons, filter_elsewhere inBack]
    simp [Segment.released]

theorem perform_deallocate_unused (ascending : Ascending l.segments) {offset : UInt64}
    (unused : ∀ s ∈ l.allocations, s.offset ≠ offset.toNat) :
    l.perform (.deallocate offset) = l := by
  rw [perform]
  cases found : l.find? offset.toNat with
  | none => rw [deallocate_missing (find?_eq_none.mp found)]
  | some s =>
    obtain ⟨member, starts⟩ := mem_of_find? found
    have free : s.used = false := by
      by_contra used
      exact unused s (mem_allocations.mpr ⟨member, by simpa using used⟩) starts
    rw [← starts, deallocate_unused ascending member free]

/-- All that giving back the segment at an offset can come to. -/
structure GivesBack (l : Layout α) (offset : Nat) : Prop where
  missing : l.deallocate offset = .error (.notFound offset) ↔ ∀ s ∈ l.segments, s.offset ≠ offset
  unused : l.deallocate offset = .error (.notInUse offset) ↔
    ∃ s ∈ l.segments, s.offset = offset ∧ s.used = false
  used : ∀ s ∈ l.segments, s.offset = offset → s.used = true →
    ∃ changed, l.deallocate offset = .ok (s.payload, changed) ∧
      changed.allocations = l.besides (some offset)

theorem givesBack (ascending : Ascending l.segments) (offset : Nat) : l.GivesBack offset := by
  cases found : l.find? offset with
  | none =>
    have missing := find?_eq_none.mp found
    have answer := deallocate_missing missing
    constructor
    · exact iff_of_true answer missing
    · refine iff_of_false (by simp [answer]) ?_
      rintro ⟨s, member, starts, -⟩
      exact missing s member starts
    · intro s member starts
      exact absurd starts (missing s member)
  | some s =>
    obtain ⟨member, rfl⟩ := mem_of_find? found
    have present : ¬ ∀ t ∈ l.segments, t.offset ≠ s.offset := fun missing => missing s member rfl
    cases used : s.used with
    | false =>
      have answer := deallocate_unused ascending member used
      constructor
      · exact iff_of_false (by simp [answer]) present
      · exact iff_of_true answer ⟨s, member, rfl, used⟩
      · intro t inside same inUse
        obtain rfl := ascending.unique inside member same
        exact absurd (used.symm.trans inUse) Bool.false_ne_true
    | true =>
      obtain ⟨changed, answer, -, left⟩ := deallocate_used ascending member used
      constructor
      · exact iff_of_false (by simp [answer]) present
      · refine iff_of_false (by simp [answer]) ?_
        rintro ⟨t, inside, same, free⟩
        obtain rfl := ascending.unique inside member same
        exact absurd (free.symm.trans used) Bool.false_ne_true
      · intro t inside same _
        obtain rfl := ascending.unique inside member same
        exact ⟨changed, answer, left⟩

/-! ## Edits -/

/-- Changes a payload where it stands. -/
def update (l : Layout α) (offset : Nat) (change : α → α) : Layout α :=
  match (l.find? offset).bind (·.payload) with
  | none => l
  | some payload => l.setPayload offset (some (change payload))

/-- Calls, and changes of a payload where it stands. -/
inductive Edit (α : Type)
  | call (c : Call α)
  | update (offset : UInt64) (change : α → α)

def edit (l : Layout α) : Edit α → Layout α
  | .call c => l.perform c
  | .update offset change => l.update offset.toNat change

def edited (l : Layout α) (edits : List (Edit α)) : Layout α := edits.foldl edit l

namespace Edit

def offset? : Edit α → Option Nat
  | .call (.allocate _) => none
  | .call (.deallocate offset) => some offset.toNat
  | .call (.attach offset _) => some offset.toNat
  | .call (.detach offset) => some offset.toNat
  | .update offset _ => some offset.toNat

/-- Where the segment starts that an edit is about. An allocation is about the one that it takes. -/
def target? (l : Layout α) : Edit α → Option Nat
  | .call (.allocate size) => (l.allocate size.toNat).toOption.map (·.1)
  | e => e.offset?

end Edit

theorem edit_besides (ascending : Ascending l.segments) (e : Edit α) :
    (l.edit e).besides (e.target? l) = l.besides (e.target? l) := by
  cases e with
  | call c =>
    cases c with
    | allocate size =>
      simp only [edit, perform, Edit.target?]
      cases taken : l.allocate size.toNat with
      | error => rfl
      | ok result =>
        obtain ⟨before, after⟩ := allocate_besides ascending taken
        exact after.trans before.symm
    | deallocate offset =>
      simp only [Edit.target?, Edit.offset?]
      by_cases live : ∃ s ∈ l.allocations, s.offset = offset.toNat
      · obtain ⟨s, member, starts⟩ := live
        obtain ⟨inside, used⟩ := mem_allocations.mp member
        obtain ⟨changed, answer, -, left⟩ := deallocate_used ascending inside used
        rw [edit, perform, ← starts, answer, besides, left, besides, List.filter_filter]
        simp only [Bool.and_self]
      · have unused : ∀ s ∈ l.allocations, s.offset ≠ offset.toNat :=
          fun s member starts => live ⟨s, member, starts⟩
        rw [edit, perform_deallocate_unused ascending unused]
    | attach offset payload =>
      simp only [edit, perform, attach, Edit.target?, Edit.offset?]
      cases l.find? offset.toNat with
      | none => rfl
      | some s => exact besides_setPayload l _ _
    | detach offset =>
      simp only [edit, perform, detach, Edit.target?, Edit.offset?]
      cases l.find? offset.toNat with
      | none => rfl
      | some s => exact besides_setPayload l _ _
  | update offset change =>
    simp only [edit, Layout.update, Edit.target?, Edit.offset?]
    cases (l.find? offset.toNat).bind (·.payload) with
    | none => rfl
    | some payload => exact besides_setPayload l _ _

theorem target?_ne (ascending : Ascending l.segments) (member : s ∈ l.allocations) {e : Edit α}
    (spared : e.offset? ≠ some s.offset) : some s.offset ≠ e.target? l := by
  cases e with
  | call c =>
    cases c with
    | allocate size =>
      rw [Edit.target?]
      cases taken : l.allocate size.toNat with
      | error => simp [Except.toOption]
      | ok result =>
        -- The segment that is taken was free, so it is none of those in use.
        obtain ⟨before, -⟩ := allocate_besides ascending taken
        rw [← before] at member
        exact (mem_besides.mp member).2
    | _ => exact spared.symm
  | update => exact spared.symm

theorem mem_edit (ascending : Ascending l.segments) (member : s ∈ l.allocations) {e : Edit α}
    (spared : e.offset? ≠ some s.offset) : s ∈ (l.edit e).allocations := by
  have inside : s ∈ l.besides (e.target? l) :=
    mem_besides.mpr ⟨member, target?_ne ascending member spared⟩
  rw [← edit_besides ascending e] at inside
  exact (mem_besides.mp inside).1

/-! ## Layouts that edits lead to -/

/-- A partition of an arena, or the one empty segment of an arena without bytes. -/
inductive Formed : Layout α → Prop
  | divided {l : Layout α} {size : Nat} (divides : l.Divides size) : Formed l
  | empty {l : Layout α} {payload : Option α} (empty : l.segments = [⟨0, 0, false, payload⟩]) :
      Formed l

theorem start_formed (size : Nat) : (start size : Layout α).Formed := by
  rcases Nat.eq_zero_or_pos size with rfl | positive
  · exact .empty rfl
  · exact .divided (start_divides positive)

theorem Formed.ascending (formed : l.Formed) : Ascending l.segments := by
  cases formed with
  | divided divides =>
    apply divides.tiles.ordered.imp_of_mem
    intro s t inS _ before
    exact Nat.lt_of_lt_of_le (Nat.lt_add_of_pos_right (divides.tiles.within inS).2.1) before
  | empty empty =>
    rw [empty]
    exact List.pairwise_singleton ..

theorem Formed.perform (formed : l.Formed) (c : Call α) : (l.perform c).Formed := by
  cases formed with
  | divided divides => exact .divided (divides.perform c)
  | empty empty =>
    obtain ⟨payload, stays⟩ := perform_empty empty c
    exact .empty stays

/-- A payload that is changed where it stands might as well be attached. -/
theorem update_eq (l : Layout α) (offset : UInt64) (change : α → α) :
    l.update offset.toNat change = l ∨
      ∃ payload, l.update offset.toNat change = l.perform (.attach offset payload) := by
  unfold update
  cases found : l.find? offset.toNat with
  | none => exact .inl rfl
  | some s =>
    cases payload : s.payload with
    | none => simp [payload]
    | some p =>
      refine .inr ⟨change p, ?_⟩
      simp [payload, Layout.perform, attach, found]

theorem Formed.edit (formed : l.Formed) (e : Edit α) : (l.edit e).Formed := by
  cases e with
  | call c => exact formed.perform c
  | update offset change =>
    rw [Layout.edit]
    rcases update_eq l offset change with same | ⟨payload, same⟩
    · rw [same]
      exact formed
    · rw [same]
      exact formed.perform _

theorem Formed.edited (formed : l.Formed) (edits : List (Edit α)) : (l.edited edits).Formed := by
  induction edits generalizing l with
  | nil => exact formed
  | cons e edits ih => exact ih (formed.edit e)

theorem Formed.mem_edited (formed : l.Formed) (member : s ∈ l.allocations) {edits : List (Edit α)}
    (spared : ∀ e ∈ edits, e.offset? ≠ some s.offset) : s ∈ (l.edited edits).allocations := by
  induction edits generalizing l with
  | nil => exact member
  | cons e edits ih =>
    obtain ⟨here, others⟩ := List.forall_mem_cons.mp spared
    exact ih (formed.edit e) (mem_edit formed.ascending member here) others

/-- After any edits, free segments with payloads included, a further edit leaves all used segments
as they are but the one that it is about, and edits that do not name a used segment never change
it. Both ways of looking an offset up find the segment that starts there, and no other. Giving back
tells apart offsets where nothing starts, free segments and used ones; it hands out the payload of
the segment named, and where that is not used it changes nothing. An allocation is a segment that
was free. -/
theorem edit_exact (α : Type) (arenaSize : UInt64) (edits : List (Edit α)) :
    let l := (start arenaSize.toNat : Layout α).edited edits
    (∀ e, (l.edit e).besides (e.target? l) = l.besides (e.target? l)) ∧
    (∀ s ∈ l.allocations, ∀ later : List (Edit α),
      (∀ e ∈ later, e.offset? ≠ some s.offset) → s ∈ (l.edited later).allocations) ∧
    (∀ offset s, (l.search? offset = some s ↔ s ∈ l.segments ∧ s.offset = offset) ∧
      (l.find? offset = some s ↔ s ∈ l.segments ∧ s.offset = offset)) ∧
    (∀ offset, l.GivesBack offset) ∧
    (∀ offset : UInt64, (∀ s ∈ l.allocations, s.offset ≠ offset.toNat) →
      l.edit (.call (.deallocate offset)) = l) ∧
    ∀ size offset changed, l.allocate size = .ok (offset, changed) →
      ∃ s ∈ l.segments, s.offset = offset ∧ s.used = false ∧
        changed.allocations.Perm (⟨offset, size, true, s.payload⟩ :: l.allocations) := by
  intro l
  have formed : l.Formed := (start_formed _).edited edits
  have ascending := formed.ascending
  refine ⟨edit_besides ascending, ?_, ?_, givesBack ascending,
    fun _ => perform_deallocate_unused ascending, fun _ _ _ => allocate_taken⟩
  · intro s member later spared
    exact formed.mem_edited member spared
  · intro offset s
    exact ⟨search?_eq_some ascending, find?_eq_some ascending⟩

theorem edit_exact_sixteen :
    let l := (start 16 : Layout Nat).edited
      [.call (.allocate 4), .call (.allocate 4), .call (.attach 0 7), .call (.attach 4 8),
        .call (.attach 8 5)]
    let later : List (Edit Nat) :=
      [.call (.deallocate 0), .update 8 (· + 1), .call (.allocate 2), .call (.allocate 6)]
    (⟨4, 4, true, some 8⟩ ∈ l.allocations ∧ ∀ e ∈ later, e.offset? ≠ some 4) ∧
      ⟨4, 4, true, some 8⟩ ∈ (l.edited later).allocations ∧
      ⟨8, 6, true, some 6⟩ ∈ (l.edited later).allocations ∧
      l.search? 4 = some ⟨4, 4, true, some 8⟩ ∧
      l.deallocate 8 = .error (.notInUse 8) ∧ l.deallocate 2 = .error (.notFound 2) ∧
      ∃ changed, l.deallocate 4 = .ok (some 8, changed) := by
  intro l later
  have member : ⟨4, 4, true, some 8⟩ ∈ l.allocations := by decide
  have spared : ∀ e ∈ later, e.offset? ≠ some 4 := by simp [later, Edit.offset?]
  have inside := (mem_allocations.mp member).1
  obtain ⟨-, keeps, finds, gives, -⟩ := edit_exact Nat 16
    [.call (.allocate 4), .call (.allocate 4), .call (.attach 0 7), .call (.attach 4 8),
      .call (.attach 8 5)]
  obtain ⟨changed, answer, -⟩ := (gives 4).used _ inside rfl rfl
  refine ⟨⟨member, spared⟩, keeps _ member later spared, by decide,
    (finds 4 _).1.mpr ⟨inside, rfl⟩, (gives 8).unused.mpr ?_, (gives 2).missing.mpr (by decide),
    changed, answer⟩
  exact ⟨⟨8, 8, false, some 5⟩, by decide, rfl, rfl⟩

end Layout

end PolicyVault.Memory
