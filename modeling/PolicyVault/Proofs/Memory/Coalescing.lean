import Mathlib.Data.List.Chain
import PolicyVault.Memory.Partition
import PolicyVault.Proofs.Memory.Layout

/-!
# Coalesced layouts

A layout is coalesced if it has no two free segments side by side. Whatever is allocated,
deallocated, attached and detached, the layout stays a coalesced partition of its arena. Each
coalesced partition is also reached: take all of its segments in order, then give those back that
are to be free.

Main statement: `Layout.reached_iff_checked`.
-/

namespace PolicyVault.Memory

variable {α : Type}

def Coalesced (segments : List (Segment α)) : Prop :=
  segments.IsChain fun s t => s.used = true ∨ t.used = true

namespace Coalesced

variable {s : Segment α} {front back rest : List (Segment α)}

theorem of_used (used : ∀ t ∈ rest, t.used = true) : Coalesced (s :: rest) := by
  induction rest generalizing s with
  | nil => exact .singleton s
  | cons t rest ih =>
    obtain ⟨here, others⟩ := List.forall_mem_cons.mp used
    exact .cons_cons (.inr here) (ih others)

theorem take {size : Nat} (free : s.used = false) (coalesced : Coalesced (front ++ s :: back)) :
    Coalesced (front ++ (s.take size ++ back)) := by
  obtain ⟨left, right, -⟩ := List.isChain_append.mp coalesced
  obtain ⟨next, behind⟩ := List.isChain_cons.mp right
  refine List.isChain_append.mpr ⟨left, ?_, ?_⟩
  · unfold Segment.take
    split
    · refine .cons_cons (.inl rfl) (List.isChain_cons.mpr ⟨?_, behind⟩)
      intro t first
      exact .inr (by simpa [free] using next t first)
    · exact List.isChain_cons.mpr ⟨fun _ _ => .inl rfl, behind⟩
  · -- What is taken comes first, and it is used.
    intro t _ u first
    unfold Segment.take at first
    split at first <;> obtain rfl := Option.some.inj first <;> exact .inr rfl

theorem join (coalesced : Coalesced rest) : Coalesced (s.join rest) := by
  cases rest with
  | nil => exact .singleton s
  | cons t rest =>
    rw [Segment.join]
    split
    · rename_i used
      exact .cons_cons (by simpa using used) coalesced
    · rename_i free
      simp only [Bool.or_eq_true, not_or, Bool.not_eq_true] at free
      obtain ⟨next, behind⟩ := List.isChain_cons.mp coalesced
      refine List.isChain_cons.mpr ⟨?_, behind⟩
      intro u first
      simpa [free.1, free.2] using next u first

theorem foldr_join (coalesced : Coalesced rest) : Coalesced (front.foldr Segment.join rest) := by
  induction front with
  | nil => exact coalesced
  | cons s front ih => exact ih.join

theorem join_eq (coalesced : Coalesced (s :: rest)) : s.join rest = s :: rest := by
  cases rest with
  | nil => rfl
  | cons t rest =>
    have used := (List.isChain_cons_cons.mp coalesced).1
    rw [Segment.join, if_pos (by simpa using used)]

theorem foldr_join_eq (coalesced : Coalesced (front ++ rest)) :
    front.foldr Segment.join rest = front ++ rest := by
  induction front with
  | nil => rfl
  | cons s front ih =>
    rw [List.foldr_cons, ih (List.isChain_cons.mp coalesced).2]
    exact coalesced.join_eq

end Coalesced

theorem Layout.giveBack_inversion {offset : Nat} {payload : Option α}
    {segments changed : List (Segment α)}
    (given : giveBack offset segments = .ok (payload, changed)) :
    ∃ front s back, segments = front ++ s :: back ∧
      changed = front.foldr Segment.join (s.released.join back) := by
  induction segments generalizing changed with
  | nil => cases given
  | cons t rest ih =>
    rw [giveBack] at given
    split at given
    · split at given
      · obtain ⟨-, rfl⟩ := Prod.mk.inj (Except.ok.inj given)
        exact ⟨[], t, rest, rfl, rfl⟩
      · cases given
    · split at given
      · cases given
      · rename_i deeper
        obtain ⟨rfl, rfl⟩ := Prod.mk.inj (Except.ok.inj given)
        obtain ⟨front, s, back, rfl, rfl⟩ := ih deeper
        exact ⟨t :: front, s, back, rfl, rfl⟩

theorem Layout.deallocate_inversion {l changed : Layout α} {offset : Nat} {payload : Option α}
    (given : l.deallocate offset = .ok (payload, changed)) :
    ∃ front s back, l.segments = front ++ s :: back ∧
      changed = ⟨front.foldr Segment.join (s.released.join back), l.arenaSize⟩ := by
  unfold deallocate at given
  split at given
  · cases given
  rename_i found
  obtain ⟨-, rfl⟩ := Prod.mk.inj (Except.ok.inj given)
  obtain ⟨front, s, back, whole, rfl⟩ := giveBack_inversion found
  exact ⟨front, s, back, whole, rfl⟩

/-! ## Spans -/

def Segment.span (s : Segment α) : Span := ⟨s.offset, s.size, s.used⟩

/-- The bare segment of a span. -/
def Span.segment (s : Span) : Segment α := ⟨s.offset, s.size, s.used, none⟩

def Span.taken (s : Span) : Span := { s with used := true }

theorem Tiles.map {f : Segment α → Segment α} (same : ∀ s, (f s).span = s.span) {start stop : Nat}
    {segments : List (Segment α)} (tiles : Tiles start segments stop) :
    Tiles start (segments.map f) stop := by
  induction segments generalizing start with
  | nil => exact tiles
  | cons s rest ih =>
    obtain ⟨first, positive, tiles⟩ := tiles
    obtain ⟨offset, size, -⟩ := Span.mk.inj (same s)
    refine ⟨offset.trans first, size ▸ positive, ?_⟩
    rw [Segment.stop, offset, size]
    exact ih tiles

theorem Coalesced.map {f : Segment α → Segment α} (same : ∀ s, (f s).span = s.span)
    {segments : List (Segment α)} (coalesced : Coalesced segments) :
    Coalesced (segments.map f) := by
  have used : ∀ s, (f s).used = s.used := fun s => (Span.mk.inj (same s)).2.2
  refine List.isChain_map_of_isChain f ?_ coalesced
  intro s t either
  rwa [used, used]

theorem checkChain_iff {segments : List (Segment α)} {start stop : Nat} (index : Nat)
    (small : stop < Text.wordLimit64) :
    checkChain index start (segments.map (·.span)) = .ok stop ↔ Tiles start segments stop := by
  induction segments generalizing index start with
  | nil => simp [checkChain, Tiles]
  | cons s rest ih =>
    simp only [List.map_cons, checkChain, Segment.span, Tiles]
    by_cases first : s.offset = start
    · by_cases empty : s.size = 0
      · simp [first, empty]
      · have positive : 0 < s.size := Nat.pos_of_ne_zero empty
        rw [if_neg (not_not.mpr first), if_neg empty]
        split
        · rename_i large
          refine iff_of_false (by simp) ?_
          rintro ⟨-, -, tiles⟩
          have le := tiles.le
          unfold Segment.stop at le
          omega
        · simp only [first, positive, true_and]
          exact first ▸ ih (index + 1)
    · simp [first]

theorem checkCoalescedFrom_iff {segments : List (Segment α)} {index : Nat} :
    checkCoalescedFrom index (segments.map (·.span)) = .ok () ↔ Coalesced segments := by
  induction segments generalizing index with
  | nil => exact iff_of_true rfl .nil
  | cons s rest ih =>
    cases rest with
    | nil => exact iff_of_true rfl (.singleton s)
    | cons t rest =>
      rw [Coalesced, List.isChain_cons_cons]
      simp only [List.map_cons, checkCoalescedFrom, Segment.span, Bool.or_eq_true]
      split
      · rename_i used
        rw [and_iff_right used]
        exact ih
      · rename_i free
        exact iff_of_false (by simp) fun both => free both.1

theorem checked_iff {segments : List (Segment α)} {arenaSize : Nat} (positive : 0 < arenaSize)
    (small : arenaSize < Text.wordLimit64) :
    checkPartition (segments.map (·.span)) arenaSize = .ok () ∧
        checkCoalesced (segments.map (·.span)) = .ok () ↔
      Tiles 0 segments arenaSize ∧ Coalesced segments := by
  rw [checkCoalesced, checkCoalescedFrom_iff]
  refine and_congr_left fun _ => ?_
  cases segments with
  | nil =>
    refine iff_of_false (by simp [checkPartition]) ?_
    exact Nat.ne_of_lt positive
  | cons s rest =>
    rw [← checkChain_iff 0 small]
    by_cases first : s.span.offset = 0
    · rw [List.map_cons, checkPartition, if_neg (not_not.mpr first)]
      cases checkChain 0 0 (s.span :: rest.map (·.span)) with
      | error e => simp
      | ok last =>
        by_cases whole : last = arenaSize <;> simp [whole]
    · refine iff_of_false ?_ ?_
      · simp [checkPartition, first]
      · simp [checkChain, first]

/-! ## Calls -/

namespace Layout

/-- Calls of whoever holds a layout. -/
inductive Call (α : Type)
  | allocate (size : UInt64)
  | deallocate (offset : UInt64)
  | attach (offset : UInt64) (payload : α)
  | detach (offset : UInt64)

/-- The layout that a call leaves behind, failed or not. -/
def perform (l : Layout α) : Call α → Layout α
  | .allocate size =>
    match l.allocate size.toNat with
    | .error _ => l
    | .ok (_, changed) => changed
  | .deallocate offset =>
    match l.deallocate offset.toNat with
    | .error _ => l
    | .ok (_, changed) => changed
  | .attach offset payload =>
    match l.attach offset.toNat payload with
    | none => l
    | some (_, changed) => changed
  | .detach offset =>
    match l.detach offset.toNat with
    | none => l
    | some (_, changed) => changed

def after (l : Layout α) (calls : List (Call α)) : Layout α :=
  calls.foldl perform l

def spans (l : Layout α) : List Span := l.segments.map (·.span)

/-- The segments are a coalesced partition of an arena of some size. -/
structure Divides (size : Nat) (l : Layout α) : Prop where
  tiles : Tiles 0 l.segments size
  coalesced : Coalesced l.segments

variable {l : Layout α} {size : Nat}

theorem start_divides (positive : 0 < size) : (start size : Layout α).Divides size where
  tiles := (start_sound positive).tiles
  coalesced := .singleton _

theorem Divides.allocate (kept : l.Divides size) {request offset : Nat} {changed : Layout α}
    (taken : l.allocate request = .ok (offset, changed)) : changed.Divides size := by
  obtain ⟨tiles, coalesced⟩ := kept
  obtain ⟨positive, front, s, back, whole, free, fits, -, -, rfl⟩ := allocate_inversion taken
  rw [whole] at tiles coalesced
  constructor
  · rw [List.append_assoc]
    exact tiles.replace fun _ right => right.take positive fits
  · rw [List.append_assoc]
    exact coalesced.take free

theorem Divides.deallocate (kept : l.Divides size) {offset : Nat} {payload : Option α}
    {changed : Layout α} (given : l.deallocate offset = .ok (payload, changed)) :
    changed.Divides size := by
  obtain ⟨tiles, coalesced⟩ := kept
  obtain ⟨front, s, back, whole, rfl⟩ := deallocate_inversion given
  rw [whole] at tiles coalesced
  have behind : Coalesced back :=
    (List.isChain_cons.mp (List.isChain_append.mp coalesced).2.1).2
  constructor
  · exact Tiles.foldr_join (tiles.replace fun _ right => Tiles.join (s := s.released) right)
  · exact behind.join.foldr_join

theorem Divides.setPayload (kept : l.Divides size) (offset : Nat) (payload : Option α) :
    (l.setPayload offset payload).Divides size := by
  have same : ∀ s : Segment α,
      (if s.offset = offset then { s with payload := payload } else s).span = s.span := by
    intro s
    split <;> rfl
  exact ⟨kept.tiles.map same, kept.coalesced.map same⟩

theorem Divides.perform (kept : l.Divides size) (c : Call α) :
    (l.perform c).Divides size := by
  cases c with
  | allocate request =>
    simp only [Layout.perform]
    split
    · exact kept
    · rename_i taken
      exact kept.allocate taken
  | deallocate offset =>
    simp only [Layout.perform]
    split
    · exact kept
    · rename_i given
      exact kept.deallocate given
  | attach offset payload =>
    simp only [Layout.perform, attach]
    cases l.find? offset.toNat with
    | none => exact kept
    | some s => exact kept.setPayload _ _
  | detach offset =>
    simp only [Layout.perform, detach]
    cases l.find? offset.toNat with
    | none => exact kept
    | some s => exact kept.setPayload _ _

theorem Divides.after (kept : l.Divides size) (calls : List (Call α)) :
    (l.after calls).Divides size := by
  induction calls generalizing l with
  | nil => exact kept
  | cons c calls ih => exact ih (kept.perform c)

/-! ## Reaching a partition -/

theorem after_cons (l : Layout α) (c : Call α) (calls : List (Call α)) :
    l.after (c :: calls) = (l.perform c).after calls :=
  rfl

theorem after_append (l : Layout α) (first second : List (Call α)) :
    l.after (first ++ second) = (l.after first).after second :=
  List.foldl_append

/-- The free segment that is left of an arena, if one is. -/
def remainder (start stop : Nat) : List (Segment α) :=
  if start < stop then [.free start (stop - start)] else []

theorem toNat_toUInt64 {n : Nat} (small : n < Text.wordLimit64) : n.toUInt64.toNat = n :=
  UInt64.toNat_ofNat_of_lt' small

theorem takeFirst_behind {front : List (Segment α)} (used : ∀ s ∈ front, s.used = true)
    (request : Nat) (back : List (Segment α)) :
    takeFirst request (front ++ back) =
      (takeFirst request back).map fun (offset, changed) => (offset, front ++ changed) := by
  induction front with
  | nil => simp
  | cons s front ih =>
    obtain ⟨here, others⟩ := List.forall_mem_cons.mp used
    rw [List.cons_append, takeFirst, ih others]
    simp [here, Function.comp_def]

theorem allocate_remainder {front : List (Segment α)} (used : ∀ s ∈ front, s.used = true)
    {first stop request : Nat} (positive : 0 < request) (fits : first + request ≤ stop) :
    (⟨front ++ remainder first stop, stop⟩ : Layout α).allocate request =
      .ok (first, ⟨front ++ ⟨first, request, true, none⟩ :: remainder (first + request) stop, stop⟩)
    := by
  have some : first < stop := by omega
  have enough : request ≤ stop - first := by omega
  have rest : (Segment.free first (stop - first) : Segment α).take request =
      ⟨first, request, true, none⟩ :: remainder (first + request) stop := by
    unfold Segment.take remainder
    by_cases exact : request = stop - first
    · simp [Segment.free, exact]
      omega
    · have more : request < stop - first := by omega
      have behind : first + request < stop := by omega
      simp [Segment.free, more, behind, Nat.sub_sub]
  rw [allocate, if_neg (Nat.ne_of_gt positive)]
  simp only [takeFirst_behind used, remainder, if_pos some]
  rw [takeFirst, if_pos (by simp [Segment.free, enough]), rest, List.append_nil]
  rfl

/-- Taking all segments of a partition in order. -/
theorem fill {spans : List Span} {first stop : Nat} (front : List (Segment α))
    (used : ∀ s ∈ front, s.used = true) (small : stop < Text.wordLimit64)
    (tiles : Tiles first (spans.map (Span.segment (α := α))) stop) :
    (⟨front ++ remainder first stop, stop⟩ : Layout α).after
        (spans.map fun s => .allocate s.size.toUInt64) =
      ⟨front ++ spans.map (·.taken.segment), stop⟩ := by
  induction spans generalizing front first with
  | nil =>
    obtain rfl : first = stop := tiles
    simp [after, remainder]
  | cons s rest ih =>
    obtain ⟨starts, positive, tiles⟩ := tiles
    have starts : s.offset = first := starts
    subst starts
    have positive : 0 < s.size := positive
    have inside : s.offset + s.size ≤ stop := tiles.le
    have isWord : s.size.toUInt64.toNat = s.size := toNat_toUInt64 (by omega)
    have step : (⟨front ++ remainder s.offset stop, stop⟩ : Layout α).perform
        (.allocate s.size.toUInt64) =
          ⟨front ++ [s.taken.segment] ++ remainder (s.offset + s.size) stop, stop⟩ := by
      simp only [perform, isWord, allocate_remainder used positive inside]
      rw [List.append_assoc]
      rfl
    have used : ∀ t ∈ front ++ [s.taken.segment], t.used = true := by
      intro t member
      rcases List.mem_append.mp member with before | last
      · exact used t before
      · obtain rfl := List.mem_singleton.mp last
        rfl
    have next := ih _ used tiles
    rw [List.append_assoc _ _ (rest.map _)] at next
    rw [List.map_cons, after_cons, step]
    exact next

theorem deallocate_between {front back : List (Segment α)} {s : Segment α} (stop : Nat)
    (used : s.used = true) (before : ∀ t ∈ front, t.offset ≠ s.offset)
    (coalesced : Coalesced (front ++ s.released :: back)) :
    (⟨front ++ s :: back, stop⟩ : Layout α).deallocate s.offset =
      .ok (s.payload, ⟨front ++ s.released :: back, stop⟩) := by
  have behind : Coalesced (s.released :: back) := (List.isChain_append.mp coalesced).2.1
  simp only [deallocate, giveBack_split before used]
  rw [behind.join_eq, coalesced.foldr_join_eq]

theorem perform_deallocate_taken {front rest : List Span} {s : Span} {stop : Nat}
    (free : s.used = false) (small : stop < Text.wordLimit64)
    (tiles : Tiles 0 ((front ++ s :: rest).map (Span.segment (α := α))) stop)
    (coalesced : Coalesced ((front ++ s :: rest).map (Span.segment (α := α)))) :
    (⟨front.map Span.segment ++ s.taken.segment :: rest.map (·.taken.segment), stop⟩ :
        Layout α).perform (.deallocate s.offset.toUInt64) =
      ⟨front.map Span.segment ++ s.segment :: rest.map (·.taken.segment), stop⟩ := by
  rw [List.map_append, List.map_cons] at tiles coalesced
  obtain ⟨middle, left, starts, positive, right⟩ := Tiles.append.mp tiles
  have starts : s.offset = middle := starts
  have positive : 0 < s.size := positive
  have inside : s.offset + s.size ≤ stop := right.le
  have before : ∀ t ∈ front.map (Span.segment (α := α)), t.offset ≠ s.offset := by
    intro t member
    obtain ⟨-, some, ends⟩ := left.within member
    unfold Segment.stop at ends
    omega
  have released : (s.taken.segment : Segment α).released = s.segment := by
    rw [Span.segment, Span.segment, free]
    rfl
  have apart : Coalesced (front.map Span.segment ++
      (s.taken.segment : Segment α).released :: rest.map (·.taken.segment)) := by
    have behind : Coalesced (s.segment :: rest.map (Span.segment (α := α) ·.taken)) := by
      apply Coalesced.of_used
      intro t member
      obtain ⟨u, -, rfl⟩ := List.mem_map.mp member
      rfl
    rw [released]
    exact List.isChain_split.mpr ⟨(List.isChain_split.mp coalesced).1, behind⟩
  have step := deallocate_between stop rfl before apart
  have sameOffset : s.offset = (s.taken.segment : Segment α).offset := rfl
  rw [released, ← sameOffset] at step
  simp only [perform, toNat_toUInt64 (show s.offset < Text.wordLimit64 by omega), step]

/-- Giving back the segments of a partition that are to be free. -/
theorem thin (front : List Span) {back : List Span} {stop : Nat} (small : stop < Text.wordLimit64)
    (tiles : Tiles 0 ((front ++ back).map (Span.segment (α := α))) stop)
    (coalesced : Coalesced ((front ++ back).map (Span.segment (α := α)))) :
    (⟨front.map Span.segment ++ back.map (·.taken.segment), stop⟩ : Layout α).after
        ((back.filter (!·.used)).map fun s => .deallocate s.offset.toUInt64) =
      ⟨(front ++ back).map Span.segment, stop⟩ := by
  induction back generalizing front with
  | nil => simp [after]
  | cons s rest ih =>
    have whole : front ++ s :: rest = front ++ [s] ++ rest := by simp
    have next := ih (front ++ [s]) (whole ▸ tiles) (whole ▸ coalesced)
    rw [← whole, List.map_append, List.append_assoc] at next
    cases used : s.used with
    | true =>
      have same : s.taken = s := by rw [Span.taken, ← used]
      rw [List.map_cons, same, List.filter_cons_of_neg (by simp [used])]
      exact next
    | false =>
      rw [List.filter_cons_of_pos (by simp [used]), List.map_cons, List.map_cons, after_cons,
        perform_deallocate_taken used small tiles coalesced]
      exact next

/-- For every arena, and whatever payloads are attached and detached meanwhile, the lists of spans
that calls lead to are exactly those that pass both checks. -/
theorem reached_iff_checked (α : Type) (arenaSize : UInt64) (positive : 0 < arenaSize)
    (spans : List Span) :
    (∃ calls : List (Call α), ((start arenaSize.toNat).after calls).spans = spans) ↔
      checkPartition spans arenaSize.toNat = .ok () ∧ checkCoalesced spans = .ok () := by
  have some : 0 < arenaSize.toNat := positive
  have small : arenaSize.toNat < Text.wordLimit64 := arenaSize.toNat_lt
  constructor
  · rintro ⟨calls, rfl⟩
    have kept := (start_divides (α := α) some).after calls
    exact (checked_iff some small).mpr ⟨kept.tiles, kept.coalesced⟩
  · intro passes
    have bare : spans = (spans.map (Span.segment (α := α))).map (·.span) := by
      rw [List.map_map]
      exact (List.map_id spans).symm
    rw [bare] at passes
    obtain ⟨tiles, coalesced⟩ := (checked_iff some small).mp passes
    have filled := fill [] (by simp) small tiles
    have thinned := thin [] small tiles coalesced
    refine ⟨(spans.map fun s => .allocate s.size.toUInt64) ++
      (spans.filter (!·.used)).map fun s => .deallocate s.offset.toUInt64, ?_⟩
    have begins : start arenaSize.toNat =
        (⟨[] ++ remainder 0 arenaSize.toNat, arenaSize.toNat⟩ : Layout α) := by
      rw [List.nil_append, remainder, if_pos some]
      rfl
    rw [after_append, begins, filled]
    exact (congrArg Layout.spans thinned).trans bare.symm

/-- Three segments with a gap between used ones are reached; two free neighbours never are. -/
theorem reached_iff_checked_sixteen :
    (0 : UInt64) < 16 ∧
      (∃ calls : List (Call Nat), ((start 16).after calls).spans =
        [⟨0, 4, true⟩, ⟨4, 8, false⟩, ⟨12, 4, true⟩]) ∧
      ∀ calls : List (Call Nat),
        ((start 16).after calls).spans ≠ [⟨0, 4, false⟩, ⟨4, 12, false⟩] := by
  have positive : (0 : UInt64) < 16 := by decide
  refine ⟨positive, (reached_iff_checked Nat 16 positive _).mpr (by decide), ?_⟩
  intro calls reached
  have passes := (reached_iff_checked Nat 16 positive _).mp ⟨calls, reached⟩
  exact absurd passes (by decide)

end Layout

end PolicyVault.Memory
