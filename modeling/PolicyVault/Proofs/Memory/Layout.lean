import Mathlib.Data.List.Nodup
import PolicyVault.Memory.Layout

/-!
# Layouts as partitions

The segments of a layout follow each other from 0 to the size of the arena, none of them empty, and
only used ones carry a payload. Taking a segment, giving one back and changing a payload keep this,
and each changes the used segments by the one that it is about.

Main statements: `Layout.Sound`, `Layout.allocate_spec`, `Layout.deallocate_spec`,
`Layout.setPayload_spec`.
-/

namespace PolicyVault.Memory

variable {α : Type}

/-- Segments that follow each other from `start` to `stop` without gap, none of them empty. -/
def Tiles : Nat → List (Segment α) → Nat → Prop
  | start, [], stop => start = stop
  | start, s :: rest, stop => s.offset = start ∧ 0 < s.size ∧ Tiles s.stop rest stop

/-- Only used segments carry a payload. -/
def Clean (segments : List (Segment α)) : Prop :=
  ∀ s ∈ segments, s.used = false → s.payload = none

namespace Tiles

variable {start stop : Nat} {segments front back : List (Segment α)} {s : Segment α}

theorem append : Tiles start (front ++ back) stop ↔
    ∃ middle, Tiles start front middle ∧ Tiles middle back stop := by
  induction front generalizing start with
  | nil => simp [Tiles]
  | cons t front ih =>
    simp only [List.cons_append, Tiles, ih]
    constructor
    · rintro ⟨first, positive, middle, left, right⟩
      exact ⟨middle, ⟨first, positive, left⟩, right⟩
    · rintro ⟨middle, ⟨first, positive, left⟩, right⟩
      exact ⟨first, positive, middle, left, right⟩

theorem replace {others : List (Segment α)} (tiles : Tiles start (front ++ back) stop)
    (same : ∀ middle, Tiles middle back stop → Tiles middle others stop) :
    Tiles start (front ++ others) stop := by
  obtain ⟨middle, left, right⟩ := append.mp tiles
  exact append.mpr ⟨middle, left, same middle right⟩

theorem le (tiles : Tiles start segments stop) : start ≤ stop := by
  induction segments generalizing start with
  | nil => exact Nat.le_of_eq tiles
  | cons t rest ih =>
    obtain ⟨first, -, tiles⟩ := tiles
    have := ih tiles
    unfold Segment.stop at this
    omega

theorem within (tiles : Tiles start segments stop) (member : s ∈ segments) :
    start ≤ s.offset ∧ 0 < s.size ∧ s.stop ≤ stop := by
  obtain ⟨front, back, rfl⟩ := List.append_of_mem member
  obtain ⟨middle, left, first, positive, right⟩ := append.mp tiles
  have := left.le
  exact ⟨by omega, positive, right.le⟩

/-- Each segment ends before every later one starts. -/
theorem ordered (tiles : Tiles start segments stop) :
    segments.Pairwise fun s t => s.stop ≤ t.offset := by
  induction segments generalizing start with
  | nil => exact .nil
  | cons t rest ih =>
    obtain ⟨-, -, tiles⟩ := tiles
    exact .cons (fun s member => (tiles.within member).1) (ih tiles)

theorem nodup (tiles : Tiles start segments stop) : (segments.map (·.offset)).Nodup := by
  apply List.pairwise_map.mpr
  apply tiles.ordered.imp_of_mem
  intro s t inS _ before same
  have := (tiles.within inS).2.1
  unfold Segment.stop at before
  omega

theorem take {size : Nat} (positive : 0 < size) (fits : size ≤ s.size)
    (tiles : Tiles start (s :: back) stop) : Tiles start (s.take size ++ back) stop := by
  obtain ⟨first, -, tiles⟩ := tiles
  unfold Segment.take
  split
  · rename_i smaller
    have whole : (Segment.free (α := α) (s.offset + size) (s.size - size)).stop = s.stop := by
      simp only [Segment.free, Segment.stop]
      omega
    refine ⟨first, positive, rfl, by simp only [Segment.free]; omega, ?_⟩
    rw [whole]
    exact tiles
  · exact ⟨first, by simp only; omega, tiles⟩

theorem join (tiles : Tiles start (s :: back) stop) : Tiles start (s.join back) stop := by
  cases back with
  | nil => exact tiles
  | cons t back =>
    rw [Segment.join]
    split
    · exact tiles
    · obtain ⟨first, positive, next, _, tiles⟩ := tiles
      have whole : ({ s with size := s.size + t.size } : Segment α).stop = t.stop := by
        simp only [Segment.stop] at next ⊢
        omega
      refine ⟨first, by simp only; omega, ?_⟩
      rw [whole]
      exact tiles

end Tiles

/-! ## Taking -/

/-- The first free segment that is large enough is split, and nothing else changes. -/
theorem Layout.takeFirst_inversion {size offset : Nat} {segments changed : List (Segment α)}
    (taken : takeFirst size segments = some (offset, changed)) :
    ∃ front s back, segments = front ++ s :: back ∧ s.used = false ∧ size ≤ s.size ∧
      (∀ t ∈ front, t.used = false → t.size < size) ∧ s.offset = offset ∧
      changed = front ++ s.take size ++ back := by
  induction segments generalizing changed with
  | nil => simp [takeFirst] at taken
  | cons t rest ih =>
    rw [takeFirst] at taken
    split at taken
    · rename_i suits
      obtain ⟨rfl, rfl⟩ : t.offset = offset ∧ t.take size ++ rest = changed := by simpa using taken
      simp only [Bool.and_eq_true, Bool.not_eq_true', decide_eq_true_eq] at suits
      exact ⟨[], t, rest, rfl, suits.1, suits.2, by simp, rfl, rfl⟩
    · rename_i unsuited
      obtain ⟨⟨found, others⟩, deeper, same⟩ := Option.map_eq_some_iff.mp taken
      obtain ⟨rfl, rfl⟩ : found = offset ∧ t :: others = changed := by simpa using same
      obtain ⟨front, s, back, rfl, free, fits, small, starts, rfl⟩ := ih deeper
      refine ⟨t :: front, s, back, rfl, free, fits, ?_, starts, rfl⟩
      exact List.forall_mem_cons.mpr ⟨fun here => by simpa [here] using unsuited, small⟩

theorem Layout.takeFirst_eq_none {size : Nat} {segments : List (Segment α)} :
    takeFirst size segments = none ↔ ∀ s ∈ segments, s.used = false → s.size < size := by
  induction segments with
  | nil => simp [takeFirst]
  | cons s rest ih =>
    rw [takeFirst, List.forall_mem_cons, ← ih]
    split
    · rename_i suits
      simp only [Bool.and_eq_true, Bool.not_eq_true', decide_eq_true_eq] at suits
      exact iff_of_false nofun fun small => absurd (small.1 suits.1) (Nat.not_lt.mpr suits.2)
    · rename_i unsuited
      rw [Option.map_eq_none_iff, and_iff_right]
      exact fun here => by simpa [here] using unsuited

theorem Segment.filter_used_take (s : Segment α) (size : Nat) (fits : size ≤ s.size) :
    (s.take size).filter (·.used) = [⟨s.offset, size, true, s.payload⟩] := by
  unfold take
  split
  · simp [free]
  · have : size = s.size := by omega
    simp [this]

theorem Segment.filter_used_split {front back : List (Segment α)} {s : Segment α} {size : Nat}
    (free : s.used = false) (fits : size ≤ s.size) :
    ((front ++ s.take size ++ back).filter (·.used)).Perm
      (⟨s.offset, size, true, s.payload⟩ :: (front ++ s :: back).filter (·.used)) := by
  simp only [List.filter_append, s.filter_used_take size fits, List.filter_cons, free]
  simp

theorem Layout.allocate_inversion {l changed : Layout α} {size offset : Nat}
    (taken : l.allocate size = .ok (offset, changed)) :
    0 < size ∧ ∃ front s back, l.segments = front ++ s :: back ∧ s.used = false ∧ size ≤ s.size ∧
      (∀ t ∈ front, t.used = false → t.size < size) ∧ s.offset = offset ∧
      changed = ⟨front ++ s.take size ++ back, l.arenaSize⟩ := by
  unfold allocate at taken
  split at taken
  · cases taken
  rename_i positive
  split at taken
  · cases taken
  rename_i deeper
  obtain ⟨rfl, rfl⟩ := Prod.mk.inj (Except.ok.inj taken)
  obtain ⟨front, s, back, whole, free, fits, small, starts, rfl⟩ := takeFirst_inversion deeper
  exact ⟨Nat.pos_of_ne_zero positive, front, s, back, whole, free, fits, small, starts, rfl⟩

/-! ## Giving back -/

def Segment.released (s : Segment α) : Segment α := { s with used := false, payload := none }

theorem Segment.filter_used_join (s : Segment α) (rest : List (Segment α)) :
    (s.join rest).filter (·.used) = (s :: rest).filter (·.used) := by
  cases rest with
  | nil => rfl
  | cons t rest =>
    rw [join]
    split
    · rfl
    · rename_i free
      simp only [Bool.or_eq_true, not_or, Bool.not_eq_true] at free
      simp [free.1, free.2]

theorem Clean.join {s : Segment α} {rest : List (Segment α)} (clean : Clean (s :: rest)) :
    Clean (s.join rest) := by
  cases rest with
  | nil => exact clean
  | cons u rest =>
    rw [Segment.join]
    split
    · exact clean
    · rename_i free
      simp only [Bool.or_eq_true, not_or, Bool.not_eq_true] at free
      obtain ⟨head, others⟩ := List.forall_mem_cons.mp clean
      exact List.forall_mem_cons.mpr
        ⟨fun _ => head free.1, (List.forall_mem_cons.mp others).2⟩

/-- Giving back releases the segment that starts there. Each segment in front of it is joined to
what follows once more. -/
theorem Layout.giveBack_split {front back : List (Segment α)} {s : Segment α}
    (elsewhere : ∀ t ∈ front, t.offset ≠ s.offset) (used : s.used = true) :
    giveBack s.offset (front ++ s :: back) =
      .ok (s.payload, front.foldr Segment.join (s.released.join back)) := by
  induction front with
  | nil => simp [giveBack, used, Segment.released]
  | cons t front ih =>
    have here : t.offset ≠ s.offset := elsewhere t (by simp)
    simp only [List.cons_append, giveBack, here, if_false, List.foldr_cons]
    rw [ih fun u member => elsewhere u (by simp [member])]

theorem Segment.filter_used_foldr_join (front rest : List (Segment α)) :
    (front.foldr join rest).filter (·.used) = (front ++ rest).filter (·.used) := by
  induction front with
  | nil => rfl
  | cons t front ih =>
    rw [List.foldr_cons, filter_used_join, List.filter_cons, ih, List.cons_append,
      List.filter_cons]

theorem Tiles.foldr_join {start stop : Nat} {front rest : List (Segment α)}
    (tiles : Tiles start (front ++ rest) stop) :
    Tiles start (front.foldr Segment.join rest) stop := by
  induction front generalizing start with
  | nil => exact tiles
  | cons t front ih =>
    obtain ⟨first, positive, tiles⟩ := tiles
    exact Tiles.join ⟨first, positive, ih tiles⟩

theorem Clean.foldr_join {front rest : List (Segment α)} (clean : Clean (front ++ rest)) :
    Clean (front.foldr Segment.join rest) := by
  induction front with
  | nil => exact clean
  | cons t front ih =>
    obtain ⟨head, clean⟩ := List.forall_mem_cons.mp clean
    exact Clean.join (List.forall_mem_cons.mpr ⟨head, ih clean⟩)

/-! ## Sound layouts -/

namespace Layout

variable {l changed : Layout α} {offset size : Nat} {s : Segment α}

structure Sound (l : Layout α) : Prop where
  tiles : Tiles 0 l.segments l.arenaSize
  clean : Clean l.segments

def allocations (l : Layout α) : List (Segment α) := l.segments.filter (·.used)

theorem mem_allocations : s ∈ l.allocations ↔ s ∈ l.segments ∧ s.used = true := by
  simp [allocations]

/-- No used segment covers the address. -/
def FreeAt (l : Layout α) (address : Nat) : Prop :=
  ∀ s ∈ l.allocations, ¬ (s.offset ≤ address ∧ address < s.stop)

theorem Sound.within (sound : l.Sound) (member : s ∈ l.allocations) :
    0 < s.size ∧ s.stop ≤ l.arenaSize :=
  (sound.tiles.within (mem_allocations.mp member).1).2

theorem Sound.nodup (sound : l.Sound) : (l.allocations.map (·.offset)).Nodup :=
  sound.tiles.nodup.sublist ((List.filter_sublist).map _)

theorem Sound.eq_of_offset {t : Segment α} (sound : l.Sound) (inS : s ∈ l.allocations)
    (inT : t ∈ l.allocations) (same : s.offset = t.offset) : s = t :=
  List.inj_on_of_nodup_map sound.nodup inS inT same

/-- Two allocations never share a byte. -/
theorem Sound.disjoint {t : Segment α} (sound : l.Sound) (inS : s ∈ l.allocations)
    (inT : t ∈ l.allocations) (differ : s.offset ≠ t.offset) :
    s.stop ≤ t.offset ∨ t.stop ≤ s.offset := by
  have ordered := sound.tiles.ordered.sublist (List.filter_sublist (p := (·.used)))
  have either := List.Pairwise.forall_of_forall_of_flip (l := l.allocations)
    (R := fun s t => s.offset ≠ t.offset → s.stop ≤ t.offset ∨ t.stop ≤ s.offset)
    (fun s _ differ => absurd rfl differ) (ordered.imp fun before _ => .inl before)
    (ordered.imp fun before _ => .inr before)
  exact either inS inT differ

theorem start_sound {arenaSize : Nat} (positive : 0 < arenaSize) :
    (start arenaSize : Layout α).Sound where
  tiles := ⟨rfl, positive, Nat.zero_add arenaSize⟩
  clean := by simp [start, Clean, Segment.free]

theorem start_allocations (arenaSize : Nat) : (start arenaSize : Layout α).allocations = [] := rfl

/-! ## The segment at an offset -/

theorem Sound.split (sound : l.Sound) (member : s ∈ l.segments) :
    ∃ front back, l.segments = front ++ s :: back ∧ (∀ t ∈ front, t.offset ≠ s.offset) ∧
      ∀ t ∈ back, t.offset ≠ s.offset := by
  obtain ⟨front, back, whole⟩ := List.append_of_mem member
  have distinct := sound.tiles.nodup
  rw [whole, List.map_append, List.map_cons, List.nodup_middle, List.nodup_cons,
    ← List.map_append] at distinct
  refine ⟨front, back, whole, ?_, ?_⟩
  · intro t inside same
    exact distinct.1 (List.mem_map.mpr ⟨t, by simp [inside], same⟩)
  · intro t inside same
    exact distinct.1 (List.mem_map.mpr ⟨t, by simp [inside], same⟩)

theorem Sound.find?_of_mem (sound : l.Sound) (member : s ∈ l.segments) :
    l.find? s.offset = some s := by
  obtain ⟨front, back, whole, elsewhere, -⟩ := sound.split member
  rw [find?, whole, List.find?_append, List.find?_eq_none.mpr (by simpa using elsewhere)]
  simp

theorem mem_of_find? (found : l.find? offset = some s) : s ∈ l.segments ∧ s.offset = offset :=
  ⟨List.mem_of_find?_eq_some found, by simpa using List.find?_some found⟩

/-! ## What the operations do to the allocations -/

theorem allocate_spec (sound : l.Sound) (taken : l.allocate size = .ok (offset, changed)) :
    changed.Sound ∧ changed.arenaSize = l.arenaSize ∧
      changed.allocations.Perm (⟨offset, size, true, none⟩ :: l.allocations) := by
  obtain ⟨positive, front, s, back, whole, free, fits, -, rfl, rfl⟩ := allocate_inversion taken
  obtain ⟨tiles, clean⟩ := sound
  rw [whole] at tiles clean
  obtain ⟨inFront, clean⟩ := List.forall_mem_append.mp clean
  obtain ⟨here, inBack⟩ := List.forall_mem_cons.mp clean
  have bare : s.payload = none := here free
  refine ⟨⟨?_, ?_⟩, rfl, ?_⟩
  · rw [List.append_assoc]
    exact tiles.replace fun _ right => right.take positive fits
  · rw [List.append_assoc]
    refine List.forall_mem_append.mpr ⟨inFront, List.forall_mem_append.mpr ⟨?_, inBack⟩⟩
    unfold Segment.take
    split <;> simp [bare, Segment.free]
  · rw [allocations, allocations, whole, ← bare]
    exact Segment.filter_used_split free fits

theorem allocate_error {e : Error} (failed : l.allocate size = .error e) :
    e = .zeroSize ∨ e = .outOfMemory size l.largestFree := by
  unfold allocate at failed
  split at failed
  · exact .inl (Except.error.inj failed).symm
  · split at failed
    · exact .inr (Except.error.inj failed).symm
    · cases failed

theorem deallocate_spec (sound : l.Sound) (member : s ∈ l.allocations) :
    ∃ changed, l.deallocate s.offset = .ok (s.payload, changed) ∧ changed.Sound ∧
      changed.arenaSize = l.arenaSize ∧ l.allocations.Perm (s :: changed.allocations) := by
  obtain ⟨inside, used⟩ := mem_allocations.mp member
  obtain ⟨front, back, whole, elsewhere, -⟩ := sound.split inside
  obtain ⟨tiles, clean⟩ := sound
  rw [whole] at tiles clean
  obtain ⟨inFront, clean⟩ := List.forall_mem_append.mp clean
  obtain ⟨-, inBack⟩ := List.forall_mem_cons.mp clean
  have bare : Clean (s.released :: back) := List.forall_mem_cons.mpr ⟨fun _ => rfl, inBack⟩
  refine ⟨⟨front.foldr Segment.join (s.released.join back), l.arenaSize⟩, ?_, ⟨?_, ?_⟩, rfl, ?_⟩
  · rw [deallocate, whole, giveBack_split elsewhere used]
  · exact Tiles.foldr_join (tiles.replace fun _ right => Tiles.join (s := s.released) right)
  · exact Clean.foldr_join (List.forall_mem_append.mpr ⟨inFront, bare.join⟩)
  · simp only [allocations, whole, Segment.filter_used_foldr_join, List.filter_append,
      Segment.filter_used_join, List.filter_cons, used]
    simp [Segment.released]

theorem setPayload_segments {front back : List (Segment α)}
    (whole : l.segments = front ++ s :: back)
    (before : ∀ t ∈ front, t.offset ≠ s.offset) (behind : ∀ t ∈ back, t.offset ≠ s.offset)
    (payload : Option α) : (l.setPayload s.offset payload).segments =
      front ++ { s with payload := payload } :: back := by
  have kept : ∀ others : List (Segment α), (∀ t ∈ others, t.offset ≠ s.offset) →
      others.map (fun t => if t.offset = s.offset then { t with payload := payload } else t) =
        others := by
    intro others elsewhere
    rw [List.map_congr_left fun t member => if_neg (elsewhere t member), List.map_id']
  simp only [setPayload, whole, List.map_append, List.map_cons, if_true]
  rw [kept front before, kept back behind]

theorem setPayload_spec (sound : l.Sound) (member : s ∈ l.allocations) (payload : Option α) :
    (l.setPayload s.offset payload).Sound ∧ ∃ others, l.allocations.Perm (s :: others) ∧
      (l.setPayload s.offset payload).allocations.Perm
        ({ s with payload := payload } :: others) := by
  obtain ⟨inside, used⟩ := mem_allocations.mp member
  obtain ⟨front, back, whole, before, behind⟩ := sound.split inside
  obtain ⟨tiles, clean⟩ := sound
  have changed := setPayload_segments whole before behind payload
  rw [whole] at tiles clean
  obtain ⟨inFront, clean⟩ := List.forall_mem_append.mp clean
  obtain ⟨-, inBack⟩ := List.forall_mem_cons.mp clean
  refine ⟨⟨?_, ?_⟩, (front ++ back).filter (·.used), ?_, ?_⟩
  · rw [changed]
    exact tiles.replace fun _ right => right
  · rw [changed]
    refine List.forall_mem_append.mpr ⟨inFront, List.forall_mem_cons.mpr ⟨?_, inBack⟩⟩
    simp [used]
  · simp only [allocations, whole, List.filter_append, List.filter_cons, used]
    simp
  · simp only [allocations, changed, List.filter_append, List.filter_cons, used]
    simp

/-- A payload for the segment that was just taken. -/
theorem allocate_attach (sound : l.Sound) (taken : l.allocate size = .ok (offset, changed))
    (payload : α) :
    ∃ last, changed.attach offset payload = some (none, last) ∧ last.Sound ∧
      last.arenaSize = l.arenaSize ∧
      last.allocations.Perm (⟨offset, size, true, some payload⟩ :: l.allocations) := by
  obtain ⟨soundChanged, sameSize, perm⟩ := allocate_spec sound taken
  have fresh : ⟨offset, size, true, none⟩ ∈ changed.allocations := perm.mem_iff.mpr (by simp)
  have found := soundChanged.find?_of_mem (mem_allocations.mp fresh).1
  obtain ⟨soundLast, others, before, after⟩ := setPayload_spec soundChanged fresh (some payload)
  have rest : others.Perm l.allocations := (before.symm.trans perm).cons_inv
  refine ⟨changed.setPayload offset (some payload), ?_, soundLast, sameSize, ?_⟩
  · simp only [attach]
    rw [show changed.find? offset = some ⟨offset, size, true, none⟩ from found]
    rfl
  · exact after.trans (rest.cons _)

/-- Giving a segment back after its payload was taken away. -/
theorem detach_deallocate (sound : l.Sound) (member : s ∈ l.allocations) :
    ∃ bare last, l.detach s.offset = some (s.payload, bare) ∧
      bare.deallocate s.offset = .ok (none, last) ∧ last.Sound ∧
      last.arenaSize = l.arenaSize ∧ l.allocations.Perm (s :: last.allocations) := by
  have found := sound.find?_of_mem (mem_allocations.mp member).1
  obtain ⟨soundBare, others, before, after⟩ := setPayload_spec sound member none
  have inBare : { s with payload := none } ∈ (l.setPayload s.offset none).allocations :=
    after.mem_iff.mpr (by simp)
  obtain ⟨last, freed, soundLast, sameSize, perm⟩ := deallocate_spec soundBare inBare
  have rest : others.Perm last.allocations := (after.symm.trans perm).cons_inv
  refine ⟨l.setPayload s.offset none, last, ?_, freed, soundLast, sameSize, ?_⟩
  · simp [detach, found]
  · exact before.trans (rest.cons s)

end Layout

end PolicyVault.Memory
