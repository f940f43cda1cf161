/-!
# Texts cut at a mark
-/

namespace PolicyVault.Text

/-- The parts of a text between the marks. There is always one part more than there are marks. -/
def cutAt (mark : Char) : List Char → List (List Char)
  | [] => [[]]
  | c :: rest =>
    if c = mark then [] :: cutAt mark rest
    else
      match cutAt mark rest with
      | [] => [[c]]
      | part :: parts => (c :: part) :: parts

/-- A text has one part more than marks. -/
theorem length_cutAt (mark : Char) (text : List Char) :
    (cutAt mark text).length = text.count mark + 1 := by
  induction text with
  | nil => rfl
  | cons c rest ih =>
    unfold cutAt
    split
    · rename_i h
      subst h
      simp [ih]
    · rename_i h
      split
      · rename_i empty
        rw [empty] at ih
        simp at ih
      · rename_i part parts cut
        rw [cut] at ih
        simp only [List.length_cons] at ih ⊢
        rw [ih, List.count_cons_of_ne h]

variable {mark : Char} {text part rest : List Char}

theorem cutAt_unmarked (unmarked : mark ∉ part) : cutAt mark part = [part] := by
  induction part with
  | nil => rfl
  | cons c part ih =>
    have differ : c ≠ mark := (List.ne_of_not_mem_cons unmarked).symm
    rw [cutAt, if_neg differ, ih (List.not_mem_of_not_mem_cons unmarked)]

theorem cutAt_mark (unmarked : mark ∉ part) :
    cutAt mark (part ++ mark :: rest) = part :: cutAt mark rest := by
  induction part with
  | nil => rw [List.nil_append, cutAt, if_pos rfl]
  | cons c part ih =>
    have differ : c ≠ mark := (List.ne_of_not_mem_cons unmarked).symm
    rw [List.cons_append, cutAt, if_neg differ, ih (List.not_mem_of_not_mem_cons unmarked)]

theorem cutAt_terminated {parts : List (List Char)} (unmarked : ∀ part ∈ parts, mark ∉ part)
    (last : mark ∉ rest) :
    cutAt mark (parts.flatMap (· ++ [mark]) ++ rest) = parts ++ [rest] := by
  induction parts with
  | nil => exact cutAt_unmarked last
  | cons part parts ih =>
    obtain ⟨first, others⟩ := List.forall_mem_cons.mp unmarked
    have shape : (part :: parts).flatMap (· ++ [mark]) ++ rest =
        part ++ mark :: (parts.flatMap (· ++ [mark]) ++ rest) := by
      simp
    rw [shape, cutAt_mark first, ih others, List.cons_append]

theorem cutAt_parts {parts : List (List Char)} (nonempty : parts ≠ [])
    (unmarked : ∀ part ∈ parts, mark ∉ part) :
    ∃ text, parts.flatMap (· ++ [mark]) = text ++ [mark] ∧ cutAt mark text = parts := by
  have split := List.dropLast_concat_getLast nonempty
  rw [← split] at unmarked ⊢
  obtain ⟨front, last⟩ := List.forall_mem_append.mp unmarked
  refine ⟨parts.dropLast.flatMap (· ++ [mark]) ++ parts.getLast nonempty, by simp, ?_⟩
  exact cutAt_terminated front (last _ (List.mem_singleton_self _))

/-- A part holds no mark, and no character that the text does not hold. -/
theorem mem_cutAt (member : part ∈ cutAt mark text) : mark ∉ part ∧ ∀ c ∈ part, c ∈ text := by
  induction text generalizing part with
  | nil =>
    obtain rfl := List.mem_singleton.mp member
    simp
  | cons c text ih =>
    unfold cutAt at member
    split at member
    · rcases List.mem_cons.mp member with rfl | later
      · simp
      · exact ⟨(ih later).1, fun d inPart => List.mem_cons_of_mem _ ((ih later).2 d inPart)⟩
    · rename_i differ
      split at member
      · obtain rfl := List.mem_singleton.mp member
        simpa using Ne.symm differ
      · rename_i first parts cut
        rcases List.mem_cons.mp member with rfl | later
        · obtain ⟨unmarked, within⟩ := ih (cut ▸ List.mem_cons_self)
          refine ⟨List.not_mem_cons_of_ne_of_not_mem (Ne.symm differ) unmarked, ?_⟩
          exact List.forall_mem_cons.mpr
            ⟨List.mem_cons_self, fun d inPart => List.mem_cons_of_mem _ (within d inPart)⟩
        · obtain ⟨unmarked, within⟩ := ih (cut ▸ List.mem_cons_of_mem _ later)
          exact ⟨unmarked, fun d inPart => List.mem_cons_of_mem _ (within d inPart)⟩

/-- A mark behind an unmarked part is the one that ends the part, or a later one. -/
theorem mark_after {α : Type} {mark : α} {part tail front back : List α} (unmarked : mark ∉ part)
    (same : part ++ mark :: tail = front ++ mark :: back) :
    back = tail ∨ ∃ more, tail = more ++ mark :: back := by
  induction part generalizing front with
  | nil =>
    cases front with
    | nil => exact .inl (List.cons.inj same).2.symm
    | cons c front => exact .inr ⟨front, (List.cons.inj same).2⟩
  | cons c part ih =>
    cases front with
    | nil => exact absurd (List.cons.inj same).1.symm (List.ne_of_not_mem_cons unmarked)
    | cons d front => exact ih (List.not_mem_of_not_mem_cons unmarked) (List.cons.inj same).2

/-- If no part is empty, two marks follow one another at the end only. -/
theorem double_mark_last {α : Type} {mark : α} {parts : List (List α)}
    (solid : ∀ part ∈ parts, part ≠ [] ∧ mark ∉ part) {front back : List α}
    (double : parts.flatMap (· ++ [mark]) ++ [mark] = front ++ mark :: mark :: back) :
    back = [] := by
  induction parts generalizing front with
  | nil =>
    have lengths := congrArg List.length double
    simp at lengths
    omega
  | cons part parts ih =>
    obtain ⟨⟨-, unmarked⟩, others⟩ := List.forall_mem_cons.mp solid
    have shape : (part :: parts).flatMap (· ++ [mark]) ++ [mark] =
        part ++ mark :: (parts.flatMap (· ++ [mark]) ++ [mark]) := by
      simp
    rw [shape] at double
    rcases mark_after unmarked double with same | ⟨more, later⟩
    · cases parts with
      | nil => exact (List.cons.inj same).2
      | cons next parts =>
        -- The second mark would be the first character of the next part.
        obtain ⟨⟨nonempty, bare⟩, -⟩ := List.forall_mem_cons.mp others
        obtain ⟨c, next, rfl⟩ := List.exists_cons_of_ne_nil nonempty
        obtain ⟨rfl, -⟩ := List.cons.inj same
        exact absurd List.mem_cons_self bare
    · exact ih others later

end PolicyVault.Text
