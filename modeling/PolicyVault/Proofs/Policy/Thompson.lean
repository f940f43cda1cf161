import PolicyVault.Proofs.Policy.Paths

/-!
# The automaton of an expression

`ofExpr_accepts`: the automaton of an expression reads exactly the words of the expression, and
`ofExpr_reaches_accept`: each of its states has a way to the accepting one.

A fragment is judged by the words that lead from each of its states to its accepting state
(`Residual`). An edge carries the residual words of its target to its source, so that no path has
to be taken apart.
-/

namespace PolicyVault.Policy

def Label.word : Label → List UInt8
  | .empty => []
  | .symbol b => [b]

namespace Nfa

/-! ## Edges given by arcs -/

theorem size_addArcs (arcs : List Arc) (edges : Array (List (Label × Nat))) :
    (arcs.foldl (fun edges arc => edges.modify arc.source ((arc.label, arc.target) :: ·))
      edges).size = edges.size := by
  induction arcs generalizing edges with
  | nil => rfl
  | cons arc arcs ih => rw [List.foldl_cons, ih, Array.size_modify]

theorem mem_addArc (edges : Array (List (Label × Nat))) (source s : Nat) (edge new : Label × Nat) :
    edge ∈ (edges.modify source (new :: ·)).getD s [] ↔
      edge ∈ edges.getD s [] ∨ (s < edges.size ∧ source = s ∧ edge = new) := by
  simp only [Array.getD_eq_getD_getElem?, Array.getElem?_modify]
  by_cases bound : s < edges.size
  · by_cases same : source = s
    · simp [same, bound, or_comm]
    · simp [same, bound]
  · simp [bound]

theorem mem_addArcs (arcs : List Arc) (edges : Array (List (Label × Nat))) (s : Nat)
    (l : Label) (t : Nat) :
    (l, t) ∈ (arcs.foldl (fun edges arc => edges.modify arc.source ((arc.label, arc.target) :: ·))
      edges).getD s [] ↔
      (l, t) ∈ edges.getD s [] ∨ (s < edges.size ∧ (⟨s, l, t⟩ : Arc) ∈ arcs) := by
  induction arcs generalizing edges with
  | nil => simp
  | cons arc arcs ih =>
    obtain ⟨source, label, target⟩ := arc
    rw [List.foldl_cons, ih, mem_addArc, Array.size_modify]
    simp only [Prod.mk.injEq, List.mem_cons, Arc.mk.injEq]
    grind

theorem ofArcs_edge {size start accept : Nat} {arcs : List Arc} {s t : Nat} {l : Label} :
    (ofArcs size start accept arcs).Edge s l t ↔ s < size ∧ (⟨s, l, t⟩ : Arc) ∈ arcs := by
  have empty : (Array.replicate size ([] : List (Label × Nat))).getD s [] = [] := by
    simp only [Array.getD_eq_getD_getElem?, Array.getElem?_replicate]
    split <;> rfl
  unfold Edge outgoing ofArcs
  rw [mem_addArcs, empty, Array.size_replicate]
  simp

@[simp] theorem size_ofArcs (size start accept : Nat) (arcs : List Arc) :
    (ofArcs size start accept arcs).edges.size = size := by
  unfold ofArcs
  rw [size_addArcs, Array.size_replicate]

/-! ## The states of a fragment -/

/-- The states of the fragment of `e` numbered from `base` on. -/
def Inside (e : Expr) (base s : Nat) : Prop :=
  base ≤ s ∧ s < base + stateCount e

theorem fragment_start_inside (e : Expr) (base : Nat) : Inside e base (fragment e base).start := by
  induction e generalizing base with
  | concat l r ihl ihr =>
    have := ihl base
    simp only [Inside, fragment, stateCount] at this ⊢
    omega
  | _ => simp only [Inside, fragment, stateCount]; omega

theorem fragment_accept_inside (e : Expr) (base : Nat) :
    Inside e base (fragment e base).accept := by
  induction e generalizing base with
  | concat l r ihl ihr =>
    have := ihr (base + stateCount l)
    simp only [Inside, fragment, stateCount] at this ⊢
    omega
  | _ => simp only [Inside, fragment, stateCount]; omega

section Parts

variable {l r e : Expr} {base s : Nat}

theorem inside_symbol {b : UInt8} : Inside (.symbol b) base s ↔ s = base ∨ s = base + 1 := by
  simp only [Inside, stateCount]
  omega

theorem inside_concat : Inside (.concat l r) base s ↔
    Inside l base s ∨ Inside r (base + stateCount l) s := by
  simp only [Inside, stateCount]
  omega

theorem inside_either : Inside (.either l r) base s ↔
    Inside l base s ∨ Inside r (base + stateCount l) s ∨
      s = base + stateCount l + stateCount r ∨ s = base + stateCount l + stateCount r + 1 := by
  simp only [Inside, stateCount]
  omega

theorem inside_star : Inside (.star e) base s ↔
    Inside e base s ∨ s = base + stateCount e ∨ s = base + stateCount e + 1 := by
  simp only [Inside, stateCount]
  omega

theorem inside_optional : Inside (.optional e) base s ↔
    Inside e base s ∨ s = base + stateCount e ∨ s = base + stateCount e + 1 := by
  simp only [Inside, stateCount]
  omega

end Parts

theorem fragment_arcs_inside {e : Expr} {base : Nat} {arc : Arc}
    (member : arc ∈ (fragment e base).arcs) :
    Inside e base arc.source ∧ Inside e base arc.target := by
  induction e generalizing base with
  | symbol b =>
    simp only [fragment, List.mem_singleton] at member
    subst member
    simp only [Inside, stateCount]
    omega
  | concat l r ihl ihr =>
    have left := fragment_accept_inside l base
    have right := fragment_start_inside r (base + stateCount l)
    simp only [fragment, List.cons_append, List.mem_cons, List.mem_append] at member
    simp only [Inside, stateCount] at *
    rcases member with rfl | member | member
    · dsimp only
      omega
    · have := ihl member
      omega
    · have := ihr member
      omega
  | either l r ihl ihr =>
    have leftStart := fragment_start_inside l base
    have leftAccept := fragment_accept_inside l base
    have rightStart := fragment_start_inside r (base + stateCount l)
    have rightAccept := fragment_accept_inside r (base + stateCount l)
    simp only [fragment, List.cons_append, List.mem_cons, List.mem_append] at member
    simp only [Inside, stateCount] at *
    rcases member with rfl | rfl | rfl | rfl | member | member
    · dsimp only; omega
    · dsimp only; omega
    · dsimp only; omega
    · dsimp only; omega
    · have := ihl member
      omega
    · have := ihr member
      omega
  | star e ih =>
    have start := fragment_start_inside e base
    have accept := fragment_accept_inside e base
    simp only [fragment, List.mem_cons] at member
    simp only [Inside, stateCount] at *
    rcases member with rfl | rfl | rfl | rfl | member
    · dsimp only; omega
    · dsimp only; omega
    · dsimp only; omega
    · dsimp only; omega
    · have := ih member
      omega
  | optional e ih =>
    have start := fragment_start_inside e base
    have accept := fragment_accept_inside e base
    simp only [fragment, List.mem_cons] at member
    simp only [Inside, stateCount] at *
    rcases member with rfl | rfl | rfl | member
    · dsimp only; omega
    · dsimp only; omega
    · dsimp only; omega
    · have := ih member
      omega

/-! ## Paths read words of the expression -/

/-- The words that lead from a state of a fragment to its accepting state. -/
def Residual : Expr → Nat → Nat → List UInt8 → Prop
  | .symbol b, base, s, w => (s = base ∧ w = [b]) ∨ (s = base + 1 ∧ w = [])
  | .concat l r, base, s, w =>
    if s < base + stateCount l then ∃ u v, w = u ++ v ∧ Residual l base s u ∧ r.Matches v
    else Residual r (base + stateCount l) s w
  | .either l r, base, s, w =>
    if s < base + stateCount l then Residual l base s w
    else if s < base + stateCount l + stateCount r then Residual r (base + stateCount l) s w
    else if s = base + stateCount l + stateCount r then (Expr.either l r).Matches w
    else w = []
  | .star e, base, s, w =>
    if s < base + stateCount e then
      ∃ u v, w = u ++ v ∧ Residual e base s u ∧ (Expr.star e).Matches v
    else if s = base + stateCount e then (Expr.star e).Matches w
    else w = []
  | .optional e, base, s, w =>
    if s < base + stateCount e then Residual e base s w
    else if s = base + stateCount e then (Expr.optional e).Matches w
    else w = []

section Regions

variable {l r e : Expr} {base s : Nat} {w : List UInt8}

theorem residual_concat_left (inside : Inside l base s) : Residual (.concat l r) base s w ↔
    ∃ u v, w = u ++ v ∧ Residual l base s u ∧ r.Matches v := by
  simp only [Residual, inside.2, if_true]

theorem residual_concat_right (inside : Inside r (base + stateCount l) s) :
    Residual (.concat l r) base s w ↔ Residual r (base + stateCount l) s w := by
  simp only [Residual, Nat.not_lt.mpr inside.1, if_false]

theorem residual_either_left (inside : Inside l base s) :
    Residual (.either l r) base s w ↔ Residual l base s w := by
  simp only [Residual, inside.2, if_true]

theorem residual_either_right (inside : Inside r (base + stateCount l) s) :
    Residual (.either l r) base s w ↔ Residual r (base + stateCount l) s w := by
  simp only [Residual, Nat.not_lt.mpr inside.1, inside.2, if_true, if_false]

theorem residual_either_start : Residual (.either l r) base (base + stateCount l + stateCount r) w ↔
    (Expr.either l r).Matches w := by
  rw [Residual, if_neg (by omega), if_neg (by omega), if_pos rfl]

theorem residual_either_accept :
    Residual (.either l r) base (base + stateCount l + stateCount r + 1) w ↔ w = [] := by
  rw [Residual, if_neg (by omega), if_neg (by omega), if_neg (by omega)]

theorem residual_star_body (inside : Inside e base s) : Residual (.star e) base s w ↔
    ∃ u v, w = u ++ v ∧ Residual e base s u ∧ (Expr.star e).Matches v := by
  simp only [Residual, inside.2, if_true]

theorem residual_star_start :
    Residual (.star e) base (base + stateCount e) w ↔ (Expr.star e).Matches w := by
  rw [Residual, if_neg (by omega), if_pos rfl]

theorem residual_star_accept : Residual (.star e) base (base + stateCount e + 1) w ↔ w = [] := by
  rw [Residual, if_neg (by omega), if_neg (by omega)]

theorem residual_optional_body (inside : Inside e base s) :
    Residual (.optional e) base s w ↔ Residual e base s w := by
  simp only [Residual, inside.2, if_true]

theorem residual_optional_start :
    Residual (.optional e) base (base + stateCount e) w ↔ (Expr.optional e).Matches w := by
  rw [Residual, if_neg (by omega), if_pos rfl]

theorem residual_optional_accept :
    Residual (.optional e) base (base + stateCount e + 1) w ↔ w = [] := by
  rw [Residual, if_neg (by omega), if_neg (by omega)]

end Regions

theorem residual_accept (e : Expr) (base : Nat) : Residual e base (fragment e base).accept [] := by
  induction e generalizing base with
  | symbol b => exact .inr ⟨rfl, rfl⟩
  | concat l r ihl ihr =>
    exact (residual_concat_right (fragment_accept_inside r _)).mpr (ihr (base + stateCount l))
  | either l r => exact residual_either_accept.mpr rfl
  | star e => exact residual_star_accept.mpr rfl
  | optional e => exact residual_optional_accept.mpr rfl

theorem matches_of_residual_start {e : Expr} {base : Nat} {w : List UInt8}
    (residual : Residual e base (fragment e base).start w) : e.Matches w := by
  induction e generalizing base w with
  | symbol b =>
    rcases residual with ⟨_, rfl⟩ | ⟨wrong, _⟩
    · exact .symbol
    · simp only [fragment] at wrong
      omega
  | concat l r ihl ihr =>
    obtain ⟨u, v, rfl, left, right⟩ :=
      (residual_concat_left (fragment_start_inside l base)).mp residual
    exact .concat (ihl left) right
  | either l r => exact residual_either_start.mp residual
  | star e => exact residual_star_start.mp residual
  | optional e => exact residual_optional_start.mp residual

/-- An edge carries the residual words of its target to its source. -/
theorem residual_of_arc {e : Expr} {base : Nat} {arc : Arc} {w : List UInt8}
    (member : arc ∈ (fragment e base).arcs) (residual : Residual e base arc.target w) :
    Residual e base arc.source (arc.label.word ++ w) := by
  induction e generalizing base w with
  | symbol b =>
    simp only [fragment, List.mem_singleton] at member
    subst member
    rcases residual with ⟨wrong, _⟩ | ⟨_, rfl⟩
    · simp at wrong
    · exact .inl ⟨rfl, rfl⟩
  | concat l r ihl ihr =>
    have leftAccept := fragment_accept_inside l base
    have rightStart := fragment_start_inside r (base + stateCount l)
    simp only [fragment, List.cons_append, List.mem_cons, List.mem_append] at member
    rcases member with rfl | member | member
    · have right := matches_of_residual_start ((residual_concat_right rightStart).mp residual)
      exact (residual_concat_left leftAccept).mpr ⟨[], w, rfl, residual_accept l base, right⟩
    · have inside := fragment_arcs_inside member
      obtain ⟨u, v, rfl, first, second⟩ := (residual_concat_left inside.2).mp residual
      refine (residual_concat_left inside.1).mpr
        ⟨arc.label.word ++ u, v, ?_, ihl member first, second⟩
      rw [List.append_assoc]
    · have inside := fragment_arcs_inside member
      exact (residual_concat_right inside.1).mpr
        (ihr member ((residual_concat_right inside.2).mp residual))
  | either l r ihl ihr =>
    have leftStart := fragment_start_inside l base
    have leftAccept := fragment_accept_inside l base
    have rightStart := fragment_start_inside r (base + stateCount l)
    have rightAccept := fragment_accept_inside r (base + stateCount l)
    simp only [fragment, List.cons_append, List.mem_cons, List.mem_append] at member
    rcases member with rfl | rfl | rfl | rfl | member | member
    · have left := matches_of_residual_start ((residual_either_left leftStart).mp residual)
      exact residual_either_start.mpr (.left left)
    · have right := matches_of_residual_start ((residual_either_right rightStart).mp residual)
      exact residual_either_start.mpr (.right right)
    · obtain rfl := residual_either_accept.mp residual
      exact (residual_either_left leftAccept).mpr (residual_accept l base)
    · obtain rfl := residual_either_accept.mp residual
      exact (residual_either_right rightAccept).mpr (residual_accept r _)
    · have inside := fragment_arcs_inside member
      exact (residual_either_left inside.1).mpr
        (ihl member ((residual_either_left inside.2).mp residual))
    · have inside := fragment_arcs_inside member
      exact (residual_either_right inside.1).mpr
        (ihr member ((residual_either_right inside.2).mp residual))
  | star e ih =>
    have start := fragment_start_inside e base
    have accept := fragment_accept_inside e base
    simp only [fragment, List.mem_cons] at member
    -- The edges into the body, past it, back into it, out of it, and within it.
    rcases member with rfl | rfl | rfl | rfl | member
    · obtain ⟨u, v, rfl, first, rest⟩ := (residual_star_body start).mp residual
      have again := Expr.Matches.starMore (matches_of_residual_start first) rest
      exact residual_star_start.mpr again
    · obtain rfl := residual_star_accept.mp residual
      exact residual_star_start.mpr .starNil
    · obtain ⟨u, v, rfl, first, rest⟩ := (residual_star_body start).mp residual
      have again := Expr.Matches.starMore (matches_of_residual_start first) rest
      exact (residual_star_body accept).mpr ⟨[], u ++ v, rfl, residual_accept e base, again⟩
    · obtain rfl := residual_star_accept.mp residual
      exact (residual_star_body accept).mpr ⟨[], [], rfl, residual_accept e base, .starNil⟩
    · have inside := fragment_arcs_inside member
      obtain ⟨u, v, rfl, first, rest⟩ := (residual_star_body inside.2).mp residual
      refine (residual_star_body inside.1).mpr ⟨arc.label.word ++ u, v, ?_, ih member first, rest⟩
      rw [List.append_assoc]
  | optional e ih =>
    have start := fragment_start_inside e base
    have accept := fragment_accept_inside e base
    simp only [fragment, List.mem_cons] at member
    rcases member with rfl | rfl | rfl | member
    · have body := matches_of_residual_start ((residual_optional_body start).mp residual)
      exact residual_optional_start.mpr (.optionalSome body)
    · obtain rfl := residual_optional_accept.mp residual
      exact residual_optional_start.mpr .optionalNil
    · obtain rfl := residual_optional_accept.mp residual
      exact (residual_optional_body accept).mpr (residual_accept e base)
    · have inside := fragment_arcs_inside member
      exact (residual_optional_body inside.1).mpr
        (ih member ((residual_optional_body inside.2).mp residual))

/-! ## Words of the expression are read -/

/-- The edges of a fragment are edges of the automaton. -/
def Holds (m : Nfa) (e : Expr) (base : Nat) : Prop :=
  ∀ arc ∈ (fragment e base).arcs, m.Edge arc.source arc.label arc.target

/-- A repetition is read from each state with empty edges to the body and to the accepting
state. -/
theorem path_of_star {m : Nfa} {e : Expr} {w : List UInt8} {start accept last : Nat}
    (body : ∀ u, e.Matches u → m.Path start u accept)
    (again : m.Edge accept .empty start) (leave : m.Edge accept .empty last)
    (matched : (Expr.star e).Matches w) {s : Nat} (enter : m.Edge s .empty start)
    (skip : m.Edge s .empty last) : m.Path s w last := by
  generalize form : Expr.star e = whole at matched
  induction matched generalizing s with
  | starNil => exact .of_empty skip
  | starMore first _ _ ih =>
    obtain rfl := Expr.star.inj form
    exact .empty enter ((body _ first).trans (ih again leave form))
  | _ => contradiction

theorem path_of_matches {m : Nfa} {e : Expr} {base : Nat} {w : List UInt8}
    (holds : m.Holds e base) (matched : e.Matches w) :
    m.Path (fragment e base).start w (fragment e base).accept := by
  induction e generalizing base w with
  | symbol b =>
    cases matched
    exact .symbol (holds _ (.head _)) .refl
  | concat l r ihl ihr =>
    simp only [Holds, fragment, List.cons_append, List.forall_mem_cons, List.forall_mem_append]
      at holds
    obtain ⟨glue, left, right⟩ := holds
    cases matched with
    | concat first second => exact (ihl left first).trans (.empty glue (ihr right second))
  | either l r ihl ihr =>
    simp only [Holds, fragment, List.cons_append, List.forall_mem_cons, List.forall_mem_append]
      at holds
    obtain ⟨toLeft, toRight, fromLeft, fromRight, left, right⟩ := holds
    cases matched with
    | left first => exact .empty toLeft ((ihl left first).trans_empty fromLeft)
    | right second => exact .empty toRight ((ihr right second).trans_empty fromRight)
  | star e ih =>
    simp only [Holds, fragment, List.forall_mem_cons] at holds
    obtain ⟨enter, skip, again, leave, body⟩ := holds
    exact path_of_star (fun u first => ih body first) again leave matched enter skip
  | optional e ih =>
    simp only [Holds, fragment, List.forall_mem_cons] at holds
    obtain ⟨enter, skip, leave, body⟩ := holds
    cases matched with
    | optionalNil => exact .of_empty skip
    | optionalSome first => exact .empty enter ((ih body first).trans_empty leave)

/-- Each state of a fragment has a way to its accepting state. -/
theorem fragment_reaches_accept {m : Nfa} {e : Expr} {base s : Nat} (holds : m.Holds e base)
    (inside : Inside e base s) : ∃ w, m.Path s w (fragment e base).accept := by
  induction e generalizing base s with
  | symbol b =>
    rcases inside_symbol.mp inside with rfl | rfl
    · exact ⟨[b], .symbol (holds _ (.head _)) .refl⟩
    · exact ⟨[], .refl⟩
  | concat l r ihl ihr =>
    simp only [Holds, fragment, List.cons_append, List.forall_mem_cons, List.forall_mem_append]
      at holds
    obtain ⟨glue, left, right⟩ := holds
    rcases inside_concat.mp inside with first | second
    · obtain ⟨u, before⟩ := ihl left first
      obtain ⟨v, after⟩ := ihr right (fragment_start_inside r _)
      exact ⟨u ++ v, before.trans (.empty glue after)⟩
    · exact ihr right second
  | either l r ihl ihr =>
    simp only [Holds, fragment, List.cons_append, List.forall_mem_cons, List.forall_mem_append]
      at holds
    obtain ⟨toLeft, toRight, fromLeft, fromRight, left, right⟩ := holds
    rcases inside_either.mp inside with first | second | rfl | rfl
    · obtain ⟨w, path⟩ := ihl left first
      exact ⟨w, path.trans_empty fromLeft⟩
    · obtain ⟨w, path⟩ := ihr right second
      exact ⟨w, path.trans_empty fromRight⟩
    · obtain ⟨w, path⟩ := ihl left (fragment_start_inside l base)
      exact ⟨w, .empty toLeft (path.trans_empty fromLeft)⟩
    · exact ⟨[], .refl⟩
  | star e ih =>
    simp only [Holds, fragment, List.forall_mem_cons] at holds
    obtain ⟨_, skip, _, leave, body⟩ := holds
    rcases inside_star.mp inside with within | rfl | rfl
    · obtain ⟨w, path⟩ := ih body within
      exact ⟨w, path.trans_empty leave⟩
    · exact ⟨[], .of_empty skip⟩
    · exact ⟨[], .refl⟩
  | optional e ih =>
    simp only [Holds, fragment, List.forall_mem_cons] at holds
    obtain ⟨_, skip, leave, body⟩ := holds
    rcases inside_optional.mp inside with within | rfl | rfl
    · obtain ⟨w, path⟩ := ih body within
      exact ⟨w, path.trans_empty leave⟩
    · exact ⟨[], .of_empty skip⟩
    · exact ⟨[], .refl⟩

/-! ## The whole automaton -/

theorem ofExpr_edge {e : Expr} {s t : Nat} {l : Label} :
    (ofExpr e).Edge s l t ↔ (⟨s, l, t⟩ : Arc) ∈ (fragment e 0).arcs := by
  unfold ofExpr
  rw [ofArcs_edge, and_iff_right_iff_imp]
  intro member
  simpa using (fragment_arcs_inside member).1.2

@[simp] theorem size_ofExpr (e : Expr) : (ofExpr e).edges.size = stateCount e :=
  size_ofArcs ..

theorem ofExpr_holds (e : Expr) : (ofExpr e).Holds e 0 :=
  fun _ member => ofExpr_edge.mpr member

theorem ofExpr_wellFormed (e : Expr) : (ofExpr e).WellFormed := by
  unfold WellFormed
  rw [size_ofExpr, ← Nat.zero_add (stateCount e)]
  refine ⟨(fragment_start_inside e 0).2, (fragment_accept_inside e 0).2, ?_⟩
  intro source label target edge
  exact (fragment_arcs_inside (ofExpr_edge.mp edge)).2.2

theorem residual_of_path {e : Expr} {s t : Nat} {w v : List UInt8}
    (path : (ofExpr e).Path s w t) (residual : Residual e 0 t v) : Residual e 0 s (w ++ v) := by
  induction path with
  | refl => exact residual
  | empty edge _ ih => exact residual_of_arc (ofExpr_edge.mp edge) (ih residual)
  | symbol edge _ ih => exact residual_of_arc (ofExpr_edge.mp edge) (ih residual)

theorem ofExpr_accepts {e : Expr} {w : List UInt8} : (ofExpr e).Accepts w ↔ e.Matches w := by
  constructor
  · intro path
    have residual := residual_of_path path (residual_accept e 0)
    rw [List.append_nil] at residual
    exact matches_of_residual_start residual
  · exact path_of_matches (ofExpr_holds e)

theorem ofExpr_reaches_accept {e : Expr} {s : Nat} (bound : s < (ofExpr e).edges.size) :
    ∃ w, (ofExpr e).Path s w (ofExpr e).accept :=
  fragment_reaches_accept (ofExpr_holds e) ⟨Nat.zero_le s, by simpa using bound⟩

end Nfa

end PolicyVault.Policy
