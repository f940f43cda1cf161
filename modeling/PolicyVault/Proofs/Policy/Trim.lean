import PolicyVault.Proofs.Policy.Thompson

/-!
# No state to spare

The automaton of an expression has no state that a run from its start cannot come to, and none
that it cannot leave for the accepting state. `fragment_start_reaches` is the first half; the
second is `ofExpr_reaches_accept`.

Main statement: `ofExpr_exact`.
-/

namespace PolicyVault.Policy.Nfa

/-- The start of a fragment has a way to each of its states. -/
theorem fragment_start_reaches {m : Nfa} {e : Expr} {base s : Nat} (holds : m.Holds e base)
    (inside : Inside e base s) : ∃ w, m.Path (fragment e base).start w s := by
  induction e generalizing base s with
  | symbol b =>
    rcases inside_symbol.mp inside with rfl | rfl
    · exact ⟨[], .refl⟩
    · exact ⟨[b], .symbol (holds _ (.head _)) .refl⟩
  | concat l r ihl ihr =>
    simp only [Holds, fragment, List.cons_append, List.forall_mem_cons, List.forall_mem_append]
      at holds
    obtain ⟨glue, left, right⟩ := holds
    rcases inside_concat.mp inside with first | second
    · exact ihl left first
    · obtain ⟨u, before⟩ := ihl left (fragment_accept_inside l base)
      obtain ⟨v, after⟩ := ihr right second
      exact ⟨u ++ v, before.trans (.empty glue after)⟩
  | either l r ihl ihr =>
    simp only [Holds, fragment, List.cons_append, List.forall_mem_cons, List.forall_mem_append]
      at holds
    obtain ⟨toLeft, toRight, fromLeft, _, left, right⟩ := holds
    rcases inside_either.mp inside with first | second | rfl | rfl
    · obtain ⟨w, path⟩ := ihl left first
      exact ⟨w, .empty toLeft path⟩
    · obtain ⟨w, path⟩ := ihr right second
      exact ⟨w, .empty toRight path⟩
    · exact ⟨[], .refl⟩
    · obtain ⟨w, path⟩ := ihl left (fragment_accept_inside l base)
      exact ⟨w, .empty toLeft (path.trans_empty fromLeft)⟩
  | star e ih =>
    simp only [Holds, fragment, List.forall_mem_cons] at holds
    obtain ⟨enter, skip, _, _, body⟩ := holds
    rcases inside_star.mp inside with within | rfl | rfl
    · obtain ⟨w, path⟩ := ih body within
      exact ⟨w, .empty enter path⟩
    · exact ⟨[], .refl⟩
    · exact ⟨[], .of_empty skip⟩
  | optional e ih =>
    simp only [Holds, fragment, List.forall_mem_cons] at holds
    obtain ⟨enter, skip, _, body⟩ := holds
    rcases inside_optional.mp inside with within | rfl | rfl
    · obtain ⟨w, path⟩ := ih body within
      exact ⟨w, .empty enter path⟩
    · exact ⟨[], .refl⟩
    · exact ⟨[], .of_empty skip⟩

theorem ofExpr_start_reaches {e : Expr} {s : Nat} (bound : s < (ofExpr e).edges.size) :
    ∃ w, (ofExpr e).Path (ofExpr e).start w s :=
  fragment_start_reaches (ofExpr_holds e) ⟨Nat.zero_le s, by simpa using bound⟩

/-- The start, the accepting state and all edges of the automaton of an expression stay within its
states, it reads exactly the words of the expression, and each of its states lies on a path from
the start to the accepting state. -/
theorem ofExpr_exact (e : Expr) :
    (ofExpr e).WellFormed ∧
      (∀ w, (ofExpr e).Accepts w ↔ e.Matches w) ∧
      ∀ s < (ofExpr e).edges.size,
        ∃ u v, (ofExpr e).Path (ofExpr e).start u s ∧ (ofExpr e).Path s v (ofExpr e).accept := by
  refine ⟨ofExpr_wellFormed e, fun w => ofExpr_accepts, ?_⟩
  intro s bound
  obtain ⟨u, before⟩ := ofExpr_start_reaches bound
  obtain ⟨v, after⟩ := ofExpr_reaches_accept bound
  exact ⟨u, v, before, after⟩

/-- The accepting state of the body of a repetition within a repetition. -/
theorem ofExpr_exact_nested_star :
    let m := ofExpr (.star (.star (.symbol 0x52)))
    1 < m.edges.size ∧ (∃ u v, m.Path m.start u 1 ∧ m.Path 1 v m.accept) ∧
      m.Accepts [0x52, 0x52] := by
  obtain ⟨-, accepts, trim⟩ := ofExpr_exact (.star (.star (.symbol 0x52)))
  have bound : 1 < (ofExpr (.star (.star (.symbol 0x52)))).edges.size := by decide
  refine ⟨bound, trim 1 bound, (accepts _).mpr ?_⟩
  exact .starMore (u := [0x52, 0x52]) (.starMore .symbol (.starMore .symbol .starNil)) .starNil

end PolicyVault.Policy.Nfa
