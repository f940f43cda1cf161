/-!
# Orders by single exchanges

All orders of the first numbers, each reached from the one before by exchanging two places.
-/

namespace PolicyVault.Order

def exchange (order : List Nat) (i j : Nat) : List Nat :=
  (order.set i (order.getD j 0)).set j (order.getD i 0)

/-- The orders visited while the first `k` places change, and the order that is left. -/
def permute : (k : Nat) → (order : List Nat) → List (List Nat) × List Nat
  | 0, order => ([order], order)
  | 1, order => ([order], order)
  | k + 2, order =>
    let turns := (List.range (k + 1)).foldl
      (fun (visited, order) i =>
        let turn := permute (k + 1) order
        (visited ++ turn.1, exchange turn.2 (if k % 2 = 0 then i else 0) (k + 1)))
      ([], order)
    let last := permute (k + 1) turns.2
    (turns.1 ++ last.1, last.2)

/-- All orders of the numbers below `n`, in the order of the visit. There is none for `n = 0`. -/
def permutations (n : Nat) : List (List Nat) :=
  if n = 0 then [] else (permute n (List.range n)).1

end PolicyVault.Order
