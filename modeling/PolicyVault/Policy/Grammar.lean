import PolicyVault.Policy.Expr

/-!
# The grammar of policy expressions

The words each syntactic category derives, with the tree of each derivation.
-/

namespace PolicyVault.Policy

/-- The syntactic categories, from the loosest to the tightest. -/
inductive Category
  | expr
  | concat
  | rep
  | atom
  deriving DecidableEq, Repr

/-- The source `s` derives from a category with the tree `e`. -/
inductive Derives : Category → List UInt8 → Expr → Prop
  | single {s e} : Derives .concat s e → Derives .expr s e
  | either {s t l r} : Derives .concat s l → Derives .expr t r →
      Derives .expr (s ++ 0x7c :: t) (.either l r)
  | last {s e} : Derives .rep s e → Derives .concat s e
  | juxtaposed {s t l r} : Derives .rep s l → Derives .concat t r →
      Derives .concat (s ++ t) (.concat l r)
  | once {s e} : Derives .atom s e → Derives .rep s e
  | star {s e} : Derives .atom s e → Derives .rep (s ++ [0x2a]) (.star e)
  | optional {s e} : Derives .atom s e → Derives .rep (s ++ [0x3f]) (.optional e)
  | symbol {b} : isSymbol b = true → Derives .atom [b] (.symbol b)
  | group {s e} : Derives .expr s e → Derives .atom (0x28 :: s ++ [0x29]) e

end PolicyVault.Policy
