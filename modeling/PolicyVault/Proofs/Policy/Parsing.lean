import PolicyVault.Policy.Grammar
import PolicyVault.Policy.Parser

/-!
# Reading is deriving

`parse_iff_derives`: an expression is read from exactly the sources that derive from the grammar
with it as their tree. `derives_unique`: a source derives with one tree at most. `parse_exact`: both,
and which expressions and which bytes can be read at all.

Soundness follows the reader byte by byte (`Reader.Reads`), completeness follows the derivation
(`Completes`).
-/

namespace PolicyVault.Policy

/-! ## What a reader has read -/

inductive PartsRead : List Expr → List UInt8 → Prop
  | none : PartsRead [] []
  | more {parts s e t} : PartsRead parts s → Derives .rep t e → PartsRead (e :: parts) (s ++ t)

inductive AlternativesRead : List Expr → List UInt8 → Prop
  | none : AlternativesRead [] []
  | more {alternatives s e t} : AlternativesRead alternatives s → Derives .concat t e →
      AlternativesRead (e :: alternatives) (s ++ (t ++ [0x7c]))

def Group.Reads (g : Group) (s : List UInt8) : Prop :=
  ∃ u v, s = u ++ v ∧ AlternativesRead g.alternatives u ∧ PartsRead g.parts v

def Place.Reads : Place → List UInt8 → Prop
  | .due, s => s = []
  | .read last true, s => Derives .atom s last
  | .read last false, s => Derives .rep s last

inductive OuterRead : List Group → List UInt8 → Prop
  | none : OuterRead [] []
  | more {g outer s t} : OuterRead outer s → g.Reads t → OuterRead (g :: outer) (s ++ (t ++ [0x28]))

def Reader.Reads (r : Reader) (s : List UInt8) : Prop :=
  ∃ u v w, s = u ++ (v ++ w) ∧ OuterRead r.outer u ∧ r.group.Reads v ∧ r.place.Reads w

theorem Place.Reads.rep {last : Expr} {bare : Bool} {s : List UInt8}
    (reads : (Place.read last bare).Reads s) : Derives .rep s last := by
  cases bare with
  | false => exact reads
  | true => exact .once reads

theorem PartsRead.derives {parts : List Expr} {u v : List UInt8} {e : Expr}
    (reads : PartsRead parts u) (derives : Derives .concat v e) :
    Derives .concat (u ++ v) (parts.foldl (fun e part => .concat part e) e) := by
  induction reads generalizing v e with
  | none => exact derives
  | more _ part ih =>
    rw [List.append_assoc]
    exact ih (.juxtaposed part derives)

theorem AlternativesRead.derives {alternatives : List Expr} {u v : List UInt8} {e : Expr}
    (reads : AlternativesRead alternatives u) (derives : Derives .expr v e) :
    Derives .expr (u ++ v) (alternatives.foldl (fun e alternative => .either alternative e) e) := by
  induction reads generalizing v e with
  | none => exact derives
  | more _ alternative ih =>
    rw [List.append_assoc, List.append_assoc]
    exact ih (.either alternative derives)

theorem Group.Reads.alternative {g : Group} {s t : List UInt8} {last : Expr} (reads : g.Reads s)
    (derives : Derives .rep t last) : ∃ u v, s ++ t = u ++ v ∧
      AlternativesRead g.alternatives u ∧ Derives .concat v (g.alternative last) := by
  obtain ⟨u, v, rfl, alternatives, parts⟩ := reads
  exact ⟨u, v ++ t, List.append_assoc .., alternatives, parts.derives (.last derives)⟩

theorem Group.Reads.close {g : Group} {s t : List UInt8} {last : Expr} (reads : g.Reads s)
    (derives : Derives .rep t last) : Derives .expr (s ++ t) (g.close last) := by
  obtain ⟨u, v, split, alternatives, concat⟩ := reads.alternative derives
  rw [split]
  exact alternatives.derives (.single concat)

theorem group_start_reads : Group.start.Reads [] :=
  ⟨[], [], rfl, .none, .none⟩

/-! ## Each byte is accounted for -/

theorem Reader.operand_reads {r after : Reader} {u v : List UInt8} {b : UInt8} {position : Nat}
    (outer : OuterRead r.outer u) (group : r.group.Reads v)
    (taken : r.operand b position = .ok after) : after.Reads (u ++ (v ++ [b])) := by
  unfold operand at taken
  split at taken
  · rename_i symbol
    obtain rfl := Except.ok.inj taken
    exact ⟨u, v, [b], rfl, outer, group, .symbol symbol⟩
  · split at taken
    · rename_i opening
      subst opening
      obtain rfl := Except.ok.inj taken
      exact ⟨_, [], [], by simp, .more outer group, group_start_reads, rfl⟩
    · contradiction

theorem Reader.step_reads {r after : Reader} {s : List UInt8} {b : UInt8} {position : Nat}
    (reads : r.Reads s) (taken : r.step b position = .ok after) : after.Reads (s ++ [b]) := by
  obtain ⟨u, v, w, rfl, outer, group, place⟩ := reads
  obtain ⟨g, around, here⟩ := r
  have assoc : u ++ (v ++ w) ++ [b] = u ++ (v ++ (w ++ [b])) := by simp
  cases here with
  | due =>
    obtain rfl : w = [] := place
    rw [List.append_nil, List.append_assoc]
    exact operand_reads outer group taken
  | read last bare =>
    simp only [step] at taken
    split at taken
    · rename_i star
      cases bare with
      | false => contradiction
      | true =>
        obtain rfl := Except.ok.inj taken
        exact ⟨u, v, w ++ [b], assoc, outer, group, star ▸ .star place⟩
    · split at taken
      · rename_i optional
        cases bare with
        | false => contradiction
        | true =>
          obtain rfl := Except.ok.inj taken
          exact ⟨u, v, w ++ [b], assoc, outer, group, optional ▸ .optional place⟩
      · split at taken
        · rename_i bar
          obtain rfl := Except.ok.inj taken
          obtain ⟨x, y, split, alternatives, concat⟩ := group.alternative place.rep
          have finished :
              Group.Reads ⟨g.alternative last :: g.alternatives, []⟩ (x ++ (y ++ [b])) :=
            ⟨_, [], (List.append_nil _).symm, bar ▸ .more alternatives concat, .none⟩
          refine ⟨u, x ++ (y ++ [b]), [], ?_, outer, finished, rfl⟩
          rw [assoc, ← List.append_assoc v, split]
          simp
        · split at taken
          · rename_i closing
            cases outer with
            | none => contradiction
            | @more g' outer s t before enclosing =>
              obtain rfl := Except.ok.inj taken
              have atom := Derives.group (group.close place.rep)
              refine ⟨s, t, 0x28 :: (v ++ w) ++ [b], ?_, before, enclosing, closing ▸ atom⟩
              simp
          · -- The operand read so far becomes a part, and `b` begins the next one.
            obtain ⟨x, y, rfl, alternatives, parts⟩ := group
            have pushed : Group.Reads ⟨g.alternatives, last :: g.parts⟩ (x ++ y ++ w) :=
              ⟨x, y ++ w, List.append_assoc .., alternatives, .more parts place.rep⟩
            let r : Reader := ⟨⟨g.alternatives, last :: g.parts⟩, around, .read last bare⟩
            have whole := operand_reads (r := r) outer pushed taken
            simpa using whole

theorem Reader.run_reads {r after : Reader} {s t : List UInt8} {position : Nat}
    (reads : r.Reads s) (taken : r.run position t = .ok after) : after.Reads (s ++ t) := by
  induction t generalizing r s position with
  | nil =>
    obtain rfl := Except.ok.inj taken
    rwa [List.append_nil]
  | cons b t ih =>
    unfold run at taken
    split at taken
    · contradiction
    · rename_i next first
      have rest := ih (step_reads reads first) taken
      rwa [List.append_assoc] at rest

theorem parse_iff_run {s : List UInt8} {e : Expr} :
    Expr.parse s = .ok e ↔ ∃ r, Reader.start.run 0 s = .ok r ∧ r.finish = .ok e := by
  constructor
  · intro parsed
    unfold Expr.parse at parsed
    split at parsed
    · contradiction
    · split at parsed
      · contradiction
      · rename_i r taken
        exact ⟨r, taken, parsed⟩
  · rintro ⟨r, taken, finished⟩
    cases s with
    | nil =>
      obtain rfl := Except.ok.inj taken
      contradiction
    | cons b s =>
      unfold Expr.parse
      rw [if_neg (by simp), taken]
      exact finished

theorem derives_of_parse {s : List UInt8} {e : Expr} (parsed : Expr.parse s = .ok e) :
    Derives .expr s e := by
  obtain ⟨r, taken, finished⟩ := parse_iff_run.mp parsed
  have start : Reader.start.Reads [] := ⟨[], [], [], rfl, .none, group_start_reads, rfl⟩
  obtain ⟨u, v, w, rfl, outer, group, place⟩ := Reader.run_reads start taken
  obtain ⟨g, around, here⟩ := r
  cases here with
  | due => contradiction
  | read last bare =>
    cases outer with
    | more => contradiction
    | none =>
      obtain rfl := Except.ok.inj finished
      exact group.close place.rep

/-! ## Each derivation is read -/

theorem Reader.run_append {r middle : Reader} {s : List UInt8} {position : Nat}
    (first : r.run position s = .ok middle) (t : List UInt8) :
    r.run position (s ++ t) = middle.run (position + s.length) t := by
  induction s generalizing r position with
  | nil =>
    obtain rfl := Except.ok.inj first
    rfl
  | cons b s ih =>
    have behind : position + (b :: s).length = position + 1 + s.length := by
      rw [List.length_cons]
      omega
    rw [List.cons_append, run, behind]
    unfold run at first
    split at first
    · contradiction
    · exact ih first

theorem derives_head {category : Category} {s : List UInt8} {e : Expr}
    (derives : Derives category s e) :
    ∃ b rest, s = b :: rest ∧ (isSymbol b = true ∨ b = 0x28) := by
  induction derives with
  | single _ ih | last _ ih | once _ ih => exact ih
  | either _ _ ih _ | juxtaposed _ _ ih _ | star _ ih | optional _ ih =>
    obtain ⟨b, rest, rfl, operand⟩ := ih
    exact ⟨b, _, rfl, operand⟩
  | symbol symbol => exact ⟨_, [], rfl, .inl symbol⟩
  | group => exact ⟨0x28, _, rfl, .inr rfl⟩

/-- An operand right behind an operand is read as the next part of the group. -/
theorem Reader.run_juxtaposed {g : Group} {outer : List Group} {last : Expr} {bare : Bool}
    {s : List UInt8} {category : Category} {e : Expr} (derives : Derives category s e)
    (position : Nat) : Reader.run ⟨g, outer, .read last bare⟩ position s =
      Reader.run ⟨⟨g.alternatives, last :: g.parts⟩, outer, .due⟩ position s := by
  obtain ⟨b, rest, rfl, operand⟩ := derives_head derives
  have plain : b ≠ 0x2a ∧ b ≠ 0x3f ∧ b ≠ 0x7c ∧ b ≠ 0x29 := by
    rcases operand with symbol | rfl
    · refine ⟨?_, ?_, ?_, ?_⟩ <;> (rintro rfl; contradiction)
    · decide
  have same : Reader.step ⟨g, outer, .read last bare⟩ b position =
      Reader.step ⟨⟨g.alternatives, last :: g.parts⟩, outer, .due⟩ b position := by
    simp only [step, plain.1, plain.2.1, plain.2.2.1, plain.2.2.2, if_false, Reader.operand]
  rw [run, run, same]

/-- How a reader goes through a source of each category, where an operand is due. -/
def Completes : Category → List UInt8 → Expr → Prop
  | .atom, s, e => ∀ g outer position,
      Reader.run ⟨g, outer, .due⟩ position s = .ok ⟨g, outer, .read e true⟩
  | .rep, s, e => ∀ g outer position, ∃ bare,
      Reader.run ⟨g, outer, .due⟩ position s = .ok ⟨g, outer, .read e bare⟩
  | .concat, s, e => ∀ (g : Group) outer position, ∃ parts last bare,
      Reader.run ⟨g, outer, .due⟩ position s =
        .ok ⟨⟨g.alternatives, parts⟩, outer, .read last bare⟩ ∧
      Group.alternative ⟨g.alternatives, parts⟩ last = g.alternative e
  | .expr, s, e => ∀ alternatives outer position, ∃ g last bare,
      Reader.run ⟨⟨alternatives, []⟩, outer, .due⟩ position s = .ok ⟨g, outer, .read last bare⟩ ∧
      g.close last = Group.close ⟨alternatives, []⟩ e

theorem completes_of_derives {category : Category} {s : List UInt8} {e : Expr}
    (derives : Derives category s e) : Completes category s e := by
  induction derives with
  | single _ ih =>
    intro alternatives outer position
    obtain ⟨parts, last, bare, taken, same⟩ := ih ⟨alternatives, []⟩ outer position
    refine ⟨_, last, bare, taken, ?_⟩
    simp only [Group.close, same]
  | @either s t l r _ _ ihl ihr =>
    intro alternatives outer position
    obtain ⟨parts, last, bare, taken, same⟩ := ihl ⟨alternatives, []⟩ outer position
    obtain ⟨g, final, bare', rest, close⟩ :=
      ihr (l :: alternatives) outer (position + s.length + 1)
    refine ⟨g, final, bare', ?_, close⟩
    rw [Reader.run_append taken]
    have bar : Reader.step ⟨⟨alternatives, parts⟩, outer, .read last bare⟩ 0x7c
        (position + s.length) = .ok ⟨⟨l :: alternatives, []⟩, outer, .due⟩ := by
      simp only [Reader.step, same]
      rfl
    rw [Reader.run, bar]
    exact rest
  | last _ ih =>
    intro g outer position
    obtain ⟨bare, taken⟩ := ih g outer position
    exact ⟨g.parts, _, bare, taken, rfl⟩
  | @juxtaposed s t l r _ right ihl ihr =>
    intro g outer position
    obtain ⟨bare, taken⟩ := ihl g outer position
    obtain ⟨parts, last, bare', rest, same⟩ :=
      ihr ⟨g.alternatives, l :: g.parts⟩ outer (position + s.length)
    refine ⟨parts, last, bare', ?_, same⟩
    rw [Reader.run_append taken, Reader.run_juxtaposed right]
    exact rest
  | once _ ih => exact fun g outer position => ⟨true, ih g outer position⟩
  | star _ ih | optional _ ih =>
    intro g outer position
    refine ⟨false, ?_⟩
    rw [Reader.run_append (ih g outer position)]
    rfl
  | @symbol b symbol =>
    intro g outer position
    simp [Reader.run, Reader.step, Reader.operand, symbol]
  | @group s e _ ih =>
    intro g outer position
    obtain ⟨inner, last, bare, taken, close⟩ := ih [] (g :: outer) (position + 1)
    have opening :
        Reader.step ⟨g, outer, .due⟩ 0x28 position = .ok ⟨.start, g :: outer, .due⟩ := rfl
    rw [List.cons_append, Reader.run, opening]
    change Reader.run ⟨⟨[], []⟩, g :: outer, .due⟩ (position + 1) (s ++ [0x29]) = _
    have whole : Group.close ⟨[], []⟩ e = e := rfl
    rw [Reader.run_append taken, ← whole, ← close]
    rfl

theorem parse_of_derives {s : List UInt8} {e : Expr} (derives : Derives .expr s e) :
    Expr.parse s = .ok e := by
  obtain ⟨g, last, bare, taken, close⟩ := completes_of_derives derives [] [] 0
  exact parse_iff_run.mpr ⟨_, taken, congrArg Except.ok close⟩

theorem parse_iff_derives {s : List UInt8} {e : Expr} :
    Expr.parse s = .ok e ↔ Derives .expr s e :=
  ⟨derives_of_parse, parse_of_derives⟩

theorem derives_unique {s : List UInt8} {e f : Expr} (first : Derives .expr s e)
    (second : Derives .expr s f) : e = f :=
  Except.ok.inj ((parse_of_derives first).symm.trans (parse_of_derives second))

/-! ## What can be read -/

/-- Brackets and operators. -/
def punctuation : List UInt8 := [0x28, 0x29, 0x2a, 0x3f, 0x7c]

theorem derives_bytes {category : Category} {s : List UInt8} {e : Expr}
    (derives : Derives category s e) : ∀ b ∈ s, isSymbol b = true ∨ b ∈ punctuation := by
  induction derives with
  | single _ ih | last _ ih | once _ ih => exact ih
  | either _ _ ihl ihr =>
    refine List.forall_mem_append.mpr ⟨ihl, List.forall_mem_cons.mpr ⟨?_, ihr⟩⟩
    exact .inr (by decide)
  | juxtaposed _ _ ihl ihr => exact List.forall_mem_append.mpr ⟨ihl, ihr⟩
  | star _ ih | optional _ ih =>
    exact List.forall_mem_append.mpr ⟨ih, List.forall_mem_singleton.mpr (.inr (by decide))⟩
  | symbol symbol => exact List.forall_mem_singleton.mpr (.inl symbol)
  | group _ ih =>
    refine List.forall_mem_append.mpr ⟨List.forall_mem_cons.mpr ⟨.inr (by decide), ih⟩, ?_⟩
    exact List.forall_mem_singleton.mpr (.inr (by decide))

theorem derives_symbols {category : Category} {s : List UInt8} {e : Expr}
    (derives : Derives category s e) : ∀ b ∈ e.symbols, isSymbol b = true := by
  induction derives with
  | single _ ih | last _ ih | once _ ih | star _ ih | optional _ ih | group _ ih => exact ih
  | either _ _ ihl ihr | juxtaposed _ _ ihl ihr => exact List.forall_mem_append.mpr ⟨ihl, ihr⟩
  | symbol symbol => exact List.forall_mem_singleton.mpr symbol

theorem exists_source (e : Expr) (symbols : ∀ b ∈ e.symbols, isSymbol b = true) :
    ∃ s, Derives .atom s e := by
  induction e with
  | symbol b => exact ⟨[b], .symbol (symbols b (List.mem_singleton_self b))⟩
  | concat l r ihl ihr =>
    obtain ⟨inLeft, inRight⟩ := List.forall_mem_append.mp symbols
    obtain ⟨s, left⟩ := ihl inLeft
    obtain ⟨t, right⟩ := ihr inRight
    exact ⟨_, .group (.single (.juxtaposed (.once left) (.last (.once right))))⟩
  | either l r ihl ihr =>
    obtain ⟨inLeft, inRight⟩ := List.forall_mem_append.mp symbols
    obtain ⟨s, left⟩ := ihl inLeft
    obtain ⟨t, right⟩ := ihr inRight
    exact ⟨_, .group (.either (.last (.once left)) (.single (.last (.once right))))⟩
  | star e ih =>
    obtain ⟨s, atom⟩ := ih symbols
    exact ⟨_, .group (.single (.last (.star atom)))⟩
  | optional e ih =>
    obtain ⟨s, atom⟩ := ih symbols
    exact ⟨_, .group (.single (.last (.optional atom)))⟩

/-- An expression is read from exactly the sources that derive with it as their tree, which is one
tree for each source. The expressions over access symbols, and no others, have a source. A source
consists of symbols, brackets and operators, and the full stop is none of these. -/
theorem parse_exact :
    (∀ s e, Expr.parse s = .ok e ↔ Derives .expr s e) ∧
      (∀ s e f, Derives .expr s e → Derives .expr s f → e = f) ∧
      (∀ e, (∃ s, Expr.parse s = .ok e) ↔ ∀ b ∈ e.symbols, isSymbol b = true) ∧
      ∀ s e, Expr.parse s = .ok e →
        0x2e ∉ s ∧ ∀ b ∈ s, isSymbol b = true ∨ b ∈ punctuation := by
  refine ⟨fun s e => parse_iff_derives, fun s e f => derives_unique, ?_, ?_⟩
  · intro e
    constructor
    · rintro ⟨s, parsed⟩
      exact derives_symbols (derives_of_parse parsed)
    · intro symbols
      obtain ⟨s, atom⟩ := exists_source e symbols
      exact ⟨s, parse_of_derives (.single (.last (.once atom)))⟩
  · intro s e parsed
    have bytes := derives_bytes (derives_of_parse parsed)
    refine ⟨fun stop => ?_, bytes⟩
    rcases bytes _ stop with symbol | mark
    · exact absurd symbol (by decide)
    · exact absurd mark (by decide)

/-- The source `R((WR)*|W?)R` derives with one tree, and `R.W` is no source. -/
theorem parse_exact_groups :
    let source : List UInt8 :=
      [0x52, 0x28, 0x28, 0x57, 0x52, 0x29, 0x2a, 0x7c, 0x57, 0x3f, 0x29, 0x52]
    let tree : Expr := .concat (.symbol 0x52) (.concat
      (.either (.star (.concat (.symbol 0x57) (.symbol 0x52))) (.optional (.symbol 0x57)))
      (.symbol 0x52))
    Expr.parse source = .ok tree ∧ Derives .expr source tree ∧
      (∀ e, Derives .expr source e → e = tree) ∧ ¬ ∃ e, Expr.parse [0x52, 0x2e, 0x57] = .ok e := by
  intro source tree
  obtain ⟨derived, unique, -, bytes⟩ := parse_exact
  have parsed : Expr.parse source = .ok tree := rfl
  have derives := (derived source tree).mp parsed
  refine ⟨parsed, derives, fun e other => unique source e tree other derives, ?_⟩
  rintro ⟨e, stopped⟩
  exact (bytes _ e stopped).1 (by decide)

end PolicyVault.Policy
