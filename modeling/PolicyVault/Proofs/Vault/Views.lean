import PolicyVault.Proofs.Policy.Parsing
import PolicyVault.Proofs.Vault.Integrity
import PolicyVault.Proofs.Vault.Snapshots

/-!
# What a vault shows

The texts in the snapshot of a vault are the expressions that were loaded for it, byte for byte, as
long as the vault lives: calls, others that hold or retire its policies, and a lock of its arena
change none of them. An expression that was loaded holds no mark, so the snapshot can be read back
from its written form.

Main statements: `Vault.Shared.Reached.sources_eq`, `Vault.Sound.texts`, `Vault.Sound.portable`.
-/

namespace PolicyVault

/-! ## Expressions as texts -/

namespace Policy

variable {p : Loaded}

theorem readable_of_derives {category : Category} {source : List UInt8} {e : Expr}
    (derives : Derives category source e) : ∀ b ∈ source, 0x20 ≤ b ∧ b < 0x80 := by
  intro b member
  rcases derives_bytes derives b member with symbol | mark
  · simp only [isSymbol, Bool.or_eq_true, Bool.and_eq_true, decide_eq_true_eq] at symbol
    grind
  · simp only [punctuation, List.mem_cons, List.not_mem_nil, or_false] at mark
    rcases mark with rfl | rfl | rfl | rfl | rfl <;> decide

theorem derives_of_compile {source : List UInt8} {automaton : Automaton}
    (compiled : Automaton.compile source = .ok automaton) : ∃ e, Derives .expr source e := by
  obtain ⟨e, -, parsed, -⟩ := Automaton.compile_ok compiled
  exact ⟨e, derives_of_parse parsed⟩

theorem Loaded.bytesOfText_text (compiled : Automaton.compile p.source = .ok p.automaton) :
    Text.bytesOfText p.text = p.source := by
  obtain ⟨e, derives⟩ := derives_of_compile compiled
  exact Text.bytesOfText_latin1Text fun b member => (readable_of_derives derives b member).2

theorem Loaded.toList_text (p : Loaded) : p.text.toList = p.source.map Text.latin1 :=
  String.toList_ofList

theorem Loaded.text_unmarked (compiled : Automaton.compile p.source = .ok p.automaton) :
    p.text ≠ "" ∧ Snapshot.Unmarked p.text.toList := by
  obtain ⟨e, derives⟩ := derives_of_compile compiled
  constructor
  · intro empty
    obtain ⟨b, rest, source, -⟩ := derives_head derives
    have characters := p.toList_text
    rw [empty, source] at characters
    cases characters
  · have unmarked : ∀ mark : Char, mark.toNat < 0x20 → mark ∉ p.text.toList := by
      intro mark low member
      rw [p.toList_text] at member
      obtain ⟨b, inside, rfl⟩ := List.mem_map.mp member
      have high := UInt8.le_iff_toNat_le.mp (readable_of_derives derives b inside).1
      rw [Text.toNat_latin1] at low
      exact absurd low (Nat.not_lt.mpr high)
    exact ⟨unmarked _ (by decide), unmarked _ (by decide)⟩

namespace Book

variable {book others : Book} {i : Nat}

theorem sources_modify {f : Loaded → Loaded} (same : ∀ p, (f p).source = p.source) :
    (List.modify book i f).map (·.source) = book.map (·.source) := by
  apply List.ext_getElem?
  intro j
  rw [List.getElem?_map, List.getElem?_map, List.getElem?_modify]
  split
  · cases book[j]? with
    | none => rfl
    | some p => exact congrArg some (same p)
  · simp

theorem sources_retireAll (book : Book) :
    book.retireAll.1.map (·.source) = book.map (·.source) := by
  apply List.ext_getElem?
  intro j
  rw [List.getElem?_map, List.getElem?_map, Vault.getElem?_retireAll, Option.map_map]
  rfl

theorem retire_inversion (retired : book.retire i = .ok others) :
    (∃ p, book[i]? = some p ∧ p.bindings = 0) ∧
      others = List.modify book i fun p => { p with retired := true } := by
  unfold retire at retired
  split at retired
  · cases retired
  rename_i p found
  rw [List.modify_eq_set_getElem?, found]
  by_cases idle : p.bindings = 0
  · simp only [Loaded.retire, if_pos idle] at retired
    exact ⟨⟨p, rfl, idle⟩, (Except.ok.inj retired).symm⟩
  · simp only [Loaded.retire, if_neg idle] at retired
    cases retired

theorem sources_retire (retired : book.retire i = .ok others) :
    others.map (·.source) = book.map (·.source) := by
  rw [(retire_inversion retired).2]
  exact sources_modify fun _ => rfl

end Book

end Policy

namespace Vault

variable {v w : Vault} {held : Nat → Nat}

theorem mem_of_policyText? {m : Policy.Monitor} {text : String}
    (told : m.policyText? v.policies = some text) : ∃ p ∈ v.policies, p.text = text := by
  obtain ⟨p, loaded, same⟩ := Option.map_eq_some_iff.mp told
  obtain ⟨i, -, found⟩ := Option.bind_eq_some_iff.mp loaded
  exact ⟨p, List.mem_of_getElem? found, same⟩

theorem Sound.portable (sound : v.Sound held) (positive : 0 < v.arena.size) :
    v.snapshot.Portable := by
  have texts : ∀ p ∈ v.policies, p.text ≠ "" ∧ Snapshot.Unmarked p.text.toList :=
    fun p member => Policy.Loaded.text_unmarked (sound.compiled p member)
  refine ⟨?_, ?_, ?_⟩
  · intro none
    have tiles := sound.layout.tiles
    rw [List.map_eq_nil_iff.mp none] at tiles
    exact absurd (sound.size.trans tiles.symm) (Nat.ne_of_gt positive)
  · intro entry member
    obtain ⟨p, inside, rfl⟩ := List.mem_map.mp member
    exact (texts p inside).2
  · intro entry member text told
    obtain ⟨s, -, rfl⟩ := List.mem_map.mp member
    obtain ⟨monitor, -, named⟩ := Option.bind_eq_some_iff.mp told
    obtain ⟨p, inside, rfl⟩ := mem_of_policyText? named
    exact texts p inside

theorem Sound.texts (sound : v.Sound held) :
    v.snapshot.policies.map (Text.bytesOfText ·.text) = v.policies.map (·.source) := by
  simp only [snapshot, List.map_map]
  exact List.map_congr_left fun p member => p.bytesOfText_text (sound.compiled p member)

/-! ## What calls leave of the policies -/

theorem alloc_continues (sound : v.Sound held) (size policy : Nat) :
    v.Continues (v.alloc size policy).2 := by
  have outcome := alloc_inversion sound size policy
  generalize v.alloc size policy = answer at outcome ⊢
  cases outcome with
  | refused => exact .refl v
  | undone _ _ zeroed => exact zeroed.continues
  | granted _ _ zeroed => exact zeroed.continues

theorem dealloc_continues (sound : v.Sound held) (address : Nat) :
    v.Continues (v.dealloc address).2 := by
  cases live : v.allocation? address with
  | none =>
    obtain ⟨e, failed, -⟩ := dealloc_missing sound live
    rw [failed]
    exact .refl v
  | some a =>
    obtain ⟨w, done, -, updated⟩ := dealloc_found sound live
    rw [done]
    exact updated.continues

theorem read_continues (sound : v.Sound held) (address length : Nat) :
    v.Continues (v.read address length).2 := by
  by_cases within : ∃ a, v.allocation? address = some a ∧ a.Fits length
  · obtain ⟨a, live, fits⟩ := within
    have advanced := (stepped_spec sound live .read).2.continues
    cases verdict : (v.stepped a .read).verdict with
    | allowed =>
      rw [read_allowed sound live fits verdict]
      exact advanced
    | rejected =>
      rw [read_rejected sound live fits verdict]
      exact advanced
  · obtain ⟨e, failed, -⟩ := read_outside sound fun a live fits => within ⟨a, live, fits⟩
    rw [failed]
    exact .refl v

theorem write_continues (sound : v.Sound held) (address : Nat) (data : List UInt8) :
    v.Continues (v.write address data).2 := by
  by_cases within : ∃ a, v.allocation? address = some a ∧ a.Fits data.length
  · obtain ⟨a, live, fits⟩ := within
    cases verdict : (v.stepped a .write).verdict with
    | allowed =>
      obtain ⟨w, written, -, updated⟩ := write_allowed sound live fits verdict
      rw [written]
      exact updated.continues
    | rejected =>
      rw [write_rejected sound live fits verdict]
      exact (stepped_spec sound live .write).2.continues
  · obtain ⟨e, failed, -⟩ := write_outside sound fun a live fits => within ⟨a, live, fits⟩
    rw [failed]
    exact .refl v

theorem release_continues (v : Vault) (m : Policy.Monitor) : v.Continues (v.release m) := by
  refine ⟨rfl, rfl, ?_⟩
  simp only [release, Policy.Monitor.discard]
  cases m.policy with
  | none => rfl
  | some i => exact Policy.Book.uncounted_release _ _

theorem hold_inversion {policy : Nat} {m : Policy.Monitor} (bound : v.hold policy = .ok (m, w)) :
    (∃ p, v.policies[policy]? = some p ∧ p.retired = false) ∧
      w = { v with policies := v.policies.retain policy } := by
  unfold hold at bound
  split at bound
  · cases bound
  · rename_i accepted
    obtain ⟨active, -, rfl⟩ := Policy.Monitor.bind_inversion accepted
    obtain ⟨-, rfl⟩ := Prod.mk.inj (Except.ok.inj bound)
    exact ⟨active, rfl⟩

theorem hold_continues {policy : Nat} {m : Policy.Monitor} (bound : v.hold policy = .ok (m, w)) :
    v.Continues w := by
  obtain ⟨-, rfl⟩ := hold_inversion bound
  exact ⟨rfl, rfl, Policy.Book.uncounted_retain _ _⟩

theorem unbindAll_sources (book : Policy.Book) (payloads : List (Option Policy.Monitor)) :
    (unbindAll book payloads).2.map (·.source) = book.map (·.source) := by
  induction payloads generalizing book with
  | nil => rfl
  | cons payload payloads ih =>
    cases payload with
    | none => exact ih book
    | some m =>
      cases bound : m.policy with
      | none =>
        simp only [unbindAll, Policy.Monitor.unbind, bound]
        exact ih book
      | some i =>
        simp only [unbindAll, Policy.Monitor.unbind_ok bound]
        exact (ih _).trans (Policy.Book.sources_modify fun p => rfl)

theorem teardown_sources (v : Vault) :
    v.teardown.2.policies.map (·.source) = v.policies.map (·.source) :=
  (Policy.Book.sources_retireAll _).trans (unbindAll_sources _ _)

/-! ## Vaults that can be reached -/

/-- The vault with its arena pinned in memory, or not. -/
def pin (v : Vault) (pinned : Bool) : Vault := { v with arena := { v.arena with locked := pinned } }

theorem pin_of_lock {granted : Bool} {arena : Memory.Arena}
    (locked : v.arena.lock granted = .ok arena) :
    ∃ pinned, ({ v with arena := arena } : Vault) = v.pin pinned := by
  unfold Memory.Arena.lock at locked
  split at locked
  · obtain rfl := Except.ok.inj locked
    exact ⟨v.arena.locked, rfl⟩
  split at locked
  · obtain rfl := Except.ok.inj locked
    exact ⟨true, rfl⟩
  · cases locked

theorem Sound.pin (sound : v.Sound held) (pinned : Bool) : (v.pin pinned).Sound held :=
  ⟨sound.layout, sound.size, sound.small, sound.guarded, sound.compiled, sound.counted⟩

theorem Intact.pin (intact : v.Intact held) (pinned : Bool) : (v.pin pinned).Intact held :=
  ⟨intact.toSound.pin pinned, intact.positive, intact.inside, intact.clear⟩

theorem updated_pin (v : Vault) (pinned : Bool) (address : Nat) :
    v.Updated address (v.allocation? address) (v.pin pinned) :=
  ⟨⟨rfl, rfl, rfl⟩, rfl, fun _ _ => rfl⟩

theorem Intact.retired (intact : v.Intact held) (i : Nat) :
    ({ v with policies := List.modify v.policies i fun p => { p with retired := true } } :
      Vault).Intact held := by
  have kept : ∀ {j : Nat} {p : Policy.Loaded},
      (List.modify v.policies i fun p => { p with retired := true })[j]? = some p →
        ∃ q, v.policies[j]? = some q ∧ p.source = q.source ∧ p.automaton = q.automaton ∧
          p.bindings = q.bindings := by
    intro j p found
    obtain ⟨q, located, rfl⟩ := Policy.Book.bindings_modify found
    exact ⟨q, located, by split <;> simp⟩
  refine ⟨⟨intact.layout, intact.size, intact.small, ?_, ?_, ?_⟩, intact.positive, ?_,
    intact.clear⟩
  · intro s member
    simp only [List.length_modify]
    exact intact.guarded s member
  · intro p member
    obtain ⟨j, found⟩ := List.getElem?_of_mem member
    obtain ⟨q, located, source, automaton, -⟩ := kept found
    rw [source, automaton]
    exact intact.compiled q (List.mem_of_getElem? located)
  · intro j p found
    obtain ⟨q, located, -, -, bindings⟩ := kept found
    rw [bindings]
    exact intact.counted j q located
  · intro s member
    obtain ⟨monitor, payload, j, p, bound, found, current, previous⟩ := intact.inside s member
    obtain ⟨q, located, automaton⟩ : ∃ q,
        (List.modify v.policies i fun p => { p with retired := true })[j]? = some q ∧
          q.automaton = p.automaton := by
      rw [List.getElem?_modify, found]
      exact ⟨_, rfl, by split <;> rfl⟩
    exact ⟨monitor, payload, j, q, bound, located, automaton ▸ current, automaton ▸ previous⟩

namespace Shared

/-- What a vault of the given expressions can become together with the monitors others hold: calls
are made, its arena is locked, and a policy is retired by one who shares it. -/
inductive Reached (sources : List (List UInt8)) : Shared → Prop
  | created {pid : UInt32} {arenaSize : UInt64} {v : Vault}
      (created : create pid arenaSize sources = .ok v) : Reached sources ⟨v, []⟩
  | performed {g : Shared} (reached : Reached sources g) (c : Call) :
      Reached sources (g.perform c)
  | locked {g : Shared} {granted : Bool} {arena : Memory.Arena} (reached : Reached sources g)
      (locked : g.vault.arena.lock granted = .ok arena) :
      Reached sources { g with vault := { g.vault with arena := arena } }
  | retired {g : Shared} {policy : Nat} {book : Policy.Book} (reached : Reached sources g)
      (retired : g.vault.policies.retire policy = .ok book) :
      Reached sources { g with vault := { g.vault with policies := book } }

variable {g : Shared} {sources : List (List UInt8)}

theorem Reached.intact (reached : Reached sources g) : g.Intact := by
  induction reached with
  | created created => exact create_intact created
  | performed _ c ih => exact perform_intact ih c
  | locked _ locked ih =>
    obtain ⟨pinned, same⟩ := pin_of_lock locked
    rw [same]
    exact Vault.Intact.pin ih pinned
  | retired _ retired ih =>
    rw [(Policy.Book.retire_inversion retired).2]
    exact Vault.Intact.retired ih _

theorem Reached.after (reached : Reached sources g) (calls : List Call) :
    Reached sources (g.after calls) := by
  induction calls generalizing g with
  | nil => exact reached
  | cons c calls ih => exact ih (reached.performed c)

theorem perform_sources (intact : g.Intact) (c : Call) :
    (g.perform c).vault.policies.map (·.source) = g.vault.policies.map (·.source) := by
  cases c with
  | alloc size policy => exact (alloc_continues intact.toSound size policy).sources
  | dealloc address => exact (dealloc_continues intact.toSound address).sources
  | read address length => exact (read_continues intact.toSound address length).sources
  | write address data => exact (write_continues intact.toSound address data).sources
  | teardown => exact teardown_sources g.vault
  | hold policy =>
    simp only [perform]
    split
    · rfl
    · rename_i bound
      exact (hold_continues bound).sources
  | release monitor =>
    simp only [perform]
    split
    · rfl
    · exact (release_continues _ _).sources

theorem Reached.sources_eq (reached : Reached sources g) :
    g.vault.policies.map (·.source) = sources := by
  induction reached with
  | created created =>
    obtain ⟨-, -, -, -, same, -⟩ := create_spec created
    exact same
  | performed reached c ih => exact (perform_sources reached.intact c).trans ih
  | locked _ _ ih => exact ih
  | retired _ retired ih => exact (Policy.Book.sources_retire retired).trans ih

end Shared

end Vault

end PolicyVault
