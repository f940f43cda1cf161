import Mathlib
import PolicyVault.Proofs.Policy.Compilation
import PolicyVault.Proofs.Policy.Parsing
import PolicyVault.Proofs.Vault.Runs

/-!
# Enforcement of policies

An access to a live allocation succeeds exactly when the accesses to it so far, this one included,
begin a word of the policy the allocation was made under. Once one is refused, all that follow are.

Main statement: `Registry.access_exact`.
-/

namespace PolicyVault.Registry

open Vault (Allocation)

variable {v : Vault} {pid : UInt32} {address policy : Nat} {a b : Allocation} {e : Event}
  {access : Policy.Access} {source word rest : List UInt8}

/-- The word begins a word of the language of the expression. -/
def Admits (source word : List UInt8) : Prop :=
  ∃ e, Policy.Derives .expr source e ∧ e.Viable word

theorem Admits.of_append (admits : Admits source (word ++ rest)) : Admits source word := by
  obtain ⟨e, derived, more, matched⟩ := admits
  exact ⟨e, derived, rest ++ more, by rw [← List.append_assoc]; exact matched⟩

theorem admits_iff {p : Policy.Automaton} (compiled : Policy.Automaton.compile source = .ok p) :
    p.run Policy.initial word ≠ Policy.sink ↔ Admits source word := by
  obtain ⟨e, _, parsed, -⟩ := Policy.Automaton.compile_ok compiled
  rw [(Policy.Automaton.run_exact compiled parsed word).2]
  constructor
  · intro viable
    exact ⟨e, Policy.derives_of_parse parsed, viable⟩
  · rintro ⟨f, derived, viable⟩
    obtain rfl := Policy.derives_unique (Policy.derives_of_parse parsed) derived
    exact viable

theorem Told.text_stepped {since : List Event} {p : Policy.Loaded}
    (told : Told since v address policy a) (found : v.policies[policy]? = some p) :
    (v.stepped a access).policyText? v.policies = some p.text := by
  have bound : (v.stepped a access).policy = some policy := told.bound
  simp only [Policy.Monitor.policyText?, Policy.Monitor.loaded?, bound, Option.bind_some]
  rw [found]
  rfl

/-- The answer to an access tells whether the policy admits it. -/
theorem Told.judged {since : List Event} {p : Policy.Loaded} (told : Told since v address policy a)
    (found : v.policies[policy]? = some p)
    (compiled : Policy.Automaton.compile p.source = .ok p.automaton)
    (passes : Passes v address a e b) (accessed : e.access? v.pid address a.size = some access) :
    ((∃ value, e.answer = .ok value) ∧
        Admits p.source (accessWord v.pid address a.size (since ++ [e]))) ∨
      (e.answer = .error (.policyViolation address access (Text.latin1Text p.source)) ∧
        ¬ Admits p.source (accessWord v.pid address a.size (since ++ [e]))) := by
  have state := told.state_stepped accessed p found
  obtain ⟨length, attempt, fits⟩ := access?_eq_some.mp accessed
  cases passes with
  | aside c answer apart =>
    rw [apart] at attempt
    cases attempt
  | refused c e outside => exact absurd fits (outside access length attempt)
  | read _ allowed =>
    obtain ⟨rfl, -⟩ : .read = access ∧ _ = length := by simpa using attempt
    rw [Policy.Monitor.allowed_iff, state, admits_iff compiled] at allowed
    exact .inl ⟨⟨_, rfl⟩, allowed⟩
  | written _ allowed =>
    obtain ⟨rfl, -⟩ : .write = access ∧ _ = length := by simpa using attempt
    rw [Policy.Monitor.allowed_iff, state, admits_iff compiled] at allowed
    exact .inl ⟨⟨_, rfl⟩, allowed⟩
  | rejected c same _ rejected =>
    obtain ⟨rfl, -⟩ := Prod.mk.inj (Option.some.inj (same.symm.trans attempt))
    rw [Policy.Monitor.rejected_iff, state, ← not_ne_iff, admits_iff compiled] at rejected
    refine .inr ⟨?_, rejected⟩
    simp only [Vault.refusal, told.text_stepped found]
    rfl

theorem access_not_ends {size : Nat} (accessed : e.access? pid address size = some access) :
    e.ends pid address = false := by
  obtain ⟨length, attempt, -⟩ := access?_eq_some.mp accessed
  obtain ⟨c, answer⟩ := e
  cases c with
  | dealloc | unload => cases attempt
  | _ => rfl

/-- An access to an allocation, found in the history of a run. -/
theorem History.judged {r t : Registry} {before earlier later : List Event} {size : Nat}
    (history : r.History
      (before ++ ⟨.alloc pid size policy, .ok (.offset address)⟩ :: (earlier ++ e :: later)) t)
    (sound : r.Sound) (bare : ∀ pid, r.find? pid = none)
    (lives : ∀ f ∈ earlier, f.ends pid address = false)
    (accessed : e.access? pid address size = some access) :
    ∃ sources source, lastLoaded pid before = some sources ∧ sources[policy]? = some source ∧
      (((∃ value, e.answer = .ok value) ∧
          Admits source (accessWord pid address size (earlier ++ [e]))) ∨
        (e.answer = .error (.policyViolation address access (Text.latin1Text source)) ∧
          ¬ Admits source (accessWord pid address size (earlier ++ [e])))) := by
  have split : before ++ ⟨.alloc pid size policy, .ok (.offset address)⟩ ::
      (earlier ++ e :: later) =
        (before ++ ⟨.alloc pid size policy, .ok (.offset address)⟩ :: earlier) ++ e :: later := by
    simp
  rw [split] at history
  obtain ⟨u, first, s, step, -⟩ := append.mp history
  have soundU := first.sound sound
  obtain ⟨-, origin, v, w, a, loading, found, known, foundW, continues, live, rfl, told⟩ :=
    first.since_made sound lives
  have inBook : policy < w.policies.length := by
    rw [continues.length]
    exact known
  have located := List.getElem?_eq_getElem inBook
  have compiled := (soundU.vault foundW).1.compiled _ (List.getElem_mem inBook)
  have sources := loading.sources sound bare found
  obtain rfl := (mem_of_find? foundW).2
  obtain ⟨-, ended | ⟨y, c, -, -, -, passes⟩⟩ := step.live soundU foundW live
  · rw [access_not_ends accessed] at ended
    cases ended
  · refine ⟨_, w.policies[policy].source, sources, ?_,
      told.judged located compiled passes accessed⟩
    rw [← continues.sources, List.getElem?_map, located]
    rfl

/-- Take an allocation in the history of a run, the events since it was made, none of which ended
it, and an access `e` to it. The access succeeds if and only if the accesses so far begin a word of
the policy. If they do not, `e` and every access after it, until the allocation ends, are answered
with a violation of the policy. -/
theorem access_exact {calls : List Call} {before earlier later : List Event} {size : Nat}
    (history : (empty.run calls).1 =
      before ++ ⟨.alloc pid size policy, .ok (.offset address)⟩ :: (earlier ++ e :: later))
    (lives : ∀ f ∈ earlier, f.ends pid address = false)
    (accessed : e.access? pid address size = some access) :
    ∃ sources source, lastLoaded pid before = some sources ∧ sources[policy]? = some source ∧
      ((∃ value, e.answer = .ok value) ↔
        Admits source (accessWord pid address size earlier ++ [access.symbol])) ∧
      (¬ Admits source (accessWord pid address size earlier ++ [access.symbol]) →
        ∀ middle f last next, e :: later = middle ++ f :: last →
          (∀ g ∈ middle, g.ends pid address = false) →
          f.access? pid address size = some next →
          f.answer = .error (.policyViolation address next (Text.latin1Text source))) := by
  have whole := run_history empty_sound calls
  rw [history] at whole
  obtain ⟨sources, source, loaded, chosen, judged⟩ :=
    whole.judged empty_sound (fun _ => rfl) lives accessed
  have word : accessWord pid address size (earlier ++ [e]) =
      accessWord pid address size earlier ++ [access.symbol] := by
    rw [accessWord_snoc, accessed]
    rfl
  rw [word] at judged
  refine ⟨sources, source, loaded, chosen, ?_, ?_⟩
  · rcases judged with ⟨succeeds, admits⟩ | ⟨refused, never⟩
    · exact iff_of_true succeeds admits
    · refine iff_of_false ?_ never
      rintro ⟨value, succeeds⟩
      simp [refused] at succeeds
  · intro never middle f last next split alive reached
    have same : earlier ++ e :: later = (earlier ++ middle) ++ f :: last := by
      rw [split, List.append_assoc]
    rw [same] at whole
    obtain ⟨sources', source', loaded', chosen', judged'⟩ := whole.judged empty_sound
      (fun _ => rfl) (List.forall_mem_append.mpr ⟨lives, alive⟩) reached
    obtain rfl := Option.some.inj (loaded.symm.trans loaded')
    obtain rfl := Option.some.inj (chosen.symm.trans chosen')
    -- The accesses up to `f` begin with those up to `e`.
    obtain ⟨more, longer⟩ : ∃ more, earlier ++ middle ++ [f] = earlier ++ [e] ++ more := by
      cases middle with
      | nil =>
        obtain ⟨rfl, -⟩ := List.cons.inj split
        exact ⟨[], by simp⟩
      | cons g middle =>
        obtain ⟨rfl, -⟩ := List.cons.inj split
        exact ⟨middle ++ [f], by simp⟩
    rw [longer, accessWord_append, word] at judged'
    rcases judged' with ⟨-, admits⟩ | ⟨refused, -⟩
    · exact absurd admits.of_append never
    · exact refused

/-- Calls that read four bytes made under `(RW)*`, read them once more and write one. -/
def alternating : List Call :=
  [.load 1 16 [[0x28, 0x52, 0x57, 0x29, 0x2a]], .alloc 1 4 0, .read 1 0 4, .read 1 0 2,
    .write 1 0 [7]]

set_option maxRecDepth 2000 in
theorem access_exact_alternating :
    ((empty.run alternating).1 =
      [⟨.load 1 16 [[0x28, 0x52, 0x57, 0x29, 0x2a]], .ok .done⟩] ++
        ⟨.alloc 1 4 0, .ok (.offset 0)⟩ :: ([⟨.read 1 0 4, .ok (.data [0, 0, 0, 0])⟩] ++
          ⟨.read 1 0 2, .error (.policyViolation 0 .read "(RW)*")⟩ ::
            [⟨.write 1 0 [7], .error (.policyViolation 0 .write "(RW)*")⟩])) ∧
      Event.ends 1 0 ⟨.read 1 0 4, .ok (.data [0, 0, 0, 0])⟩ = false ∧
      Event.access? 1 0 4 ⟨.read 1 0 2, .error (.policyViolation 0 .read "(RW)*")⟩ = some .read ∧
      ∃ sources source,
        lastLoaded 1 [⟨.load 1 16 [[0x28, 0x52, 0x57, 0x29, 0x2a]], .ok .done⟩] = some sources ∧
        sources[0]? = some source ∧ ¬ Admits source [0x52, 0x52] := by
  have history : (empty.run alternating).1 =
      [⟨.load 1 16 [[0x28, 0x52, 0x57, 0x29, 0x2a]], .ok .done⟩] ++
        ⟨.alloc 1 4 0, .ok (.offset 0)⟩ :: ([⟨.read 1 0 4, .ok (.data [0, 0, 0, 0])⟩] ++
          ⟨.read 1 0 2, .error (.policyViolation 0 .read "(RW)*")⟩ ::
            [⟨.write 1 0 [7], .error (.policyViolation 0 .write "(RW)*")⟩]) := by cbv
  have accessed : Event.access? 1 0 4
      ⟨.read 1 0 2, .error (.policyViolation 0 .read "(RW)*")⟩ = some .read := rfl
  obtain ⟨sources, source, loaded, chosen, exact, -⟩ :=
    access_exact history (by simp [Event.ends]) accessed
  refine ⟨history, rfl, accessed, sources, source, loaded, chosen, ?_⟩
  intro admits
  obtain ⟨value, succeeds⟩ := exact.mpr admits
  cases succeeds

end PolicyVault.Registry
