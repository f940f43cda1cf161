import Mathlib.Data.List.Induction
import Mathlib.Tactic.ByContra
import PolicyVault.Proofs.Vault.Transitions

/-!
# Runs of the registry

A run is a list of calls made one after another, and its history the list of their events. While an
allocation lives, every event either passes it by or is an access to it; what it holds at last, and
where its monitor stands, can be told from the history since it was made.

Main statements: `Registry.run_history`, `Registry.History.keeps`, `Registry.History.made`,
`Registry.History.sources`.
-/

namespace PolicyVault.Registry

open Vault (Allocation Continues)

variable {r s t : Registry} {v w : Vault} {pid : UInt32} {address size policy i : Nat}
  {a b : Allocation} {e : Event} {events earlier later : List Event}

/-- Makes calls one after another. -/
def run (r : Registry) : List Call → List Event × Registry
  | [] => ([], r)
  | c :: rest =>
    let (answer, next) := r.perform c
    let (events, last) := next.run rest
    (⟨c, answer⟩ :: events, last)

/-- Events that lead from one registry to another. -/
def History (r : Registry) : List Event → Registry → Prop
  | [], s => r = s
  | e :: events, t => ∃ s, Transition r e s ∧ History s events t

theorem run_history (sound : r.Sound) (calls : List Call) :
    r.History (r.run calls).1 (r.run calls).2 := by
  induction calls generalizing r with
  | nil => rfl
  | cons c rest ih =>
    have step := perform_transition sound c
    exact ⟨_, step, ih (step.sound sound)⟩

namespace History

theorem sound (history : r.History events s) (soundR : r.Sound) : s.Sound := by
  induction events generalizing r with
  | nil => exact history ▸ soundR
  | cons e events ih =>
    obtain ⟨next, step, rest⟩ := history
    exact ih rest (step.sound soundR)

theorem append : r.History (earlier ++ later) t ↔
    ∃ s, r.History earlier s ∧ s.History later t := by
  induction earlier generalizing r with
  | nil => simp [History]
  | cons e earlier ih =>
    simp only [List.cons_append, History, ih]
    constructor
    · rintro ⟨next, step, s, left, right⟩
      exact ⟨s, ⟨next, step, left⟩, right⟩
    · rintro ⟨s, ⟨next, step, left⟩, right⟩
      exact ⟨next, step, s, left, right⟩

theorem snoc : r.History (events ++ [e]) t ↔ ∃ s, r.History events s ∧ Transition s e t := by
  rw [append]
  simp [History]

end History

/-! ## What an event says of an allocation -/

/-- The event makes an allocation at an address. -/
def Event.makes (pid : UInt32) (address : Nat) : Event → Bool
  | ⟨.alloc p _ _, .ok (.offset offset)⟩ => p == pid && offset == address
  | _ => false

/-- The event gives the allocation at an address back, alone or with the whole vault. -/
def Event.ends (pid : UInt32) (address : Nat) : Event → Bool
  | ⟨.dealloc p start, .ok _⟩ => p == pid && start == address
  | ⟨.unload p, .ok _⟩ => p == pid
  | _ => false

/-- The access to the `size` bytes at an address, if the event is one that stays within them. -/
def Event.access? (pid : UInt32) (address size : Nat) (e : Event) : Option Policy.Access :=
  (e.call.attempt? pid address).bind fun (access, length) =>
    if 0 < length ∧ length ≤ size then some access else none

/-- What the event stores as byte `i` of the allocation at an address. -/
def Event.stored? (pid : UInt32) (address i : Nat) : Event → Option UInt8
  | ⟨.write p start data, .ok _⟩ => if p = pid ∧ start = address then data[i]? else none
  | _ => none

def Event.loads? (pid : UInt32) : Event → Option (List (List UInt8))
  | ⟨.load p _ sources, .ok _⟩ => if p = pid then some sources else none
  | _ => none

/-- The accesses to the `size` bytes at an address, as a word. -/
def accessWord (pid : UInt32) (address size : Nat) (events : List Event) : List UInt8 :=
  (events.filterMap (·.access? pid address size)).map (·.symbol)

/-- The byte stored last, 0 if there is none. -/
def lastStored (pid : UInt32) (address i : Nat) (events : List Event) : UInt8 :=
  (events.filterMap (·.stored? pid address i)).getLast?.getD 0

/-- The expressions loaded last. -/
def lastLoaded (pid : UInt32) (events : List Event) : Option (List (List UInt8)) :=
  (events.filterMap (·.loads? pid)).getLast?

theorem accessWord_append (pid : UInt32) (address size : Nat) (earlier later : List Event) :
    accessWord pid address size (earlier ++ later) =
      accessWord pid address size earlier ++ accessWord pid address size later := by
  simp [accessWord]

theorem accessWord_snoc (pid : UInt32) (address size : Nat) (events : List Event) (e : Event) :
    accessWord pid address size (events ++ [e]) =
      accessWord pid address size events ++
        ((e.access? pid address size).map (·.symbol)).toList := by
  rw [accessWord_append]
  cases found : e.access? pid address size <;> simp [accessWord, found]

theorem lastStored_snoc (pid : UInt32) (address i : Nat) (events : List Event) (e : Event) :
    lastStored pid address i (events ++ [e]) =
      (e.stored? pid address i).getD (lastStored pid address i events) := by
  simp only [lastStored, List.filterMap_append]
  cases found : e.stored? pid address i <;> simp [found]

theorem lastLoaded_snoc (pid : UInt32) (events : List Event) (e : Event) :
    lastLoaded pid (events ++ [e]) = (e.loads? pid).or (lastLoaded pid events) := by
  simp only [lastLoaded, List.filterMap_append]
  cases found : e.loads? pid <;> simp [found]

/-! ## One event and one allocation -/

/-- What an event means for an allocation that lives before and after it. -/
inductive Passes (v : Vault) (address : Nat) (a : Allocation) : Event → Allocation → Prop
  | aside (c : Call) (answer : Except Vault.Error Value)
      (apart : c.attempt? v.pid address = none) : Passes v address a ⟨c, answer⟩ a
  | refused (c : Call) (e : Vault.Error)
      (outside : ∀ access length, c.attempt? v.pid address = some (access, length) →
        ¬ a.Fits length) : Passes v address a ⟨c, .error e⟩ a
  | read {length : Nat} (fits : a.Fits length)
      (allowed : (v.stepped a .read).verdict = .allowed) :
      Passes v address a ⟨.read v.pid address length, .ok (.data (a.bytes.take length))⟩
        { a with monitor := v.stepped a .read }
  | written {data : List UInt8} (fits : a.Fits data.length)
      (allowed : (v.stepped a .write).verdict = .allowed) :
      Passes v address a ⟨.write v.pid address data, .ok .done⟩
        ⟨a.size, v.stepped a .write, data ++ a.bytes.drop data.length⟩
  | rejected (c : Call) {length : Nat} {access : Policy.Access}
      (attempt : c.attempt? v.pid address = some (access, length)) (fits : a.Fits length)
      (rejected : (v.stepped a access).verdict = .rejected) :
      Passes v address a ⟨c, .error (v.refusal address a access)⟩
        { a with monitor := v.stepped a access }

def Keeps (s : Registry) (v : Vault) (address : Nat) (a : Allocation) (e : Event) : Prop :=
  ∃ w b, s.find? v.pid = some w ∧ v.Continues w ∧ w.allocation? address = some b ∧
    Passes v address a e b

@[simp] theorem attempt?_read (pid : UInt32) (address length : Nat) :
    (Call.read pid address length).attempt? pid address = some (.read, length) :=
  if_pos ⟨rfl, rfl⟩

@[simp] theorem attempt?_write (pid : UInt32) (address : Nat) (data : List UInt8) :
    (Call.write pid address data).attempt? pid address = some (.write, data.length) :=
  if_pos ⟨rfl, rfl⟩

theorem attempt?_other {c : Call} {other : UInt32} {start : Nat} {access : Policy.Access}
    {length : Nat} (attempt : c.attempt? other start = some (access, length))
    (apart : pid ≠ other ∨ address ≠ start) : c.attempt? pid address = none := by
  cases c with
  | read p begin size =>
    simp only [Call.attempt?, Option.ite_none_right_eq_some] at attempt ⊢
    obtain ⟨⟨rfl, rfl⟩, -⟩ := attempt
    rw [if_neg]
    rintro ⟨rfl, rfl⟩
    simp at apart
  | write p begin data =>
    simp only [Call.attempt?, Option.ite_none_right_eq_some] at attempt ⊢
    obtain ⟨⟨rfl, rfl⟩, -⟩ := attempt
    rw [if_neg]
    rintro ⟨rfl, rfl⟩
    simp at apart
  | _ => rfl

theorem makes_iff : e.makes pid address = true ↔
    ∃ size policy, e = ⟨.alloc pid size policy, .ok (.offset address)⟩ := by
  constructor
  · intro makes
    unfold Event.makes at makes
    split at makes
    · rename_i p size policy offset
      simp only [Bool.and_eq_true, beq_iff_eq] at makes
      obtain ⟨rfl, rfl⟩ := makes
      exact ⟨size, policy, rfl⟩
    · cases makes
  · rintro ⟨size, policy, rfl⟩
    simp [Event.makes]

/-- An allocation stays as it is when another one, or another vault, is updated. -/
theorem kept_of_updated {u : Vault} {other : UInt32} {start : Nat} {changed : Option Allocation}
    (located : r.find? other = some u) (updated : u.Updated start changed w)
    (found : r.find? pid = some v) (live : v.allocation? address = some a)
    (apart : pid ≠ other ∨ address ≠ start) :
    ∃ w', (r.replace w).find? pid = some w' ∧ v.Continues w' ∧ w'.allocation? address = some a := by
  have samePid := (mem_of_find? located).2
  by_cases here : pid = other
  · subst here
    obtain rfl := Option.some.inj (found.symm.trans located)
    have differ : address ≠ start := by simpa using apart
    exact ⟨w, find?_replace_here located updated.continues.pid, updated.continues,
      (updated.elsewhere address differ).trans live⟩
  · have differ : pid ≠ w.pid := by
      rw [updated.continues.pid, samePid]
      exact here
    exact ⟨v, (find?_replace_elsewhere differ).trans found, .refl v, live⟩

theorem keeps_of_access {u : Vault} {start length : Nat} {access : Policy.Access}
    {b changed : Allocation} (located : r.find? u.pid = some u)
    (liveB : u.allocation? start = some b) (updated : u.Updated start (some changed) w)
    (attempt : e.call.attempt? u.pid start = some (access, length))
    (passes : Passes u start b e changed) (found : r.find? v.pid = some v)
    (live : v.allocation? address = some a) : Keeps (r.replace w) v address a e := by
  by_cases apart : v.pid ≠ u.pid ∨ address ≠ start
  · -- The access is to another allocation, or in another vault.
    obtain ⟨w', kept, continues, same⟩ := kept_of_updated located updated found live apart
    exact ⟨w', a, kept, continues, same, .aside _ _ (attempt?_other attempt apart)⟩
  · simp only [not_or, not_not] at apart
    obtain ⟨same, rfl⟩ := apart
    rw [← same, found] at located
    obtain rfl := Option.some.inj located
    obtain rfl := Option.some.inj (live.symm.trans liveB)
    exact ⟨w, changed, find?_replace_here found updated.continues.pid, updated.continues,
      updated.here, passes⟩

/-- No event makes an allocation where one lives. Unless it ends there, the event passes it. -/
theorem Transition.live (step : Transition r e s) (sound : r.Sound)
    (found : r.find? v.pid = some v) (live : v.allocation? address = some a) :
    e.makes v.pid address = false ∧ (e.ends v.pid address = true ∨ Keeps s v address a e) := by
  have soundS := step.sound sound
  cases step with
  | @refused c e reason outside =>
    refine ⟨by simp [Event.makes], .inr ⟨v, a, found, .refl v, live, .refused c e ?_⟩⟩
    intro access length attempt
    exact outside _ _ access length attempt v a found live
  | viewed => exact ⟨rfl, .inr ⟨v, a, found, .refl v, live, .aside _ _ rfl⟩⟩
  | @loaded other _ _ u fresh created =>
    -- Only a process without a vault is given one.
    obtain ⟨-, -, rfl, -⟩ := Vault.create_spec created
    have differ : v.pid ≠ u.pid := by
      intro same
      rw [← same, found] at fresh
      cases fresh
    have kept := (find?_insert_elsewhere sound soundS differ).trans found
    exact ⟨rfl, .inr ⟨v, a, kept, .refl v, live, .aside _ _ rfl⟩⟩
  | @unloaded other u located =>
    refine ⟨rfl, ?_⟩
    by_cases here : other = v.pid
    · exact .inl (by simp [Event.ends, here])
    · have kept := (find?_erase_elsewhere r (Ne.symm here)).trans found
      exact .inr ⟨v, a, kept, .refl v, live, .aside _ _ rfl⟩
  | @allocated other u w size policy offset located soundW fresh known updated =>
    have apart : v.pid ≠ other ∨ address ≠ offset := by
      by_contra both
      simp only [not_or, not_not] at both
      obtain ⟨rfl, rfl⟩ := both
      obtain rfl := Option.some.inj (found.symm.trans located)
      simp [live] at fresh
    refine ⟨?_, ?_⟩
    · simp only [Event.makes, Bool.and_eq_false_iff, beq_eq_false_iff_ne]
      exact apart.imp Ne.symm Ne.symm
    · obtain ⟨w', kept, continues, same⟩ := kept_of_updated located updated found live apart
      exact .inr ⟨w', a, kept, continues, same, .aside _ _ rfl⟩
  | @deallocated other u w start b located _ soundW updated =>
    refine ⟨rfl, ?_⟩
    by_cases here : other = v.pid ∧ start = address
    · exact .inl (by simp [Event.ends, here])
    · have apart : v.pid ≠ other ∨ address ≠ start := by
        by_contra both
        simp only [not_or, not_not] at both
        exact here ⟨both.1.symm, both.2.symm⟩
      obtain ⟨w', kept, continues, same⟩ := kept_of_updated located updated found live apart
      exact .inr ⟨w', a, kept, continues, same, .aside _ _ rfl⟩
  | read located liveB fits allowed =>
    obtain rfl := (mem_of_find? located).2
    obtain ⟨soundW, updated⟩ := Vault.stepped_spec (sound.vault located).1 liveB .read
    exact ⟨rfl, .inr (keeps_of_access located liveB updated (attempt?_read ..)
      (.read fits allowed) found live)⟩
  | written located liveB fits allowed soundW updated =>
    obtain rfl := (mem_of_find? located).2
    exact ⟨rfl, .inr (keeps_of_access located liveB updated (attempt?_write ..)
      (.written fits allowed) found live)⟩
  | rejected c attempt located liveB fits rejected =>
    obtain rfl := (mem_of_find? located).2
    obtain ⟨soundW, updated⟩ := Vault.stepped_spec (sound.vault located).1 liveB _
    exact ⟨by simp [Event.makes], .inr (keeps_of_access located liveB updated attempt
      (.rejected c attempt fits rejected) found live)⟩

/-- What an updated vault holds was there before, but for the updated allocation. -/
theorem live_of_updated {u : Vault} {start : Nat} {changed : Option Allocation}
    (located : r.find? u.pid = some u) (updated : u.Updated start changed w)
    (found : (r.replace w).find? pid = some v) (live : v.allocation? address = some a) :
    (pid = u.pid ∧ address = start ∧ changed = some a) ∨
      ∃ v' a', r.find? pid = some v' ∧ v'.allocation? address = some a' ∧
        (pid ≠ u.pid ∨ address ≠ start) := by
  by_cases here : pid = u.pid
  · subst here
    have replaced := find?_replace_here located updated.continues.pid
    obtain rfl := Option.some.inj (replaced.symm.trans found)
    by_cases same : address = start
    · subst same
      exact .inl ⟨rfl, rfl, updated.here.symm.trans live⟩
    · exact .inr ⟨u, a, located, (updated.elsewhere address same).symm.trans live, .inr same⟩
  · have differ : pid ≠ w.pid := by
      rw [updated.continues.pid]
      exact here
    exact .inr ⟨v, a, (find?_replace_elsewhere differ).symm.trans found, live, .inl here⟩

theorem lived_of_access {u : Vault} {start : Nat} {b changed : Allocation}
    (located : r.find? u.pid = some u) (was : u.allocation? start = some b)
    (updated : u.Updated start (some changed) w) (found : (r.replace w).find? pid = some v)
    (live : v.allocation? address = some a) :
    ∃ v' a', r.find? pid = some v' ∧ v'.allocation? address = some a' := by
  rcases live_of_updated located updated found live with
    ⟨rfl, rfl, -⟩ | ⟨v', a', before, lived, -⟩
  · exact ⟨u, b, located, was⟩
  · exact ⟨v', a', before, lived⟩

/-- What lives after an event was made by it, or lived before and did not end. -/
theorem Transition.born (step : Transition r e s) (sound : r.Sound)
    (found : s.find? pid = some v) (live : v.allocation? address = some a) :
    e.makes pid address = true ∨ e.ends pid address = false ∧
      ∃ v' a', r.find? pid = some v' ∧ v'.allocation? address = some a' := by
  have soundS := step.sound sound
  cases step with
  | refused => exact .inr ⟨by simp [Event.ends], v, a, found, live⟩
  | viewed => exact .inr ⟨rfl, v, a, found, live⟩
  | @loaded other _ _ u fresh created =>
    obtain ⟨-, -, rfl, -, -, bare⟩ := Vault.create_spec created
    by_cases here : pid = u.pid
    · subst here
      obtain rfl := Option.some.inj ((find?_insert_here soundS).symm.trans found)
      simp [bare] at live
    · exact .inr ⟨rfl, v, a, (find?_insert_elsewhere sound soundS here).symm.trans found, live⟩
  | @unloaded other u located =>
    by_cases here : pid = other
    · subst here
      simp [find?_erase_here] at found
    · exact .inr ⟨by simp [Event.ends, Ne.symm here], v, a,
        (find?_erase_elsewhere r here).symm.trans found, live⟩
  | allocated located soundW fresh known updated =>
    obtain rfl := (mem_of_find? located).2
    rcases live_of_updated located updated found live with ⟨rfl, rfl, -⟩ | ⟨v', a', before, was, -⟩
    · exact .inl (by simp [Event.makes])
    · exact .inr ⟨rfl, v', a', before, was⟩
  | deallocated located was soundW updated =>
    obtain rfl := (mem_of_find? located).2
    rcases live_of_updated located updated found live with
      ⟨-, -, gone⟩ | ⟨v', a', before, was, apart⟩
    · cases gone
    · refine .inr ⟨?_, v', a', before, was⟩
      simp only [Event.ends, Bool.and_eq_false_iff, beq_eq_false_iff_ne]
      exact apart.imp Ne.symm Ne.symm
  | read located was fits allowed =>
    obtain rfl := (mem_of_find? located).2
    obtain ⟨soundW, updated⟩ := Vault.stepped_spec (sound.vault located).1 was .read
    exact .inr ⟨rfl, lived_of_access located was updated found live⟩
  | written located was fits allowed soundW updated =>
    obtain rfl := (mem_of_find? located).2
    exact .inr ⟨rfl, lived_of_access located was updated found live⟩
  | rejected c attempt located was fits rejected =>
    obtain rfl := (mem_of_find? located).2
    obtain ⟨soundW, updated⟩ := Vault.stepped_spec (sound.vault located).1 was _
    exact .inr ⟨by simp [Event.ends], lived_of_access located was updated found live⟩

/-! ## The policies of a process -/

theorem continues_of_updated {u : Vault} {start : Nat} {changed : Option Allocation}
    (located : r.find? u.pid = some u) (updated : u.Updated start changed w)
    (found : (r.replace w).find? pid = some v) :
    ∃ v', r.find? pid = some v' ∧ v'.Continues v := by
  by_cases here : pid = u.pid
  · subst here
    have replaced := find?_replace_here located updated.continues.pid
    obtain rfl := Option.some.inj (replaced.symm.trans found)
    exact ⟨u, located, updated.continues⟩
  · have differ : pid ≠ w.pid := by
      rw [updated.continues.pid]
      exact here
    exact ⟨v, (find?_replace_elsewhere differ).symm.trans found, .refl v⟩

/-- A vault after an event was created by it, or continues the one before. -/
theorem Transition.created_or_continues (step : Transition r e s) (sound : r.Sound)
    (found : s.find? pid = some w) :
    (∃ arenaSize sources, e = ⟨.load pid arenaSize sources, .ok .done⟩ ∧
        Vault.create pid arenaSize sources = .ok w) ∨
      e.loads? pid = none ∧ ∃ v, r.find? pid = some v ∧ v.Continues w := by
  have soundS := step.sound sound
  cases step with
  | refused => exact .inr ⟨by simp [Event.loads?], w, found, .refl w⟩
  | viewed => exact .inr ⟨rfl, w, found, .refl w⟩
  | @loaded other arenaSize sources u fresh created =>
    obtain ⟨-, -, rfl, -⟩ := Vault.create_spec created
    by_cases here : pid = u.pid
    · subst here
      obtain rfl := Option.some.inj ((find?_insert_here soundS).symm.trans found)
      exact .inl ⟨arenaSize, sources, rfl, created⟩
    · exact .inr ⟨if_neg (Ne.symm here), w,
        (find?_insert_elsewhere sound soundS here).symm.trans found, .refl w⟩
  | @unloaded other u located =>
    have here : pid ≠ other := by
      rintro rfl
      simp [find?_erase_here] at found
    exact .inr ⟨rfl, w, (find?_erase_elsewhere r here).symm.trans found, .refl w⟩
  | allocated located _ _ _ updated | deallocated located _ _ updated
  | written located _ _ _ _ updated =>
    obtain rfl := (mem_of_find? located).2
    exact .inr ⟨rfl, continues_of_updated located updated found⟩
  | read located was =>
    obtain rfl := (mem_of_find? located).2
    obtain ⟨-, updated⟩ := Vault.stepped_spec (sound.vault located).1 was .read
    exact .inr ⟨rfl, continues_of_updated located updated found⟩
  | rejected c _ located was =>
    obtain rfl := (mem_of_find? located).2
    obtain ⟨-, updated⟩ := Vault.stepped_spec (sound.vault located).1 was _
    exact .inr ⟨by simp [Event.loads?], continues_of_updated located updated found⟩

/-! ## An allocation since it was made -/

/-- An allocation as its events since it was made tell it. -/
structure Told (since : List Event) (v : Vault) (address policy : Nat) (a : Allocation) :
    Prop where
  bound : a.monitor.policy = some policy
  state : ∀ p, v.policies[policy]? = some p → a.monitor.current =
    p.automaton.run Policy.initial (accessWord v.pid address a.size since)
  bytes : ∀ i < a.size, a.bytes[i]? = some (lastStored v.pid address i since)

theorem told_fresh (v : Vault) (address policy size : Nat) :
    Told [] v address policy ⟨size, .start policy, List.replicate size 0⟩ where
  bound := rfl
  state := fun _ _ => rfl
  bytes := by
    intro i inside
    simp [lastStored, inside]

theorem access?_eq_some {access : Policy.Access} : e.access? pid address size = some access ↔
    ∃ length, e.call.attempt? pid address = some (access, length) ∧
      0 < length ∧ length ≤ size := by
  constructor
  · intro accessed
    obtain ⟨⟨kind, length⟩, attempt, inside⟩ := Option.bind_eq_some_iff.mp accessed
    obtain ⟨fits, same⟩ := Option.ite_none_right_eq_some.mp inside
    obtain rfl := Option.some.inj same
    exact ⟨length, attempt, fits⟩
  · rintro ⟨length, attempt, fits⟩
    rw [Event.access?, attempt]
    exact if_pos fits

theorem access?_eq_none (outside : ∀ access length,
    e.call.attempt? pid address = some (access, length) → ¬ a.Fits length) :
    e.access? pid address a.size = none := by
  cases attempt : e.call.attempt? pid address with
  | none => simp [Event.access?, attempt]
  | some pair =>
    simp only [Event.access?, attempt, Option.bind_some]
    exact if_neg (outside pair.1 pair.2 attempt)

theorem stored?_error (c : Call) (failure : Vault.Error) (i : Nat) :
    Event.stored? pid address i ⟨c, .error failure⟩ = none := by
  simp [Event.stored?]

theorem stored?_eq_none (apart : e.call.attempt? pid address = none) (i : Nat) :
    e.stored? pid address i = none := by
  unfold Event.stored?
  split
  · rename_i p start data _
    have elsewhere : ¬ (p = pid ∧ start = address) := by
      simpa [Call.attempt?] using apart
    rw [if_neg elsewhere]
  · rfl

theorem stepped_current {p : Policy.Loaded} {access : Policy.Access}
    (bound : a.monitor.policy = some policy) (found : v.policies[policy]? = some p) :
    (v.stepped a access).current = p.automaton.next a.monitor.current access.symbol :=
  congrArg Policy.Monitor.current (Policy.Monitor.step_bound bound found access.symbol)

/-- An event that stores nothing, where the monitor steps if the event is an access. -/
theorem Told.unstored {since : List Event} (told : Told since v address policy a)
    (continues : v.Continues w) (nothing : ∀ i, e.stored? v.pid address i = none)
    {monitor : Policy.Monitor} (bound : monitor.policy = some policy)
    (state : ∀ p, v.policies[policy]? = some p → monitor.current =
      p.automaton.run Policy.initial (accessWord v.pid address a.size (since ++ [e]))) :
    Told (since ++ [e]) w address policy { a with monitor := monitor } where
  bound := bound
  state := by
    intro q found
    obtain ⟨p, located, same⟩ := continues.policy found
    rw [continues.pid, same]
    exact state p located
  bytes := by
    intro i inside
    rw [continues.pid, lastStored_snoc, nothing i]
    exact told.bytes i inside

theorem Told.state_stepped {since : List Event} (told : Told since v address policy a)
    {access : Policy.Access} (accessed : e.access? v.pid address a.size = some access)
    (p : Policy.Loaded) (found : v.policies[policy]? = some p) :
    (v.stepped a access).current =
      p.automaton.run Policy.initial (accessWord v.pid address a.size (since ++ [e])) := by
  rw [stepped_current told.bound found, told.state p found, accessWord_snoc, accessed]
  simp [Policy.Automaton.run]

theorem Told.state_kept {since : List Event} (told : Told since v address policy a)
    (noAccess : e.access? v.pid address a.size = none)
    (p : Policy.Loaded) (found : v.policies[policy]? = some p) :
    a.monitor.current =
      p.automaton.run Policy.initial (accessWord v.pid address a.size (since ++ [e])) := by
  rw [told.state p found, accessWord_snoc, noAccess]
  simp

theorem Told.next {since : List Event} (told : Told since v address policy a)
    (passes : Passes v address a e b) (continues : v.Continues w) :
    b.size = a.size ∧ Told (since ++ [e]) w address policy b := by
  cases passes with
  | aside c answer apart =>
    refine ⟨rfl, told.unstored continues (stored?_eq_none apart) told.bound
      (told.state_kept (access?_eq_none ?_))⟩
    simp [apart]
  | refused c e outside =>
    exact ⟨rfl, told.unstored continues (stored?_error c e) told.bound
      (told.state_kept (access?_eq_none outside))⟩
  | read fits allowed =>
    exact ⟨rfl, told.unstored continues (fun _ => rfl) told.bound
      (told.state_stepped (access?_eq_some.mpr ⟨_, attempt?_read .., fits⟩))⟩
  | rejected c attempt fits rejected =>
    exact ⟨rfl, told.unstored continues (stored?_error c _) told.bound
      (told.state_stepped (access?_eq_some.mpr ⟨_, attempt, fits⟩))⟩
  | @written data fits allowed =>
    have accessed : Event.access? v.pid address a.size ⟨.write v.pid address data, .ok .done⟩ =
        some .write := access?_eq_some.mpr ⟨_, attempt?_write .., fits⟩
    refine ⟨rfl, told.bound, ?_, ?_⟩
    · intro q found
      obtain ⟨p, located, same⟩ := continues.policy found
      rw [continues.pid, same]
      exact told.state_stepped accessed p located
    · intro i inside
      rw [continues.pid, lastStored_snoc]
      have stored : Event.stored? v.pid address i ⟨.write v.pid address data, .ok .done⟩ =
          data[i]? := if_pos ⟨rfl, rfl⟩
      rw [stored]
      by_cases written : i < data.length
      · rw [List.getElem?_append_left written, List.getElem?_eq_getElem written]
        rfl
      · rw [List.getElem?_append_right (by omega), List.getElem?_drop,
          Nat.add_sub_cancel' (by omega), told.bytes i inside,
          List.getElem?_eq_none (by omega)]
        rfl

namespace History

/-- A live allocation stays until an event ends it, and none is made in its place. -/
theorem keeps {since : List Event} (history : r.History since t) (sound : r.Sound)
    (found : r.find? pid = some v) (live : v.allocation? address = some a)
    (told : Told [] v address policy a) (lives : ∀ f ∈ since, f.ends pid address = false) :
    (∀ f ∈ since, f.makes pid address = false) ∧ ∃ w b, t.find? pid = some w ∧
      v.Continues w ∧ w.allocation? address = some b ∧ b.size = a.size ∧
      Told since w address policy b := by
  -- From the last event back: up to it the allocation lives, and it passes the event.
  induction since using List.reverseRecOn generalizing t with
  | nil =>
    obtain rfl : r = t := history
    exact ⟨by simp, v, a, found, .refl v, live, rfl, told⟩
  | append_singleton since e ih =>
    obtain ⟨s, before, step⟩ := snoc.mp history
    obtain ⟨others, last⟩ := List.forall_mem_append.mp lives
    obtain ⟨quiet, w, b, foundW, continues, liveB, size, toldB⟩ := ih before others
    obtain rfl := (mem_of_find? foundW).2
    obtain ⟨unmade, ended | ⟨u, c, foundU, next, liveC, passes⟩⟩ :=
      step.live (before.sound sound) foundW liveB
    · rw [last e (by simp)] at ended
      cases ended
    · obtain ⟨sizeC, toldC⟩ := toldB.next passes next
      exact ⟨List.forall_mem_append.mpr ⟨quiet, by simp [unmade]⟩, u, c, foundU,
        continues.trans next, liveC, sizeC.trans size, toldC⟩

/-- What lives was made by an event, and none after it ended it. -/
theorem made (history : r.History events t) (sound : r.Sound)
    (bare : ∀ v, r.find? pid = some v → v.allocation? address = none)
    (found : t.find? pid = some w) (live : w.allocation? address = some b) :
    ∃ before e since, events = before ++ e :: since ∧ e.makes pid address = true ∧
      ∀ f ∈ since, f.ends pid address = false := by
  induction events using List.reverseRecOn generalizing t w b with
  | nil =>
    obtain rfl : r = t := history
    simp [bare w found] at live
  | append_singleton events e ih =>
    obtain ⟨s, earlier, step⟩ := snoc.mp history
    rcases step.born (earlier.sound sound) found live with
      makes | ⟨lives, v, a, foundV, liveA⟩
    · exact ⟨events, e, [], rfl, makes, by simp⟩
    · obtain ⟨before, origin, since, rfl, makes, unended⟩ := ih earlier foundV liveA
      exact ⟨before, origin, since ++ [e], by simp, makes,
        List.forall_mem_append.mpr ⟨unended, by simp [lives]⟩⟩

/-- The policies of a process are those loaded last. -/
theorem sources (history : r.History events t) (sound : r.Sound)
    (bare : ∀ pid, r.find? pid = none) (found : t.find? pid = some w) :
    lastLoaded pid events = some (w.policies.map (·.source)) := by
  induction events using List.reverseRecOn generalizing t w with
  | nil =>
    obtain rfl : r = t := history
    simp [bare pid] at found
  | append_singleton events e ih =>
    obtain ⟨s, earlier, step⟩ := snoc.mp history
    rw [lastLoaded_snoc]
    rcases step.created_or_continues (earlier.sound sound) found with
      ⟨arenaSize, sources, rfl, created⟩ | ⟨nothing, v, foundV, continues⟩
    · obtain ⟨-, -, -, -, same, -⟩ := Vault.create_spec created
      simp [Event.loads?, same]
    · rw [nothing, Option.none_or, ih earlier foundV, continues.sources]

/-- An allocation of which the history has the making, but no end. -/
theorem since_made {before since : List Event} (history : r.History
      (before ++ ⟨.alloc pid size policy, .ok (.offset address)⟩ :: since) t)
    (sound : r.Sound) (lives : ∀ f ∈ since, f.ends pid address = false) :
    (∀ f ∈ since, f.makes pid address = false) ∧ ∃ s v w b, r.History before s ∧
      s.find? pid = some v ∧ policy < v.policies.length ∧ t.find? pid = some w ∧
      v.Continues w ∧ w.allocation? address = some b ∧ b.size = size ∧
      Told since w address policy b := by
  obtain ⟨s, first, s', making, rest⟩ := append.mp history
  have soundS := first.sound sound
  have soundMade := making.sound soundS
  cases making with
  | @allocated _ v u _ _ _ found soundU fresh known updated =>
    have foundU := find?_replace_here found updated.continues.pid
    obtain ⟨quiet, w, b, foundW, continues, live, sameSize, told⟩ :=
      rest.keeps soundMade foundU updated.here (told_fresh u address policy size) lives
    exact ⟨quiet, s, v, w, b, first, found, known, foundW, updated.continues.trans continues,
      live, sameSize, told⟩

end History

end PolicyVault.Registry
