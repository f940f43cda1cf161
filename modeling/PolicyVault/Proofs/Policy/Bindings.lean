import Mathlib.Data.List.Perm.Basic
import PolicyVault.Policy.Monitor

/-!
# Bindings

A policy counts the monitors bound to it. The count is changed in five places: binding, unbinding,
duplicating and discarding a monitor, and a binding that fails, which changes nothing. Any number
of policies and monitors makes a pool, and in every pool that calls lead to the count of each
policy is the number of monitors bound to it.

Main statement: `Policy.Pool.bindings_exact`.
-/

namespace PolicyVault.Policy

namespace Book

variable {book : Book} {i j : Nat} {p : Loaded}

/-- What changing one policy leaves of a book. -/
theorem bindings_modify {f : Loaded → Loaded} (found : (List.modify book i f)[j]? = some p) :
    ∃ q, book[j]? = some q ∧ p = if i = j then f q else q := by
  rw [List.getElem?_modify] at found
  obtain ⟨q, located, rfl⟩ := Option.map_eq_some_iff.mp found
  exact ⟨q, located, by split <;> rfl⟩

theorem acquire_ok (found : book[i]? = some p) (active : p.retired = false) :
    book.acquire i = .ok (book.retain i) := by
  have bound := (List.getElem?_eq_some_iff.mp found).1
  have same : book[i] = p := (List.getElem?_eq_some_iff.mp found).2
  simp only [acquire, found, Loaded.acquire, active, Bool.false_eq_true, if_false]
  congr 1
  apply List.ext_getElem?
  intro j
  rw [retain, List.getElem?_set, List.getElem?_modify]
  by_cases here : i = j
  · subst here
    simp [bound, same, Loaded.retain, active]
  · simp [here]

theorem acquire_retired (found : book[i]? = some p) (retired : p.retired = true) :
    book.acquire i = .error .retired := by
  simp only [acquire, found, Loaded.acquire, retired, if_true]

end Book

namespace Monitor

/-- A fresh monitor bound to a policy. -/
def start (i : Nat) : Monitor := ⟨some i, initial, sink, none⟩

variable {book : Book} {i : Nat} {p : Loaded} {m : Monitor}

theorem bind_ok (found : book[i]? = some p) (active : p.retired = false) :
    bind book i = .ok (start i, book.retain i) := by
  rw [bind, Book.acquire_ok found active]
  rfl

theorem bind_retired (found : book[i]? = some p) (retired : p.retired = true) :
    bind book i = .error .retired := by
  rw [bind, Book.acquire_retired found retired]

theorem bind_inversion {others : Book} (bound : bind book i = .ok (m, others)) :
    (∃ p, book[i]? = some p ∧ p.retired = false) ∧ m = start i ∧ others = book.retain i := by
  cases found : book[i]? with
  | none => simp [bind, Book.acquire, found] at bound
  | some p =>
    cases retired : p.retired with
    | true =>
      rw [bind_retired found retired] at bound
      cases bound
    | false =>
      rw [bind_ok found retired] at bound
      obtain ⟨rfl, rfl⟩ := Prod.mk.inj (Except.ok.inj bound)
      exact ⟨⟨p, rfl, retired⟩, rfl, rfl⟩

theorem unbind_ok (bound : m.policy = some i) (book : Book) :
    m.unbind book =
      .ok ({ m with policy := none, current := sink, previous := sink }, book.release i) := by
  simp [unbind, bound]

end Monitor

/-! ## Pools of policies and monitors -/

/-- How many of some monitors are bound to a policy. -/
def boundCount (monitors : List Monitor) (policy : Nat) : Nat :=
  monitors.countP (·.policy == some policy)

theorem boundCount_cons (m : Monitor) (monitors : List Monitor) (i : Nat) :
    boundCount (m :: monitors) i =
      boundCount monitors i + if m.policy = some i then 1 else 0 := by
  simp [boundCount, List.countP_cons]

theorem boundCount_snoc (monitors : List Monitor) (m : Monitor) (i : Nat) :
    boundCount (monitors ++ [m]) i =
      boundCount monitors i + if m.policy = some i then 1 else 0 := by
  simp [boundCount, List.countP_cons]

theorem boundCount_perm {before after : List Monitor} (perm : before.Perm after) (i : Nat) :
    boundCount before i = boundCount after i :=
  perm.countP_eq _

theorem boundCount_pos {monitors : List Monitor} {m : Monitor} {i : Nat} (member : m ∈ monitors)
    (bound : m.policy = some i) : 0 < boundCount monitors i :=
  List.countP_pos_iff.mpr ⟨m, member, by simp [bound]⟩

theorem boundCount_set {monitors : List Monitor} {m : Monitor} {k : Nat}
    (found : monitors[k]? = some m) (other : Monitor) (i : Nat) :
    boundCount (monitors.set k other) i + (if m.policy = some i then 1 else 0) =
      boundCount monitors i + if other.policy = some i then 1 else 0 := by
  obtain ⟨inside, rfl⟩ := List.getElem?_eq_some_iff.mp found
  rw [boundCount_perm (List.set_perm_cons_eraseIdx inside other),
    ← boundCount_perm (List.getElem_cons_eraseIdx_perm inside), boundCount_cons, boundCount_cons]
  omega

theorem boundCount_eraseIdx {monitors : List Monitor} {m : Monitor} {k : Nat}
    (found : monitors[k]? = some m) (i : Nat) :
    boundCount monitors i =
      boundCount (monitors.eraseIdx k) i + if m.policy = some i then 1 else 0 := by
  obtain ⟨inside, rfl⟩ := List.getElem?_eq_some_iff.mp found
  rw [← boundCount_perm (List.getElem_cons_eraseIdx_perm inside), boundCount_cons]

/-- Policies by number, and the monitors that live. -/
structure Pool where
  book : Book
  monitors : List Monitor

namespace Pool

def empty : Pool := ⟨[], []⟩

/-- What a monitor can do by itself. -/
inductive Move
  | step (b : UInt8)
  | stepBack
  | reload
  | invalidate
  | setNote (note : String)
  deriving DecidableEq

def Move.apply (book : Book) (m : Monitor) : Move → Monitor
  | .step b => m.step book b
  | .stepBack => m.stepBack
  | .reload => m.reload
  | .invalidate => m.invalidate
  | .setNote note => m.setNote note

inductive Call
  | load (source : List UInt8)
  | retire (policy : Nat)
  | bind (policy : Nat)
  | unbind (monitor : Nat)
  | duplicate (monitor : Nat)
  | discard (monitor : Nat)
  | move (monitor : Nat) (move : Move)

abbrev Answer := Except Error Unit × Pool

/-- A call about a monitor. Where no monitor lives, nothing happens. -/
def onMonitor (g : Pool) (monitor : Nat) (operation : Monitor → Answer) : Answer :=
  match g.monitors[monitor]? with
  | none => (.ok (), g)
  | some m => operation m

def perform (g : Pool) : Call → Answer
  | .load source =>
    match Loaded.load source with
    | .error e => (.error e, g)
    | .ok p => (.ok (), { g with book := g.book ++ [p] })
  | .retire policy =>
    match g.book.retire policy with
    | .error e => (.error e, g)
    | .ok book => (.ok (), { g with book := book })
  | .bind policy =>
    match Monitor.bind g.book policy with
    | .error e => (.error e, g)
    | .ok (m, book) => (.ok (), ⟨book, g.monitors ++ [m]⟩)
  | .unbind monitor =>
    g.onMonitor monitor fun m =>
      match m.unbind g.book with
      | .error e => (.error e, g)
      | .ok (m, book) => (.ok (), ⟨book, g.monitors.set monitor m⟩)
  | .duplicate monitor =>
    g.onMonitor monitor fun m =>
      let (copy, book) := m.duplicate g.book
      (.ok (), ⟨book, g.monitors ++ [copy]⟩)
  | .discard monitor =>
    g.onMonitor monitor fun m => (.ok (), ⟨m.discard g.book, g.monitors.eraseIdx monitor⟩)
  | .move monitor move =>
    g.onMonitor monitor fun m =>
      (.ok (), { g with monitors := g.monitors.set monitor (move.apply g.book m) })

def after (g : Pool) (calls : List Call) : Pool :=
  calls.foldl (fun g c => (g.perform c).2) g

variable {g h : Pool} {i : Nat} {p : Loaded} {m : Monitor}

/-- All that one call can do to the counts and to what is bound. -/
inductive Step (g : Pool) : Pool → Prop
  | kept {monitors : List Monitor} (same : ∀ i, boundCount monitors i = boundCount g.monitors i) :
      Step g ⟨g.book, monitors⟩
  | loaded {p : Loaded} (fresh : p.bindings = 0) (active : p.retired = false) :
      Step g ⟨g.book ++ [p], g.monitors⟩
  | retired {i : Nat} {p : Loaded} (found : g.book[i]? = some p) (idle : p.bindings = 0) :
      Step g ⟨g.book.set i { p with retired := true }, g.monitors⟩
  | gained {i : Nat} {monitors : List Monitor}
      (usable : (∃ p, g.book[i]? = some p ∧ p.retired = false) ∨ 0 < boundCount g.monitors i)
      (more : ∀ j, boundCount monitors j = boundCount g.monitors j + if i = j then 1 else 0) :
      Step g ⟨g.book.retain i, monitors⟩
  | lost {i : Nat} {monitors : List Monitor}
      (fewer : ∀ j, boundCount g.monitors j = boundCount monitors j + if i = j then 1 else 0) :
      Step g ⟨g.book.release i, monitors⟩

/-! ## Every call is a step -/

theorem Move.apply_policy (book : Book) (m : Monitor) (move : Move) :
    (move.apply book m).policy = m.policy := by
  cases move with
  | reload =>
    simp only [Move.apply, Monitor.reload]
    split <;> rfl
  | _ => rfl

theorem Step.refl (g : Pool) : Step g g := .kept fun _ => rfl

theorem step_load (g : Pool) (source : List UInt8) : Step g (g.perform (.load source)).2 := by
  simp only [perform]
  split
  · exact .refl g
  · rename_i p loaded
    unfold Loaded.load at loaded
    split at loaded
    · cases loaded
    · obtain rfl := Except.ok.inj loaded
      exact .loaded rfl rfl

theorem retire_eq (found : g.book[i]? = some p) : g.perform (.retire i) =
    if p.bindings = 0 then (.ok (), ⟨g.book.set i { p with retired := true }, g.monitors⟩)
    else (.error (.inUse p.bindings), g) := by
  simp only [perform, Book.retire, found, Loaded.retire]
  by_cases idle : p.bindings = 0 <;> simp [idle]

theorem step_retire (g : Pool) (policy : Nat) : Step g (g.perform (.retire policy)).2 := by
  cases found : g.book[policy]? with
  | none =>
    simp only [perform, Book.retire, found]
    exact .refl g
  | some p =>
    rw [retire_eq found]
    split
    · rename_i idle
      exact .retired found idle
    · exact .refl g

theorem step_bind (g : Pool) (policy : Nat) : Step g (g.perform (.bind policy)).2 := by
  simp only [perform]
  cases found : g.book[policy]? with
  | none =>
    simp only [Monitor.bind, Book.acquire, found]
    exact .refl g
  | some p =>
    cases retired : p.retired with
    | false =>
      rw [Monitor.bind_ok found retired]
      refine .gained (.inl ⟨p, found, retired⟩) fun j => ?_
      rw [boundCount_snoc]
      simp [Monitor.start]
    | true =>
      rw [Monitor.bind_retired found retired]
      exact .refl g

theorem step_onMonitor {operation : Monitor → Answer}
    (step : ∀ m, g.monitors[i]? = some m → Step g (operation m).2) :
    Step g (g.onMonitor i operation).2 := by
  unfold onMonitor
  split
  · exact .refl g
  · rename_i m found
    exact step m found

theorem perform_step (g : Pool) (c : Call) : Step g (g.perform c).2 := by
  cases c with
  | load source => exact step_load g source
  | retire policy => exact step_retire g policy
  | bind policy => exact step_bind g policy
  | unbind monitor =>
    apply step_onMonitor
    intro m found
    cases bound : m.policy with
    | none =>
      simp only [Monitor.unbind, bound]
      exact .refl g
    | some policy =>
      rw [Monitor.unbind_ok bound]
      refine .lost fun j => ?_
      have count :=
        boundCount_set found { m with policy := none, current := sink, previous := sink } j
      simpa [bound] using count.symm
  | duplicate monitor =>
    apply step_onMonitor
    intro m found
    cases bound : m.policy with
    | none =>
      simp only [Monitor.duplicate, bound]
      refine .kept fun j => ?_
      rw [boundCount_snoc]
      simp
    | some policy =>
      simp only [Monitor.duplicate, bound]
      have binds := boundCount_pos (List.mem_of_getElem? found) bound
      refine .gained (.inr binds) fun j => ?_
      rw [boundCount_snoc]
      simp
  | discard monitor =>
    apply step_onMonitor
    intro m found
    cases bound : m.policy with
    | none =>
      simp only [Monitor.discard, bound]
      refine .kept fun j => ?_
      rw [boundCount_eraseIdx found]
      simp [bound]
    | some policy =>
      simp only [Monitor.discard, bound]
      refine .lost fun j => ?_
      rw [boundCount_eraseIdx found]
      simp [bound]
  | move monitor move =>
    apply step_onMonitor
    intro m found
    refine .kept fun j => ?_
    have count := boundCount_set found (move.apply g.book m) j
    rw [Move.apply_policy] at count
    omega

/-! ## What every step keeps -/

/-- A policy counts what is bound to it, and nothing is bound to a retired one. -/
structure Balanced (monitors : List Monitor) (i : Nat) (p : Loaded) : Prop where
  count : p.bindings = boundCount monitors i
  idle : p.retired = true → p.bindings = 0

structure Counted (g : Pool) : Prop where
  balanced : ∀ i p, g.book[i]? = some p → Balanced g.monitors i p
  known : ∀ i, g.book.length ≤ i → boundCount g.monitors i = 0

theorem empty_counted : empty.Counted where
  balanced i p found := by simp [empty] at found
  known _ _ := rfl

theorem Counted.kept (counted : g.Counted) {monitors : List Monitor}
    (same : ∀ i, boundCount monitors i = boundCount g.monitors i) :
    Counted ⟨g.book, monitors⟩ := by
  constructor
  · intro i p found
    obtain ⟨count, idle⟩ := counted.balanced i p found
    exact ⟨count.trans (same i).symm, idle⟩
  · intro i outside
    exact (same i).trans (counted.known i outside)

theorem Counted.loaded (counted : g.Counted) (fresh : p.bindings = 0) :
    Counted ⟨g.book ++ [p], g.monitors⟩ := by
  constructor
  · intro i q found
    rw [List.getElem?_append] at found
    split at found
    · exact counted.balanced i q found
    · rename_i behind
      obtain rfl := List.mem_singleton.mp (List.mem_of_getElem? found)
      have none := counted.known i (Nat.le_of_not_lt behind)
      exact ⟨fresh.trans none.symm, fun _ => fresh⟩
  · intro i outside
    rw [List.length_append] at outside
    exact counted.known i (Nat.le_of_add_right_le outside)

theorem Counted.retired (counted : g.Counted) (found : g.book[i]? = some p)
    (idle : p.bindings = 0) : Counted ⟨g.book.set i { p with retired := true }, g.monitors⟩ := by
  constructor
  · intro j q located
    rw [List.getElem?_set] at located
    split at located
    · rename_i here
      obtain ⟨-, same⟩ := Option.ite_none_right_eq_some.mp located
      obtain rfl := Option.some.inj same
      exact ⟨here ▸ (counted.balanced i p found).count, fun _ => idle⟩
    · exact counted.balanced j q located
  · intro j outside
    exact counted.known j (by simpa using outside)

/-- What can be bound is a policy of the pool, and not a retired one. -/
theorem Counted.usable (counted : g.Counted)
    (usable : (∃ p, g.book[i]? = some p ∧ p.retired = false) ∨ 0 < boundCount g.monitors i) :
    ∃ p, g.book[i]? = some p ∧ p.retired = false := by
  rcases usable with active | binds
  · exact active
  · have inside : i < g.book.length := by
      by_contra outside
      exact Nat.ne_of_gt binds (counted.known i (Nat.le_of_not_lt outside))
    have found : g.book[i]? = some g.book[i] := List.getElem?_eq_getElem inside
    obtain ⟨count, idle⟩ := counted.balanced i _ found
    refine ⟨_, found, ?_⟩
    cases retired : g.book[i].retired with
    | false => rfl
    | true => exact absurd (count.symm.trans (idle retired)) (Nat.ne_of_gt binds)

theorem Counted.gained (counted : g.Counted) {monitors : List Monitor}
    (usable : ∃ p, g.book[i]? = some p ∧ p.retired = false)
    (more : ∀ j, boundCount monitors j = boundCount g.monitors j + if i = j then 1 else 0) :
    Counted ⟨g.book.retain i, monitors⟩ := by
  obtain ⟨p, found, active⟩ := usable
  constructor
  · intro j q changed
    obtain ⟨origin, located, rfl⟩ := Book.bindings_modify changed
    obtain ⟨count, idle⟩ := counted.balanced j origin located
    split
    · rename_i here
      subst here
      obtain rfl := Option.some.inj (located.symm.trans found)
      constructor
      · rw [more, if_pos rfl, ← count]
        rfl
      · intro retired
        have active : origin.retain.retired = false := active
        cases retired.symm.trans active
    · rename_i elsewhere
      refine ⟨?_, idle⟩
      rw [more, if_neg elsewhere, count, Nat.add_zero]
  · intro j outside
    have outside : g.book.length ≤ j := by simpa [Book.retain] using outside
    have inside := (List.getElem?_eq_some_iff.mp found).1
    rw [more, counted.known j outside, if_neg (by omega)]

theorem Counted.lost (counted : g.Counted) {monitors : List Monitor}
    (fewer : ∀ j, boundCount g.monitors j = boundCount monitors j + if i = j then 1 else 0) :
    Counted ⟨g.book.release i, monitors⟩ := by
  constructor
  · intro j q changed
    obtain ⟨origin, located, rfl⟩ := Book.bindings_modify changed
    obtain ⟨count, idle⟩ := counted.balanced j origin located
    rw [fewer] at count
    split
    · rename_i here
      rw [if_pos here] at count
      constructor
      · simp only [Loaded.release, count, Nat.add_sub_cancel]
      · intro retired
        simp only [Loaded.release, idle retired]
    · rename_i elsewhere
      rw [if_neg elsewhere] at count
      exact ⟨count, idle⟩
  · intro j outside
    have outside : g.book.length ≤ j := by simpa [Book.release] using outside
    have less := fewer j
    rw [counted.known j outside] at less
    exact (Nat.add_eq_zero_iff.mp less.symm).1

theorem Step.counted (step : Step g h) (counted : g.Counted) : h.Counted := by
  cases step with
  | kept same => exact counted.kept same
  | loaded fresh _ => exact counted.loaded fresh
  | retired found idle => exact counted.retired found idle
  | gained usable more => exact counted.gained (counted.usable usable) more
  | lost fewer => exact counted.lost fewer

theorem after_counted (counted : g.Counted) (calls : List Call) : (g.after calls).Counted := by
  induction calls generalizing g with
  | nil => exact counted
  | cons c calls ih => exact ih ((perform_step g c).counted counted)

/-! ## Retired policies -/

def Retired (g : Pool) (i : Nat) : Prop := ∃ p, g.book[i]? = some p ∧ p.retired = true

theorem Step.retired_kept (step : Step g h) (retired : g.Retired i) : h.Retired i := by
  obtain ⟨p, found, isRetired⟩ := retired
  have modified : ∀ (f : Loaded → Loaded), (∀ p, (f p).retired = p.retired) → ∀ j,
      ∃ q, (List.modify g.book j f)[i]? = some q ∧ q.retired = true := by
    intro f same j
    rw [List.getElem?_modify, found]
    by_cases here : j = i
    · exact ⟨f p, by simp [here], (same p).trans isRetired⟩
    · exact ⟨p, by simp [here], isRetired⟩
  cases step with
  | kept => exact ⟨p, found, isRetired⟩
  | loaded =>
    have inside := (List.getElem?_eq_some_iff.mp found).1
    exact ⟨p, (List.getElem?_append_left inside).trans found, isRetired⟩
  | @retired j q =>
    by_cases here : j = i
    · have inside := (List.getElem?_eq_some_iff.mp found).1
      exact ⟨{ q with retired := true }, by simp [here, inside], rfl⟩
    · exact ⟨p, by simp [here, found], isRetired⟩
  | @gained j => exact modified Loaded.retain (fun _ => rfl) j
  | @lost j => exact modified Loaded.release (fun _ => rfl) j

theorem after_retired (retired : g.Retired i) (calls : List Call) : (g.after calls).Retired i := by
  induction calls generalizing g with
  | nil => exact retired
  | cons c calls ih => exact ih ((perform_step g c).retired_kept retired)

/-- Nothing is bound to a retired policy, and nothing can be. -/
theorem Retired.unused (retired : g.Retired i) (counted : g.Counted) :
    boundCount g.monitors i = 0 ∧ (∃ p, g.book[i]? = some p ∧ p.bindings = 0) ∧
      g.perform (.bind i) = (.error .retired, g) := by
  obtain ⟨p, found, isRetired⟩ := retired
  obtain ⟨count, idle⟩ := counted.balanced i p found
  have none := idle isRetired
  refine ⟨count.symm.trans none, ⟨p, found, none⟩, ?_⟩
  simp only [perform, Monitor.bind_retired found isRetired]

/-- After any calls in any order, each policy counts the monitors bound to it, and a monitor is
bound only to a policy that is there, so no count is ever taken below 0. Retiring succeeds exactly
if nothing is bound, and else it tells how much is and changes nothing. A policy that was retired
has no binding in any later pool, and every attempt to bind it fails. -/
theorem bindings_exact (calls : List Call) :
    let g := empty.after calls
    (∀ m ∈ g.monitors, ∀ i, m.policy = some i →
      ∃ p, g.book[i]? = some p ∧ 0 < p.bindings ∧ p.retired = false) ∧
    ∀ i p, g.book[i]? = some p →
      p.bindings = boundCount g.monitors i ∧
      ((g.perform (.retire i)).1 = .ok () ↔ boundCount g.monitors i = 0) ∧
      (boundCount g.monitors i ≠ 0 →
        g.perform (.retire i) = (.error (.inUse (boundCount g.monitors i)), g)) ∧
      ((g.perform (.retire i)).1 = .ok () → ∀ later,
        let h := (g.perform (.retire i)).2.after later
        boundCount h.monitors i = 0 ∧ (∃ q, h.book[i]? = some q ∧ q.bindings = 0) ∧
          h.perform (.bind i) = (.error .retired, h)) := by
  intro g
  have counted : g.Counted := after_counted empty_counted calls
  constructor
  · intro m member i bound
    have binds := boundCount_pos member bound
    obtain ⟨p, found, active⟩ := counted.usable (.inr binds)
    have count := (counted.balanced i p found).count
    exact ⟨p, found, count ▸ binds, active⟩
  · intro i p found
    have count := (counted.balanced i p found).count
    rw [← count]
    by_cases idle : p.bindings = 0
    · have retiring : g.perform (.retire i) =
          (.ok (), ⟨g.book.set i { p with retired := true }, g.monitors⟩) := by
        rw [retire_eq found, if_pos idle]
      refine ⟨rfl, by simp [retiring, idle], fun binds => absurd idle binds, fun _ later => ?_⟩
      have inside := (List.getElem?_eq_some_iff.mp found).1
      have next := (perform_step g (.retire i)).counted counted
      have retired : (g.perform (.retire i)).2.Retired i :=
        ⟨{ p with retired := true }, by simp [retiring, inside], rfl⟩
      exact (after_retired retired later).unused (after_counted next later)
    · have refusal : g.perform (.retire i) = (.error (.inUse p.bindings), g) := by
        rw [retire_eq found, if_neg idle]
      exact ⟨rfl, by simp [refusal, idle], fun _ => refusal, by simp [refusal]⟩

/-- Calls that load the policy `R`, bind a monitor to it, and leave only its duplicate bound. -/
def duplicated : List Call := [.load [0x52], .bind 0, .duplicate 0, .unbind 0]

theorem bindings_exact_duplicated :
    let g := empty.after duplicated
    let h := empty.after (duplicated ++ [.discard 1])
    (∃ m ∈ g.monitors, m.policy = some 0) ∧
      g.perform (.retire 0) = (.error (.inUse 1), g) ∧ (h.perform (.retire 0)).1 = .ok () ∧
      ∀ later, let last := (h.perform (.retire 0)).2.after later
        boundCount last.monitors 0 = 0 ∧ last.perform (.bind 0) = (.error .retired, last) := by
  intro g h
  have one : boundCount g.monitors 0 = 1 := by decide +kernel
  have none : boundCount h.monitors 0 = 0 := by decide +kernel
  have lives : ∃ m ∈ g.monitors, m.policy = some 0 := by decide +kernel
  obtain ⟨m, member, bound⟩ := lives
  obtain ⟨positive, policies⟩ := bindings_exact duplicated
  obtain ⟨p, found, -⟩ := positive m member 0 bound
  obtain ⟨-, -, refuses, -⟩ := policies 0 p found
  obtain ⟨q, foundH⟩ : ∃ q, h.book[0]? = some q :=
    Option.isSome_iff_exists.mp (by decide +kernel)
  obtain ⟨-, retires, -, stays⟩ := (bindings_exact (duplicated ++ [.discard 1])).2 0 q foundH
  have retired := retires.mpr none
  refine ⟨⟨m, member, bound⟩, ?_, retired, fun later => ?_⟩
  · rw [← one]
    exact refuses (by rw [one]; decide)
  · obtain ⟨unused, -, fails⟩ := stays retired later
    exact ⟨unused, fails⟩

end Pool

end PolicyVault.Policy
