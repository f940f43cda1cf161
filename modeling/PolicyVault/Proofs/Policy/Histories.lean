import PolicyVault.Proofs.Policy.Bindings
import PolicyVault.Proofs.Policy.Compilation
import PolicyVault.Proofs.Policy.Parsing

/-!
# Histories of monitors

The state of a monitor depends on its own life only: the policy it was bound to, and what was done
since to it and to the monitors it is a duplicate of. From a life follows a history, the word that
the monitor has read. A monitor that allows is in the state that its history leads to. It can
resume after one step into the sink, but once both of its states are the sink, only a reload while
it is bound lets it, or a duplicate of it, allow anything again.

Main statement: `Pool.verdict_exact`.
-/

namespace PolicyVault.Policy

namespace Book

variable {book others : Book} {i : Nat}

/-- What stays of each policy, however it is bound and retired. -/
def tables (book : Book) : List (List UInt8 × Automaton) :=
  book.map fun p => (p.source, p.automaton)

def Compiled (book : Book) : Prop :=
  ∀ p ∈ book, Automaton.compile p.source = .ok p.automaton

theorem getElem?_tables (book : Book) (i : Nat) :
    book.tables[i]? = book[i]?.map fun p => (p.source, p.automaton) :=
  List.getElem?_map

theorem length_tables (book : Book) : book.tables.length = book.length :=
  List.length_map _

theorem tables_modify (book : Book) (i : Nat) {f : Loaded → Loaded}
    (same : ∀ p, (f p).source = p.source ∧ (f p).automaton = p.automaton) :
    tables (List.modify book i f) = book.tables := by
  apply List.ext_getElem?
  intro j
  simp only [getElem?_tables, List.getElem?_modify]
  cases book[j]? with
  | none => rfl
  | some p => by_cases here : i = j <;> simp [here, same]

theorem tables_set {p q : Loaded} (found : book[i]? = some p) (source : q.source = p.source)
    (automaton : q.automaton = p.automaton) : tables (List.set book i q) = book.tables := by
  obtain ⟨inside, rfl⟩ := List.getElem?_eq_some_iff.mp found
  rw [tables, List.map_set, source, automaton, ← List.map_set, List.set_getElem_self, tables]

theorem tables_retain (book : Book) (i : Nat) : (book.retain i).tables = book.tables :=
  tables_modify book i fun _ => ⟨rfl, rfl⟩

theorem tables_release (book : Book) (i : Nat) : (book.release i).tables = book.tables :=
  tables_modify book i fun _ => ⟨rfl, rfl⟩

theorem getElem?_grown {p : Loaded} (grown : book.tables <+: others.tables)
    (found : book[i]? = some p) : ∃ q, others[i]? = some q ∧ q.automaton = p.automaton := by
  have table : book.tables[i]? = some (p.source, p.automaton) := by
    rw [getElem?_tables, found, Option.map_some]
  obtain ⟨inside, here⟩ := List.getElem?_eq_some_iff.mp table
  have kept := List.prefix_iff_getElem?.mp grown i inside
  rw [here, getElem?_tables] at kept
  obtain ⟨q, located, same⟩ := Option.map_eq_some_iff.mp kept
  exact ⟨q, located, (Prod.mk.inj same).2⟩

theorem compiled_iff_tables :
    book.Compiled ↔ ∀ t ∈ book.tables, Automaton.compile t.1 = .ok t.2 := by
  simp [Compiled, tables]

end Book

theorem Automaton.compile_next_sink {source : List UInt8} {p : Automaton}
    (compiled : Automaton.compile source = .ok p) (b : UInt8) : p.next sink b = sink := by
  obtain ⟨_, _, -, -, built⟩ := Automaton.compile_ok compiled
  exact Automaton.next_sink built b

/-- Both states of the monitor are the sink. -/
def Monitor.Parked (m : Monitor) : Prop := m.current = sink ∧ m.previous = sink

namespace Pool

/-! ## Lives -/

/-- What can happen to a monitor. A duplicate shares the deeds before it was made. -/
inductive Deed
  | moved (move : Move)
  | unbound
  | duplicated
  deriving DecidableEq

def Deed.apply (book : Book) (m : Monitor) : Deed → Monitor
  | .moved move => move.apply book m
  | .unbound =>
    match m.unbind book with
    | .error _ => m
    | .ok (m, _) => m
  | .duplicated => (m.duplicate book).1

/-- The policy that a monitor was bound to, and what happened to it since. -/
structure Life where
  policy : Nat
  deeds : List Deed
  deriving DecidableEq

def Life.then (life : Life) (more : List Deed) : Life :=
  { life with deeds := life.deeds ++ more }

def onLife (lives : List Life) (monitor : Nat) (change : Life → List Life) : List Life :=
  match lives[monitor]? with
  | none => lives
  | some life => change life

/-- The lives of the monitors of a pool after a call. -/
def record (g : Pool) (lives : List Life) : Call → List Life
  | .load _ | .retire _ => lives
  | .bind policy =>
    match Monitor.bind g.book policy with
    | .error _ => lives
    | .ok _ => lives ++ [⟨policy, []⟩]
  | .unbind monitor =>
    onLife lives monitor fun life => lives.set monitor (life.then [.unbound])
  | .duplicate monitor => onLife lives monitor fun life => lives ++ [life.then [.duplicated]]
  | .discard monitor => onLife lives monitor fun _ => lives.eraseIdx monitor
  | .move monitor move =>
    onLife lives monitor fun life => lives.set monitor (life.then [.moved move])

def livesAfter (g : Pool) (lives : List Life) : List Call → List Life
  | [] => lives
  | c :: calls => (g.perform c).2.livesAfter (g.record lives c) calls

/-- The lives of all monitors after some calls on the empty pool, in the order of the monitors. -/
def lives (calls : List Call) : List Life := empty.livesAfter [] calls

/-- The monitor that a life leads to. -/
def replay (book : Book) (life : Life) : Monitor :=
  life.deeds.foldl (Deed.apply book) (Monitor.start life.policy)

def Deed.recall (history : List UInt8) : Deed → List UInt8
  | .moved (.step b) => history ++ [b]
  | .moved .stepBack => history.dropLast
  | .moved .reload => []
  | .moved .invalidate | .moved (.setNote _) | .unbound | .duplicated => history

/-- The bytes stepped on since binding or the last reload, without those that were taken back. -/
def Life.history (life : Life) : List UInt8 :=
  life.deeds.foldl Deed.recall []

def Deed.keepsUnbroken (unbroken : Bool) : Deed → Bool
  | .moved (.step _) | .moved (.setNote _) | .duplicated => unbroken
  | .moved .reload => true
  | .moved .stepBack | .moved .invalidate | .unbound => false

def Life.unbroken (life : Life) : Bool :=
  life.deeds.foldl Deed.keepsUnbroken true

/-- Since binding or the last reload, the state was changed by steps only. A reload counts while the
monitor is bound: later it does nothing. -/
def Life.Straight (life : Life) : Prop :=
  .unbound ∉ life.deeds ∧ life.unbroken = true

/-- Wherever these further deeds reload the monitor, it has been unbound before. -/
def Life.NotRestarted (life : Life) (more : List Deed) : Prop :=
  ∀ before behind, more = before ++ .moved .reload :: behind → .unbound ∈ life.deeds ++ before

variable {g : Pool} {book others : Book} {m : Monitor} {lives : List Life} {life : Life}
  {deed : Deed} {p : Automaton} {q : Loaded} {i : Nat}

@[elab_as_elim]
theorem Life.induction {motive : Life → Prop} (fresh : ∀ policy, motive ⟨policy, []⟩)
    (next : ∀ life deed, motive life → motive (life.then [deed])) (life : Life) : motive life := by
  obtain ⟨policy, deeds⟩ := life
  induction deeds using List.reverseRecOn with
  | nil => exact fresh policy
  | append_singleton deeds deed ih => exact next ⟨policy, deeds⟩ deed ih

/-! ## One deed -/

theorem replay_append (book : Book) (life : Life) (more : List Deed) :
    replay book (life.then more) = more.foldl (Deed.apply book) (replay book life) :=
  List.foldl_append

theorem replay_then (book : Book) (life : Life) (deed : Deed) :
    replay book (life.then [deed]) = deed.apply book (replay book life) :=
  replay_append book life [deed]

theorem history_then (life : Life) (deed : Deed) :
    (life.then [deed]).history = deed.recall life.history :=
  List.foldl_append

theorem unbroken_then (life : Life) (deed : Deed) :
    (life.then [deed]).unbroken = deed.keepsUnbroken life.unbroken :=
  List.foldl_append

theorem apply_unbound (bound : m.policy = some i) (book : Book) :
    Deed.apply book m .unbound = { m with policy := none, current := sink, previous := sink } := by
  simp only [Deed.apply, Monitor.unbind_ok bound]

theorem apply_unbound_loose (loose : m.policy = none) (book : Book) :
    Deed.apply book m .unbound = m := by
  simp only [Deed.apply, Monitor.unbind, loose]

theorem apply_policy (book : Book) (m : Monitor) (deed : Deed) :
    (deed.apply book m).policy = m.policy ∨ (deed.apply book m).policy = none := by
  cases deed with
  | moved move => exact .inl (Move.apply_policy book m move)
  | unbound =>
    cases bound : m.policy with
    | none => exact .inl (by rw [apply_unbound_loose bound, bound])
    | some i => exact .inr (by rw [apply_unbound bound])
  | duplicated => exact .inl rfl

theorem apply_grown (grown : book.tables <+: others.tables)
    (known : ∀ i, m.policy = some i → i < book.length) (deed : Deed) :
    deed.apply others m = deed.apply book m := by
  cases deed with
  | duplicated => rfl
  | unbound =>
    cases bound : m.policy with
    | none => rw [apply_unbound_loose bound, apply_unbound_loose bound]
    | some i => rw [apply_unbound bound, apply_unbound bound]
  | moved move =>
    cases move with
    | step b =>
      simp only [Deed.apply, Move.apply]
      cases bound : m.policy with
      | none => rw [Monitor.step_unbound bound, Monitor.step_unbound bound]
      | some i =>
        obtain ⟨q, found⟩ : ∃ q, book[i]? = some q := ⟨_, List.getElem?_eq_getElem (known i bound)⟩
        obtain ⟨r, located, automaton⟩ := Book.getElem?_grown grown found
        rw [Monitor.step_bound bound located, Monitor.step_bound bound found, automaton]
    | _ => rfl

/-- The life leads to the monitor: while it is bound, its states are the sink or those that the
history leads to, and afterwards they are the sink. -/
inductive Follows (p : Automaton) (life : Life) (m : Monitor) : Prop
  | bound (policy : m.policy = some life.policy) (kept : .unbound ∉ life.deeds)
      (current : m.current = sink ∨ m.current = p.run initial life.history)
      (previous : m.previous = sink ∨ m.previous = p.run initial life.history.dropLast)
      (unbroken : life.unbroken = true → m.current = p.run initial life.history)
  | released (policy : m.policy = none) (gone : .unbound ∈ life.deeds) (parked : m.Parked)

theorem start_follows (p : Automaton) (i : Nat) : Follows p ⟨i, []⟩ (Monitor.start i) :=
  .bound rfl List.not_mem_nil (.inr rfl) (.inl rfl) fun _ => rfl

theorem parked_step (compiled : book.Compiled) (sunk : m.current = sink) (b : UInt8) :
    (m.step book b).Parked := by
  refine ⟨?_, sunk⟩
  cases loaded : m.loaded? book with
  | none => simp only [Monitor.step, loaded]
  | some q =>
    obtain ⟨i, -, found⟩ := Option.bind_eq_some_iff.mp loaded
    simp only [Monitor.step, loaded, sunk]
    exact Automaton.compile_next_sink (compiled q (List.mem_of_getElem? found)) b

theorem parked_apply (compiled : book.Compiled) (parked : m.Parked)
    (still : deed = .moved .reload → m.policy = none) : (deed.apply book m).Parked := by
  cases deed with
  | duplicated => exact parked
  | unbound =>
    cases bound : m.policy with
    | none => exact (apply_unbound_loose bound book).symm ▸ parked
    | some i => exact (apply_unbound bound book).symm ▸ ⟨rfl, rfl⟩
  | moved move =>
    cases move with
    | step b => exact parked_step compiled parked.1 b
    | stepBack => exact ⟨parked.2, rfl⟩
    | reload =>
      simp only [Deed.apply, Move.apply, Monitor.reload, Monitor.isBound, still rfl]
      exact parked
    | invalidate => exact ⟨rfl, rfl⟩
    | setNote => exact parked

theorem Follows.bound_then (policy : m.policy = some life.policy) (kept : .unbound ∉ life.deeds)
    (stays : .unbound ≠ deed)
    (current : m.current = sink ∨ m.current = p.run initial (deed.recall life.history))
    (previous : m.previous = sink ∨
      m.previous = p.run initial (deed.recall life.history).dropLast)
    (unbroken : deed.keepsUnbroken life.unbroken = true →
      m.current = p.run initial (deed.recall life.history)) : Follows p (life.then [deed]) m := by
  rw [← history_then] at current previous unbroken
  rw [← unbroken_then] at unbroken
  refine .bound policy (fun member => ?_) current previous unbroken
  rcases List.mem_append.mp member with before | last
  · exact kept before
  · exact stays (List.mem_singleton.mp last)

theorem Follows.apply (follows : Follows q.automaton life m) (compiled : book.Compiled)
    (found : book[life.policy]? = some q) (deed : Deed) :
    Follows q.automaton (life.then [deed]) (deed.apply book m) := by
  cases follows with
  | released policy gone parked =>
    refine .released ?_ (List.mem_append_left _ gone) (parked_apply compiled parked fun _ => policy)
    exact (apply_policy book m deed).elim policy.subst id
  | bound policy kept current previous unbroken =>
    cases deed with
    | unbound =>
      rw [apply_unbound policy]
      exact .released rfl (List.mem_append_right _ List.mem_cons_self) ⟨rfl, rfl⟩
    | duplicated => exact .bound_then policy kept (by simp) current previous unbroken
    | moved move =>
      cases move with
      | step b =>
        have sunk := Automaton.compile_next_sink (compiled q (List.mem_of_getElem? found)) b
        have advance : q.automaton.run initial (life.history ++ [b]) =
            q.automaton.next (q.automaton.run initial life.history) b := List.foldl_append
        simp only [Deed.apply, Move.apply, Monitor.step_bound policy found]
        refine .bound_then policy kept (by simp) ?_ ?_ fun so => ?_
        · exact current.imp (fun here => (congrArg (q.automaton.next · b) here).trans sunk)
            fun here => (congrArg (q.automaton.next · b) here).trans advance.symm
        · exact current.imp_right fun here => here.trans (by rw [Deed.recall, List.dropLast_concat])
        · exact (congrArg (q.automaton.next · b) (unbroken so)).trans advance.symm
      | stepBack =>
        refine .bound_then policy kept (by simp) previous (.inl rfl) fun so => ?_
        exact absurd so Bool.false_ne_true
      | reload =>
        have reloaded : m.reload = { m with current := initial, previous := sink } := by
          simp only [Monitor.reload, Monitor.isBound, policy, Option.isSome_some, if_true]
        simp only [Deed.apply, Move.apply, reloaded]
        exact .bound_then policy kept (by simp) (.inr rfl) (.inl rfl) fun _ => rfl
      | invalidate =>
        refine .bound_then policy kept (by simp) (.inl rfl) (.inl rfl) fun so => ?_
        exact absurd so Bool.false_ne_true
      | setNote note => exact .bound_then policy kept (by simp) current previous unbroken

/-! ## Whole lives -/

theorem replay_follows (compiled : book.Compiled) (found : book[life.policy]? = some q) :
    Follows q.automaton life (replay book life) := by
  induction life using Life.induction with
  | fresh policy => exact start_follows q.automaton policy
  | next life deed ih => exact replay_then book life deed ▸ (ih found).apply compiled found deed

theorem replay_policy (book : Book) (life : Life) :
    ∀ i, (replay book life).policy = some i → i = life.policy := by
  induction life using Life.induction with
  | fresh policy => exact fun i bound => (Option.some.inj bound).symm
  | next life deed ih =>
    intro i bound
    rw [replay_then] at bound
    rcases apply_policy book (replay book life) deed with same | none
    · exact ih i (same.symm.trans bound)
    · exact absurd (none.symm.trans bound) nofun

theorem replay_grown (grown : book.tables <+: others.tables) (known : life.policy < book.length) :
    replay others life = replay book life := by
  induction life using Life.induction with
  | fresh policy => rfl
  | next life deed ih =>
    rw [replay_then, replay_then, ih known]
    exact apply_grown grown (fun i bound => replay_policy book life i bound ▸ known) deed

theorem replay_parked (compiled : book.Compiled) (found : book[life.policy]? = some q)
    (parked : (replay book life).Parked) {more : List Deed} (still : life.NotRestarted more) :
    (replay book (life.then more)).Parked := by
  induction more using List.reverseRecOn with
  | nil => exact (congrArg Monitor.Parked (replay_append book life [])).mpr parked
  | append_singleton more deed ih =>
    have before : (replay book (life.then more)).Parked := by
      refine ih fun u v same => still u (v ++ [deed]) ?_
      rw [same, List.append_assoc]
      rfl
    have whole : life.then (more ++ [deed]) = (life.then more).then [deed] := by
      simp only [Life.then, List.append_assoc]
    rw [whole, replay_then]
    refine parked_apply compiled before fun reloaded => ?_
    -- The monitor is unbound before this reload, so there is nothing to start over.
    have gone : .unbound ∈ (life.then more).deeds := still more [] (by rw [reloaded])
    have follows : Follows q.automaton (life.then more) _ := replay_follows compiled found
    cases follows with
    | bound _ kept => exact absurd gone kept
    | released policy => exact policy

theorem replay_ended (compiled : book.Compiled) (found : book[life.policy]? = some q)
    (ended : life.deeds.getLast? = some (.moved .invalidate) ∨
      life.deeds.getLast? = some .unbound) : (replay book life).Parked := by
  rcases ended with invalidated | unbound
  · induction life using Life.induction with
    | fresh policy => cases invalidated
    | next life deed =>
      obtain rfl := Option.some.inj (List.getLast?_concat.symm.trans invalidated)
      rw [replay_then]
      exact ⟨rfl, rfl⟩
  · cases replay_follows compiled found with
    | bound _ kept => exact absurd (List.mem_of_getLast? unbound) kept
    | released _ _ parked => exact parked

/-! ## Lives of a pool -/

/-- The lives of the monitors of a pool, in their order. -/
structure Recorded (g : Pool) (lives : List Life) : Prop where
  monitors : g.monitors = lives.map (replay g.book)
  known : ∀ life ∈ lives, life.policy < g.book.length
  compiled : g.book.Compiled

theorem empty_recorded : empty.Recorded [] :=
  ⟨rfl, List.forall_mem_nil _, List.forall_mem_nil _⟩

theorem tables_onMonitor {operation : Monitor → Answer} {monitor : Nat}
    (kept : ∀ m, (operation m).2.book.tables = g.book.tables) :
    (g.onMonitor monitor operation).2.book.tables = g.book.tables := by
  unfold onMonitor
  split
  · rfl
  · exact kept _

theorem perform_tables (g : Pool) (c : Call) : ∃ new,
    (g.perform c).2.book.tables = g.book.tables ++ new ∧
      ∀ t ∈ new, Automaton.compile t.1 = .ok t.2 := by
  have kept : ∀ book : Book, book.tables = g.book.tables → ∃ new,
      book.tables = g.book.tables ++ new ∧ ∀ t ∈ new, Automaton.compile t.1 = .ok t.2 :=
    fun book same => ⟨[], by rw [same, List.append_nil], List.forall_mem_nil _⟩
  cases c with
  | load source =>
    simp only [perform]
    split
    · exact kept _ rfl
    · rename_i p loaded
      unfold Loaded.load at loaded
      split at loaded
      · cases loaded
      · rename_i automaton compiled
        obtain rfl := Except.ok.inj loaded
        refine ⟨[(source, automaton)], List.map_append, fun t member => ?_⟩
        obtain rfl := List.mem_singleton.mp member
        exact compiled
  | retire policy =>
    refine kept _ ?_
    cases found : g.book[policy]? with
    | none => simp only [perform, Book.retire, found]
    | some p =>
      rw [retire_eq found]
      split
      · exact Book.tables_set found rfl rfl
      · rfl
  | bind policy =>
    refine kept _ ?_
    simp only [perform]
    split
    · rfl
    · rename_i bound
      obtain ⟨-, -, rfl⟩ := Monitor.bind_inversion bound
      exact Book.tables_retain g.book policy
  | unbind monitor =>
    refine kept _ (tables_onMonitor fun m => ?_)
    cases bound : m.policy with
    | none => simp only [Monitor.unbind, bound]
    | some i =>
      simp only [Monitor.unbind_ok bound]
      exact Book.tables_release g.book i
  | duplicate monitor =>
    refine kept _ (tables_onMonitor fun m => ?_)
    cases bound : m.policy with
    | none => simp only [Monitor.duplicate, bound]
    | some i =>
      simp only [Monitor.duplicate, bound]
      exact Book.tables_retain g.book i
  | discard monitor =>
    refine kept _ (tables_onMonitor fun m => ?_)
    cases bound : m.policy with
    | none => simp only [Monitor.discard, bound]
    | some i =>
      simp only [Monitor.discard, bound]
      exact Book.tables_release g.book i
  | move monitor move => exact kept _ (tables_onMonitor fun _ => rfl)

theorem onMonitor_monitors {operation : Monitor → Answer} {monitor : Nat}
    {change : Life → List Life} (monitors : g.monitors = lives.map (replay g.book))
    (changed : ∀ life, lives[monitor]? = some life →
      (operation (replay g.book life)).2.monitors = (change life).map (replay g.book)) :
    (g.onMonitor monitor operation).2.monitors =
      (onLife lives monitor change).map (replay g.book) := by
  rw [onMonitor, onLife, monitors, List.getElem?_map]
  cases found : lives[monitor]? with
  | none => exact monitors
  | some life => exact changed life found

theorem map_set_then (monitors : g.monitors = lives.map (replay g.book)) (k : Nat) (life : Life)
    (deed : Deed) : (lives.set k (life.then [deed])).map (replay g.book) =
      g.monitors.set k (deed.apply g.book (replay g.book life)) := by
  rw [List.map_set, replay_then, monitors]

theorem perform_monitors (monitors : g.monitors = lives.map (replay g.book)) (c : Call) :
    (g.perform c).2.monitors = (g.record lives c).map (replay g.book) := by
  cases c with
  | load source =>
    simp only [perform]
    split <;> exact monitors
  | retire policy =>
    simp only [perform]
    split <;> exact monitors
  | bind policy =>
    simp only [perform, record]
    cases bound : Monitor.bind g.book policy with
    | error e => exact monitors
    | ok answer =>
      obtain ⟨m, others⟩ := answer
      obtain ⟨-, rfl, -⟩ := Monitor.bind_inversion bound
      rw [List.map_append, ← monitors]
      rfl
  | unbind monitor =>
    refine onMonitor_monitors monitors fun life found => ?_
    rw [map_set_then monitors]
    cases bound : (replay g.book life).policy with
    | none =>
      have here : g.monitors[monitor]? = some (replay g.book life) := by
        rw [monitors, List.getElem?_map, found, Option.map_some]
      obtain ⟨inside, same⟩ := List.getElem?_eq_some_iff.mp here
      rw [apply_unbound_loose bound, ← same, List.set_getElem_self]
      simp only [Monitor.unbind, same, bound]
    | some i =>
      rw [apply_unbound bound]
      simp only [Monitor.unbind_ok bound]
  | duplicate monitor =>
    refine onMonitor_monitors monitors fun life _ => ?_
    rw [List.map_append, ← monitors, List.map_singleton, replay_then]
    rfl
  | discard monitor =>
    refine onMonitor_monitors monitors fun _ _ => ?_
    rw [← List.eraseIdx_map, ← monitors]
  | move monitor move =>
    refine onMonitor_monitors monitors fun life _ => ?_
    rw [map_set_then monitors]
    rfl

theorem forall_onLife {monitor : Nat} {change : Life → List Life} {good : Life → Prop}
    (all : ∀ life ∈ lives, good life)
    (changed : ∀ life ∈ lives, good life → ∀ next ∈ change life, good next) :
    ∀ life ∈ onLife lives monitor change, good life := by
  unfold onLife
  split
  · exact all
  · rename_i life found
    have member := List.mem_of_getElem? found
    exact changed life member (all life member)

theorem record_known (known : ∀ life ∈ lives, life.policy < g.book.length) (c : Call) :
    ∀ life ∈ g.record lives c, life.policy < g.book.length := by
  have replaced : ∀ {k : Nat} {life : Life}, life ∈ lives → life.policy < g.book.length → ∀ deed,
      ∀ next ∈ lives.set k (life.then [deed]), next.policy < g.book.length := by
    intro k life _ small deed next member
    rcases List.mem_or_eq_of_mem_set member with old | rfl
    · exact known next old
    · exact small
  cases c with
  | load | retire => exact known
  | bind policy =>
    simp only [record]
    split
    · exact known
    · rename_i bound
      obtain ⟨⟨p, found, -⟩, -⟩ := Monitor.bind_inversion bound
      refine List.forall_mem_append.mpr ⟨known, List.forall_mem_singleton.mpr ?_⟩
      exact (List.getElem?_eq_some_iff.mp found).1
  | unbind => exact forall_onLife known fun life member small => replaced member small _
  | move => exact forall_onLife known fun life member small => replaced member small _
  | duplicate =>
    refine forall_onLife known fun life _ small => ?_
    exact List.forall_mem_append.mpr ⟨known, List.forall_mem_singleton.mpr small⟩
  | discard =>
    exact forall_onLife known fun _ _ _ next member => known next (List.mem_of_mem_eraseIdx member)

theorem Recorded.perform (recorded : g.Recorded lives) (c : Call) :
    (g.perform c).2.Recorded (g.record lives c) := by
  obtain ⟨monitors, known, compiled⟩ := recorded
  obtain ⟨new, tables, fresh⟩ := perform_tables g c
  have grown : g.book.tables <+: (g.perform c).2.book.tables := ⟨new, tables.symm⟩
  have longer : g.book.length ≤ (g.perform c).2.book.length := by
    rw [← Book.length_tables, ← Book.length_tables]
    exact grown.length_le
  have small := record_known known c
  refine ⟨?_, fun life member => Nat.lt_of_lt_of_le (small life member) longer, ?_⟩
  · rw [perform_monitors monitors c]
    exact List.map_congr_left fun life member => (replay_grown grown (small life member)).symm
  · rw [Book.compiled_iff_tables] at compiled ⊢
    rw [tables]
    exact List.forall_mem_append.mpr ⟨compiled, fresh⟩

theorem after_recorded (recorded : g.Recorded lives) (calls : List Call) :
    (g.after calls).Recorded (g.livesAfter lives calls) := by
  induction calls generalizing g lives with
  | nil => exact recorded
  | cons c calls ih => exact ih (recorded.perform c)

theorem after_tables (g : Pool) (calls : List Call) :
    g.book.tables <+: (g.after calls).book.tables := by
  induction calls generalizing g with
  | nil => exact List.prefix_refl _
  | cons c calls ih =>
    obtain ⟨new, tables, -⟩ := perform_tables g c
    exact List.IsPrefix.trans ⟨new, tables.symm⟩ (ih _)

theorem Recorded.lived (recorded : g.Recorded lives) {k : Nat} (found : g.monitors[k]? = some m) :
    ∃ life p, lives[k]? = some life ∧ g.book[life.policy]? = some p ∧ m = replay g.book life := by
  rw [recorded.monitors, List.getElem?_map] at found
  obtain ⟨life, here, rfl⟩ := Option.map_eq_some_iff.mp found
  have small := recorded.known life (List.mem_of_getElem? here)
  exact ⟨life, _, here, List.getElem?_eq_getElem small, rfl⟩

/-! ## Verdicts -/

theorem Follows.allowed (follows : Follows p life m) (allows : m.verdict = .allowed) :
    m.policy = some life.policy ∧ m.current = p.run initial life.history := by
  cases follows with
  | bound policy _ current => exact ⟨policy, current.resolve_left (Monitor.allowed_iff.mp allows)⟩
  | released _ _ parked => exact absurd parked.1 (Monitor.allowed_iff.mp allows)

theorem Follows.straight (follows : Follows p life m) (straight : life.Straight) :
    m.current = p.run initial life.history := by
  cases follows with
  | bound _ _ _ _ unbroken => exact unbroken straight.2
  | released _ gone => exact absurd gone straight.1

theorem Recorded.rejects (recorded : g.Recorded lives) (grown : book.tables <+: g.book.tables)
    (found : book[life.policy]? = some q) (parked : (replay book life).Parked) {j : Nat}
    (present : g.monitors[j]? = some m) {more : List Deed}
    (descends : lives[j]? = some (life.then more)) (still : life.NotRestarted more) :
    m.verdict = .rejected := by
  obtain ⟨other, p, same, -, rfl⟩ := recorded.lived present
  obtain rfl := Option.some.inj (same.symm.trans descends)
  obtain ⟨r, here, -⟩ := Book.getElem?_grown grown found
  have small := (List.getElem?_eq_some_iff.mp found).1
  rw [← replay_grown grown small] at parked
  exact Monitor.rejected_iff.mpr (replay_parked recorded.compiled here parked still).1

/-- A monitor that allows is bound, its state is the one that the history leads to, and the history
begins a word of its policy. If only steps followed binding or the last reload, it allows exactly
such histories. Invalidating, unbinding and stepping in the sink park the monitor, and once it is
parked, it and all that is duplicated from it reject, until one is reloaded while it is bound. -/
theorem verdict_exact (calls : List Call) {k : Nat} {m : Monitor}
    (found : (empty.after calls).monitors[k]? = some m) :
    let g := empty.after calls
    ∃ life p e, (Pool.lives calls)[k]? = some life ∧ g.book[life.policy]? = some p ∧
      Derives .expr p.source e ∧
      (∀ access, m.stepAccess g.book access = (Move.step access.symbol).apply g.book m) ∧
      (m.verdict = .allowed → m.policy = some life.policy ∧
        m.current = p.automaton.run initial life.history ∧ e.Viable life.history) ∧
      (life.Straight → (m.verdict = .allowed ↔ e.Viable life.history)) ∧
      (life.deeds.getLast? = some (.moved .invalidate) ∨
        life.deeds.getLast? = some .unbound → m.Parked) ∧
      (m.verdict = .rejected → ∀ b, (m.step g.book b).Parked) ∧
      (m.Parked → ∀ later (j : Nat) (n : Monitor) (more : List Deed),
        (empty.after (calls ++ later)).monitors[j]? = some n →
        (Pool.lives (calls ++ later))[j]? = some (life.then more) → life.NotRestarted more →
          n.verdict = .rejected) := by
  intro g
  have recorded : g.Recorded (Pool.lives calls) := after_recorded empty_recorded calls
  obtain ⟨life, p, lived, here, rfl⟩ := recorded.lived found
  have compiled := recorded.compiled p (List.mem_of_getElem? here)
  obtain ⟨e, _, parsed, -⟩ := Automaton.compile_ok compiled
  have viable := (Automaton.run_exact compiled parsed life.history).2
  have follows := replay_follows recorded.compiled here
  refine ⟨life, p, e, lived, here, derives_of_parse parsed, fun _ => rfl, fun allows => ?_,
    fun straight => ?_, replay_ended recorded.compiled here,
    fun rejects => parked_step recorded.compiled (Monitor.rejected_iff.mp rejects), ?_⟩
  · obtain ⟨policy, state⟩ := follows.allowed allows
    exact ⟨policy, state, viable.mp (state ▸ Monitor.allowed_iff.mp allows)⟩
  · rw [Monitor.allowed_iff, follows.straight straight, viable]
  · intro parked later j n more present descends still
    have grown : g.book.tables <+: (empty.after (calls ++ later)).book.tables := by
      rw [after, List.foldl_append]
      exact after_tables g later
    have recordedLater := after_recorded empty_recorded (calls ++ later)
    exact recordedLater.rejects grown here parked present descends still

/-- Calls that load the policy `R`, bind a monitor to it, let it step twice, and invalidate it. It is
duplicated between the steps. -/
def overstepped : List Call :=
  [.load [0x52], .bind 0, .move 0 (.step 0x52), .duplicate 0, .move 0 (.step 0x52),
    .move 0 .invalidate]

/-- The monitor is parked, and so is a duplicate of it that steps back. The duplicate made before it
went wrong allows. -/
theorem verdict_exact_overstepped :
    let g := empty.after overstepped
    let h := empty.after (overstepped ++ [.duplicate 0, .move 2 .stepBack])
    ∃ m n o, g.monitors = [m, n] ∧ h.monitors[2]? = some o ∧
      m.Parked ∧ (m.step g.book 0x52).Parked ∧ o.verdict = .rejected ∧
      n.policy = some 0 ∧ n.verdict = .allowed ∧ ∃ e, Derives .expr [0x52] e ∧ e.Viable [0x52] := by
  intro g h
  have count : g.monitors.length = 2 := by decide +kernel
  obtain ⟨m, n, monitors⟩ := List.length_eq_two.mp count
  have verdicts : g.monitors.map (·.verdict) = [.rejected, .allowed] := by decide +kernel
  have sources : g.book[0]?.map (·.source) = some [0x52] := by decide +kernel
  have lived : Pool.lives overstepped =
      [⟨0, [.moved (.step 0x52), .moved (.step 0x52), .moved .invalidate]⟩,
        ⟨0, [.moved (.step 0x52), .duplicated]⟩] := by decide +kernel
  have later : (Pool.lives (overstepped ++ [.duplicate 0, .move 2 .stepBack]))[2]? =
      some ⟨0, [.moved (.step 0x52), .moved (.step 0x52), .moved .invalidate, .duplicated,
        .moved .stepBack]⟩ := by decide +kernel
  rw [monitors] at verdicts
  obtain ⟨rejected, more⟩ := List.cons.inj verdicts
  obtain ⟨allowed, -⟩ := List.cons.inj more
  have first : g.monitors[0]? = some m := by rw [monitors]; rfl
  have second : g.monitors[1]? = some n := by rw [monitors]; rfl
  obtain ⟨o, third⟩ : ∃ o, h.monitors[2]? = some o :=
    Option.isSome_iff_exists.mp (by decide +kernel)
  obtain ⟨life, -, -, here, -, -, -, -, -, parks, sunk, stays⟩ := verdict_exact overstepped first
  obtain ⟨other, p, e, there, located, derived, -, allows, viable, -⟩ :=
    verdict_exact overstepped second
  rw [lived] at here there
  obtain rfl := Option.some.inj here
  obtain rfl := Option.some.inj there
  have parked := parks (.inl rfl)
  have still : Life.NotRestarted
      ⟨0, [.moved (.step 0x52), .moved (.step 0x52), .moved .invalidate]⟩
      [.duplicated, .moved .stepBack] := by
    intro before behind same
    have member : Deed.moved .reload ∈ [.duplicated, .moved .stepBack] := by
      rw [same]
      exact List.mem_append_right _ List.mem_cons_self
    simp at member
  have source : p.source = [0x52] :=
    Option.some.inj ((congrArg (Option.map Loaded.source) located).symm.trans sources)
  refine ⟨m, n, o, monitors, third, parked, sunk rejected 0x52, ?_, (allows allowed).1, allowed, e,
    source ▸ derived, (viable ⟨by decide, rfl⟩).mp allowed⟩
  exact stays parked _ 2 o _ third later still

end Pool

end PolicyVault.Policy
