import PolicyVault.Proofs.Service.Refusal

/-!
# Isolation

What a process is told depends on its own requests only. Two dispatchers that have the same limits
and the same vault for a process answer its next request alike and then still agree, and a message
that is not a request of the process changes nothing of its vault.

Main statement: `Service.Dispatcher.exchanges_alone`.
-/

namespace PolicyVault

namespace Registry

variable {r s : Registry} {pid : UInt32} {e : Event}

/-! ## Other processes -/

theorem Call.pid_of_attempt {c : Call} {address : Nat} {access : Policy.Access × Nat}
    (attempt : c.attempt? pid address = some access) : c.pid = pid := by
  cases c with
  | read p start length => exact (Option.ite_none_right_eq_some.mp attempt).1.1
  | write p start data => exact (Option.ite_none_right_eq_some.mp attempt).1.1
  | _ => cases attempt

/-- A call leaves the vaults of all other processes as they are. -/
theorem Transition.elsewhere (step : Transition r e s) (sound : r.Sound)
    (differ : pid ≠ e.call.pid) : s.find? pid = r.find? pid := by
  have replaced : ∀ {v w : Vault} {other : UInt32}, r.find? other = some v → v.Continues w →
      pid ≠ other → (r.replace w).find? pid = r.find? pid := by
    intro v w other found continues differ
    apply find?_replace_elsewhere
    rw [continues.pid, (mem_of_find? found).2]
    exact differ
  have soundS := step.sound sound
  cases step with
  | refused | viewed => rfl
  | loaded fresh created =>
    obtain ⟨-, -, rfl, -⟩ := Vault.create_spec created
    exact find?_insert_elsewhere sound soundS differ
  | unloaded found => exact find?_erase_elsewhere r differ
  | allocated found _ _ _ updated | deallocated found _ _ updated
  | written found _ _ _ _ updated => exact replaced found updated.continues differ
  | read found => exact replaced found ⟨rfl, rfl, rfl⟩ differ
  | rejected c attempt found =>
    rw [← Call.pid_of_attempt attempt] at found
    exact replaced found ⟨rfl, rfl, rfl⟩ differ

/-! ## Operations on one process -/

/-- Two answers are the same as far as a process goes. -/
def Alike {α : Type} (pid : UInt32) (x y : Vault.Answer Registry α) : Prop :=
  x.1 = y.1 ∧ x.2.find? pid = y.2.find? pid

/-- What an operation answers, and what it does to the vault of a process, depends on that vault
only. -/
def Local {α : Type} (pid : UInt32) (operation : Registry → Vault.Answer Registry α) : Prop :=
  ∀ r s, r.Sound → s.Sound → r.find? pid = s.find? pid → Alike pid (operation r) (operation s)

theorem onVault_local {α : Type} (pid : UInt32) (operation : Vault → Vault.Answer Vault α) :
    Local pid (·.onVault pid operation) := by
  intro r s _ _ same
  show Alike pid (r.onVault pid operation) (s.onVault pid operation)
  cases found : s.find? pid with
  | none =>
    rw [onVault_missing found, onVault_missing (same.trans found)]
    exact ⟨rfl, same⟩
  | some v =>
    rcases result : operation v with ⟨answer, w⟩
    rw [onVault_found found result, onVault_found (same.trans found) result]
    refine ⟨rfl, ?_⟩
    rw [find?_replace, find?_replace, same]

theorem load_local (pid : UInt32) (arenaSize : UInt64) (sources : List (List UInt8)) :
    Local pid (·.load pid arenaSize sources) := by
  have loading : ∀ r : Registry, r.Sound → r.find? pid = none →
      ∀ v, Vault.create pid arenaSize sources = .ok v → (r.insert v).find? pid = some v := by
    intro r sound fresh v created
    obtain ⟨soundV, active, rfl, -⟩ := Vault.create_spec created
    exact find?_insert_here (insert_sound sound soundV active fresh)
  intro r s soundR soundS same
  show Alike pid (r.load pid arenaSize sources) (s.load pid arenaSize sources)
  rw [load, load, contains, contains, same]
  split
  · exact ⟨rfl, same⟩
  · rename_i absent
    have fresh : s.find? pid = none := by simpa using absent
    split
    · exact ⟨rfl, same⟩
    · rename_i v created
      refine ⟨rfl, ?_⟩
      rw [loading r soundR (same.trans fresh) v created, loading s soundS fresh v created]

theorem unload_local (pid : UInt32) : Local pid (·.unload pid) := by
  intro r s _ _ same
  show Alike pid (r.unload pid) (s.unload pid)
  have gone : (r.erase pid).find? pid = (s.erase pid).find? pid := by
    rw [find?_erase_here, find?_erase_here]
  rw [unload, unload, same]
  split
  · exact ⟨rfl, same⟩
  · split <;> exact ⟨rfl, gone⟩

theorem snapshot_local (pid : UInt32) : Local pid fun r => (r.snapshot pid, r) := by
  intro r s _ _ same
  refine ⟨?_, same⟩
  simp only [snapshot, inspect, same]

end Registry

namespace Service

open Wire (Request Reply Frame Message)

theorem callOf?_pid {q : Request} {c : Registry.Call} (call : callOf? q = some c) :
    c.pid = q.pid := by
  cases q with
  | nil | terminate => cases call
  | _ =>
    obtain rfl := Option.some.inj call
    rfl

namespace Dispatcher

variable {d e : Dispatcher} {q : Request} {pid : UInt32} {m : Message}

/-! ## Messages of a process -/

def request? (m : Message) : Option Request :=
  match Frame.decode m with
  | .error _ => none
  | .ok f =>
    match Request.ofFrame f with
    | .error _ => none
    | .ok q => some q

/-- The message holds a request that addresses the process. -/
def addresses (pid : UInt32) (m : Message) : Bool :=
  (request? m).any (·.pid == pid)

theorem handle_none (d : Dispatcher) (none : request? m = none) : (d.handle m).2 = d := by
  unfold request? at none
  unfold handle
  cases decoded : Frame.decode m with
  | error e => rfl
  | ok f =>
    cases valid : Request.ofFrame f with
    | error e => simp only [valid]
    | ok q => simp [decoded, valid] at none

theorem handle_some (d : Dispatcher) (holds : request? m = some q) :
    d.handle m = d.respond q := by
  unfold request? at holds
  unfold handle
  cases decoded : Frame.decode m with
  | error e => simp [decoded] at holds
  | ok f =>
    cases valid : Request.ofFrame f with
    | error e => simp [decoded, valid] at holds
    | ok p =>
      obtain rfl : p = q := by simpa [decoded, valid] using holds
      simp only [valid]

/-- The messages handled one after another, each with its outcome. -/
def exchanges (d : Dispatcher) : List Message → List (Message × Outcome)
  | [] => []
  | m :: rest => (m, (d.handle m).1) :: (d.handle m).2.exchanges rest

/-! ## Agreement on a process -/

/-- Two dispatchers are the same as far as a process goes. -/
structure Agree (pid : UInt32) (d e : Dispatcher) : Prop where
  limits : d.limits = e.limits
  vault : d.registry.find? pid = e.registry.find? pid

def Alike (pid : UInt32) (x y : Answer Reply) : Prop := x.1 = y.1 ∧ Agree pid x.2 y.2

theorem Dispatched.elsewhere {answer : Answer Reply} (dispatched : Dispatched d q answer)
    (sound : d.Sound) (differ : q.pid ≠ pid) : Agree pid answer.2 d := by
  cases dispatched with
  | checked | idle => exact ⟨rfl, rfl⟩
  | failed call step | granted call step =>
    refine ⟨rfl, step.elsewhere sound.registry ?_⟩
    rw [callOf?_pid call]
    exact differ.symm

theorem respond_elsewhere (sound : d.Sound) (differ : q.pid ≠ pid) :
    Agree pid (d.respond q).2 d := by
  have kept := (dispatch_dispatched sound q).elsewhere sound differ
  unfold respond
  split
  · exact ⟨rfl, rfl⟩
  · rcases result : d.dispatch q with ⟨answer, next⟩
    rw [result] at kept
    cases answer with
    | error e => exact kept
    | ok r => exact kept

theorem handle_elsewhere (sound : d.Sound) (other : addresses pid m = false) :
    Agree pid (d.handle m).2 d := by
  cases found : request? m with
  | none =>
    rw [handle_none d found]
    exact ⟨rfl, rfl⟩
  | some q =>
    rw [handle_some d found]
    exact respond_elsewhere sound (by simpa [addresses, found] using other)

namespace Agree

theorem checkPid (agree : Agree pid d e) : d.checkPid pid = e.checkPid pid := by
  simp only [Dispatcher.checkPid, agree.limits]

theorem arenaSize (agree : Agree pid d e) : d.arenaSize pid = e.arenaSize pid := by
  simp only [Dispatcher.arenaSize, agree.checkPid, Registry.arenaSize, Registry.inspect,
    agree.vault]

theorem checkAddress (agree : Agree pid d e) (address : UInt32) :
    d.checkAddress pid address = e.checkAddress pid address := by
  simp only [Dispatcher.checkAddress, agree.arenaSize]

theorem serve {α : Type} {check other : Except Error Unit}
    {operation : Registry → Vault.Answer Registry α} {reply : α → Except Wire.Error Reply}
    (agree : Agree pid d e) (soundD : d.Sound) (soundE : e.Sound) (same : check = other)
    (isLocal : Registry.Local pid operation) :
    Alike pid (d.serve check operation reply) (e.serve other operation reply) := by
  subst same
  unfold Dispatcher.serve
  cases check with
  | error => exact ⟨rfl, agree⟩
  | ok =>
    have both := isLocal d.registry e.registry soundD.registry soundE.registry agree.vault
    rcases answerD : operation d.registry with ⟨x, r⟩
    rcases answerE : operation e.registry with ⟨y, s⟩
    rw [answerD, answerE] at both
    obtain ⟨rfl, after⟩ : x = y ∧ r.find? pid = s.find? pid := both
    cases x with
    | error => exact ⟨rfl, agree.limits, after⟩
    | ok a =>
      simp only
      cases reply a with
      | error | ok => exact ⟨rfl, agree.limits, after⟩

theorem dispatch (agree : Agree pid d e) (soundD : d.Sound) (soundE : e.Sound)
    (own : q.pid = pid) : Alike pid (d.dispatch q) (e.dispatch q) := by
  unfold Dispatcher.dispatch
  cases q with
  | nil | terminate => exact ⟨rfl, agree⟩
  | load p arenaSize policies =>
    obtain rfl : p = pid := own
    refine agree.serve soundD soundE ?_ (Registry.load_local p _ _)
    rw [checkLoad, checkLoad, agree.checkPid, agree.limits]
  | unload p =>
    obtain rfl : p = pid := own
    exact agree.serve soundD soundE agree.checkPid (Registry.unload_local p)
  | alloc p size policy =>
    obtain rfl : p = pid := own
    refine agree.serve soundD soundE ?_ (Registry.onVault_local p _)
    rw [checkAlloc, checkAlloc, agree.arenaSize]
  | dealloc p address =>
    obtain rfl : p = pid := own
    exact agree.serve soundD soundE (agree.checkAddress address) (Registry.onVault_local p _)
  | read p address length =>
    obtain rfl : p = pid := own
    refine agree.serve soundD soundE ?_ (Registry.onVault_local p _)
    rw [checkRead, checkRead, agree.checkAddress]
  | write p address data =>
    obtain rfl : p = pid := own
    refine agree.serve soundD soundE ?_ (Registry.onVault_local p _)
    rw [checkWrite, checkWrite, agree.checkAddress]
  | view p =>
    obtain rfl : p = pid := own
    exact agree.serve soundD soundE agree.checkPid (Registry.snapshot_local p)

theorem respond (agree : Agree pid d e) (soundD : d.Sound) (soundE : e.Sound)
    (own : q.pid = pid) :
    (d.respond q).1 = (e.respond q).1 ∧ Agree pid (d.respond q).2 (e.respond q).2 := by
  unfold Dispatcher.respond
  split
  · exact ⟨rfl, agree⟩
  · have both := agree.dispatch soundD soundE own
    rcases answerD : d.dispatch q with ⟨x, next⟩
    rcases answerE : e.dispatch q with ⟨y, other⟩
    rw [answerD, answerE] at both
    obtain ⟨rfl, after⟩ : x = y ∧ Agree pid next other := both
    cases x with
    | error => exact ⟨rfl, after⟩
    | ok => exact ⟨rfl, after⟩

theorem handle (agree : Agree pid d e) (soundD : d.Sound) (soundE : e.Sound)
    (own : addresses pid m = true) :
    (d.handle m).1 = (e.handle m).1 ∧ Agree pid (d.handle m).2 (e.handle m).2 := by
  cases found : request? m with
  | none => simp [addresses, found] at own
  | some q =>
    rw [handle_some d found, handle_some e found]
    exact agree.respond soundD soundE (by simpa [addresses, found] using own)

theorem exchanges (agree : Agree pid d e) (soundD : d.Sound) (soundE : e.Sound)
    (messages : List Message) :
    (d.exchanges messages).filter (fun x => addresses pid x.1) =
      e.exchanges (messages.filter (addresses pid)) := by
  induction messages generalizing d e with
  | nil => rfl
  | cons m rest ih =>
    have soundNext := handle_sound soundD m
    cases own : addresses pid m with
    | true =>
      obtain ⟨outcome, after⟩ := agree.handle soundD soundE own
      simp only [Dispatcher.exchanges, List.filter_cons, own, if_true]
      rw [outcome, ih after soundNext (handle_sound soundE m)]
    | false =>
      have kept := handle_elsewhere soundD own
      have after : Agree pid (d.handle m).2 e :=
        ⟨kept.limits.trans agree.limits, kept.vault.trans agree.vault⟩
      simp only [Dispatcher.exchanges, List.filter_cons, own, Bool.false_eq_true, if_false]
      exact ih after soundNext soundE

end Agree

/-- The outcomes of the requests of a process among any messages are those that a dispatcher gives
which is sent nothing else. -/
theorem exchanges_alone (limits : Limits) (messages : List Message) (pid : UInt32) :
    ((fresh limits).exchanges messages).filter (fun x => addresses pid x.1) =
      (fresh limits).exchanges (messages.filter (addresses pid)) :=
  Agree.exchanges ⟨rfl, rfl⟩ (fresh_sound limits) (fresh_sound limits) messages

end Dispatcher

end Service

end PolicyVault
