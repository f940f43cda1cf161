import Mathlib.Data.List.Nodup
import PolicyVault.Proofs.Vault.Operations
import PolicyVault.Vault.Registry

/-!
# Transitions of the registry

Every call of the registry is one of nine transitions, and each keeps the registry sound: all of
its vaults are sound, no monitor is held from outside, and no two vaults have one process.

Main statements: `Registry.Sound`, `Registry.Transition`, `Registry.perform_transition`,
`Registry.Transition.sound`.
-/

namespace PolicyVault

namespace Registry

open Vault (Allocation)

/-! ## Calls and events -/

inductive Call
  | load (pid : UInt32) (arenaSize : UInt64) (sources : List (List UInt8))
  | unload (pid : UInt32)
  | alloc (pid : UInt32) (size policy : Nat)
  | dealloc (pid : UInt32) (address : Nat)
  | read (pid : UInt32) (address length : Nat)
  | write (pid : UInt32) (address : Nat) (data : List UInt8)
  | view (pid : UInt32)

def Call.pid : Call → UInt32
  | .load pid .. | .unload pid | .alloc pid .. | .dealloc pid _ | .read pid .. | .write pid ..
  | .view pid => pid

/-- What a call that succeeds answers. -/
inductive Value
  | done
  | offset (offset : Nat)
  | data (bytes : List UInt8)
  | snapshot (s : Snapshot)
  deriving DecidableEq, Repr

structure Event where
  call : Call
  answer : Except Vault.Error Value

def answerAs {α : Type} (value : α → Value) : Vault.Answer Registry α → Vault.Answer Registry Value
  | (answer, r) => (answer.map value, r)

def perform (r : Registry) : Call → Vault.Answer Registry Value
  | .load pid arenaSize sources => answerAs (fun _ => .done) (r.load pid arenaSize sources)
  | .unload pid => answerAs (fun _ => .done) (r.unload pid)
  | .alloc pid size policy => answerAs .offset (r.alloc pid size policy)
  | .dealloc pid address => answerAs (fun _ => .done) (r.dealloc pid address)
  | .read pid address length => answerAs .data (r.read pid address length)
  | .write pid address data => answerAs (fun _ => .done) (r.write pid address data)
  | .view pid => ((r.snapshot pid).map .snapshot, r)

/-- The kind and the length of an access to an address, if the call is one. -/
def Call.attempt? (pid : UInt32) (address : Nat) : Call → Option (Policy.Access × Nat)
  | .read p start length => if p = pid ∧ start = address then some (.read, length) else none
  | .write p start data => if p = pid ∧ start = address then some (.write, data.length) else none
  | _ => none

/-- The reasons other than its policy for which a call fails. -/
inductive Refusal : Call → Vault.Error → Prop
  | missing (c : Call) : Refusal c (.notRegistered c.pid)
  | registered {pid : UInt32} {arenaSize : UInt64} {sources : List (List UInt8)} :
      Refusal (.load pid arenaSize sources) (.alreadyRegistered pid)
  | create {pid : UInt32} {arenaSize : UInt64} {sources : List (List UInt8)} {e : Vault.Error}
      (failed : Vault.create pid arenaSize sources = .error e) :
      Refusal (.load pid arenaSize sources) e
  | alloc {pid : UInt32} {size policy : Nat} {e : Vault.Error}
      (reason : Vault.AllocRefusal size policy e) : Refusal (.alloc pid size policy) e
  | dealloc {pid : UInt32} {address : Nat} {e : Vault.Error}
      (reason : Vault.Absent address e) : Refusal (.dealloc pid address) e
  | read {pid : UInt32} {address length : Nat} {e : Vault.Error}
      (reason : Vault.AccessRefusal address length e) : Refusal (.read pid address length) e
  | write {pid : UInt32} {address : Nat} {data : List UInt8} {e : Vault.Error}
      (reason : Vault.AccessRefusal address data.length e) : Refusal (.write pid address data) e

/-! ## Sound registries -/

structure Sound (r : Registry) : Prop where
  distinct : r.pids.Nodup
  vaults : ∀ v ∈ r.vaults, v.Sound (fun _ => 0) ∧ v.Active

variable {r : Registry} {v w : Vault} {pid other : UInt32}

theorem empty_sound : empty.Sound := ⟨List.nodup_nil, by simp [empty]⟩

theorem mem_of_find? (found : r.find? pid = some v) : v ∈ r.vaults ∧ v.pid = pid :=
  ⟨List.mem_of_find?_eq_some found, by simpa using List.find?_some found⟩

theorem find?_eq_none : r.find? pid = none ↔ ∀ v ∈ r.vaults, v.pid ≠ pid := by
  simp [find?]

theorem Sound.find?_of_mem (sound : r.Sound) (member : v ∈ r.vaults) :
    r.find? v.pid = some v := by
  cases found : r.find? v.pid with
  | none => exact absurd rfl (find?_eq_none.mp found v member)
  | some w =>
    obtain ⟨inside, same⟩ := mem_of_find? found
    rw [List.inj_on_of_nodup_map sound.distinct inside member same]

/-! ## Replacing, inserting and erasing a vault -/

theorem pids_replace (r : Registry) (w : Vault) : (r.replace w).pids = r.pids := by
  simp only [pids, replace, List.map_map]
  apply List.map_congr_left
  intro u _
  by_cases here : u.pid = w.pid
  · simp [here]
  · simp [here]

theorem find?_replace (r : Registry) (w : Vault) (pid : UInt32) :
    (r.replace w).find? pid = (r.find? pid).map fun u => if u.pid = w.pid then w else u := by
  have same : ∀ u : Vault, (if u.pid = w.pid then w else u).pid = u.pid := by
    intro u
    split
    · rename_i here
      exact here.symm
    · rfl
  simp only [find?, replace, List.find?_map]
  congr 2
  funext u
  simp only [Function.comp_apply, same]

theorem find?_replace_here (found : r.find? pid = some v) (same : w.pid = v.pid) :
    (r.replace w).find? pid = some w := by
  rw [find?_replace, found]
  simp [same]

theorem find?_replace_elsewhere (differ : other ≠ w.pid) :
    (r.replace w).find? other = r.find? other := by
  rw [find?_replace]
  cases found : r.find? other with
  | none => rfl
  | some u =>
    have same := (mem_of_find? found).2
    simp [same, differ]

theorem replace_same (sound : r.Sound) (found : r.find? pid = some v) : r.replace v = r := by
  have member := (mem_of_find? found).1
  have kept : r.vaults.map (fun u => if u.pid = v.pid then v else u) = r.vaults := by
    rw [List.map_congr_left (g := id), List.map_id]
    intro u inside
    split
    · rename_i same
      exact List.inj_on_of_nodup_map sound.distinct member inside same.symm
    · rfl
  simp only [replace, kept]

theorem replace_sound (sound : r.Sound) (soundW : w.Sound fun _ => 0) (active : w.Active) :
    (r.replace w).Sound := by
  refine ⟨by rw [pids_replace]; exact sound.distinct, ?_⟩
  intro u member
  obtain ⟨origin, inside, rfl⟩ := List.mem_map.mp member
  split
  · exact ⟨soundW, active⟩
  · exact sound.vaults origin inside

theorem insertInto_perm (v : Vault) (vaults : List Vault) :
    (insertInto v vaults).Perm (v :: vaults) := by
  induction vaults with
  | nil => exact .refl _
  | cons w rest ih =>
    rw [insertInto]
    split
    · exact .refl _
    · exact (ih.cons w).trans (.swap v w rest)

theorem insert_sound (sound : r.Sound) (soundV : v.Sound fun _ => 0) (active : v.Active)
    (fresh : r.find? v.pid = none) : (r.insert v).Sound := by
  have perm := insertInto_perm v r.vaults
  constructor
  · have distinct : (r.vaults.map (·.pid)).Nodup := sound.distinct
    refine (perm.map (·.pid)).nodup_iff.mpr (List.nodup_cons.mpr ⟨?_, distinct⟩)
    intro member
    obtain ⟨u, inside, same⟩ := List.mem_map.mp member
    exact find?_eq_none.mp fresh u inside same
  · intro u member
    rcases List.mem_cons.mp (perm.mem_iff.mp member) with rfl | inside
    · exact ⟨soundV, active⟩
    · exact sound.vaults u inside

theorem find?_insert_here (soundI : (r.insert v).Sound) : (r.insert v).find? v.pid = some v :=
  soundI.find?_of_mem ((insertInto_perm v r.vaults).mem_iff.mpr (List.mem_cons_self ..))

theorem find?_insert_elsewhere (sound : r.Sound) (soundI : (r.insert v).Sound)
    (differ : other ≠ v.pid) : (r.insert v).find? other = r.find? other := by
  have perm := insertInto_perm v r.vaults
  apply Option.ext
  intro u
  constructor
  · intro found
    obtain ⟨member, rfl⟩ := mem_of_find? found
    rcases List.mem_cons.mp (perm.mem_iff.mp member) with rfl | inside
    · exact absurd rfl differ
    · exact sound.find?_of_mem inside
  · intro found
    obtain ⟨member, rfl⟩ := mem_of_find? found
    exact soundI.find?_of_mem (perm.mem_iff.mpr (List.mem_cons_of_mem v member))

theorem erase_sound (sound : r.Sound) (pid : UInt32) : (r.erase pid).Sound :=
  ⟨sound.distinct.sublist (List.filter_sublist.map _),
    fun u member => sound.vaults u (List.mem_filter.mp member).1⟩

theorem find?_erase_here (r : Registry) (pid : UInt32) : (r.erase pid).find? pid = none := by
  apply find?_eq_none.mpr
  intro u member
  simpa using (List.mem_filter.mp member).2

theorem find?_erase_elsewhere (r : Registry) (differ : other ≠ pid) :
    (r.erase pid).find? other = r.find? other := by
  simp only [find?, erase, List.find?_filter]
  congr 1
  funext u
  by_cases same : u.pid = other
  · simp [same, differ]
  · simp [same]

/-! ## What a call can do -/

/-- Everything that one call can do. -/
inductive Transition (r : Registry) : Event → Registry → Prop
  | refused {c : Call} {e : Vault.Error} (reason : Refusal c e)
      (outside : ∀ pid address access length, c.attempt? pid address = some (access, length) →
        ∀ v a, r.find? pid = some v → v.allocation? address = some a → ¬ a.Fits length) :
      Transition r ⟨c, .error e⟩ r
  | viewed {pid : UInt32} {v : Vault} (found : r.find? pid = some v) :
      Transition r ⟨.view pid, .ok (.snapshot v.snapshot)⟩ r
  | loaded {pid : UInt32} {arenaSize : UInt64} {sources : List (List UInt8)} {v : Vault}
      (fresh : r.find? pid = none) (created : Vault.create pid arenaSize sources = .ok v) :
      Transition r ⟨.load pid arenaSize sources, .ok .done⟩ (r.insert v)
  | unloaded {pid : UInt32} {v : Vault} (found : r.find? pid = some v) :
      Transition r ⟨.unload pid, .ok .done⟩ (r.erase pid)
  | allocated {pid : UInt32} {v w : Vault} {size policy offset : Nat}
      (found : r.find? pid = some v) (sound : w.Sound fun _ => 0)
      (fresh : v.allocation? offset = none) (known : policy < v.policies.length)
      (updated : v.Updated offset (some ⟨size, .start policy, List.replicate size 0⟩) w) :
      Transition r ⟨.alloc pid size policy, .ok (.offset offset)⟩ (r.replace w)
  | deallocated {pid : UInt32} {v w : Vault} {address : Nat} {a : Allocation}
      (found : r.find? pid = some v) (live : v.allocation? address = some a)
      (sound : w.Sound fun _ => 0) (updated : v.Updated address none w) :
      Transition r ⟨.dealloc pid address, .ok .done⟩ (r.replace w)
  | read {pid : UInt32} {v : Vault} {address length : Nat} {a : Allocation}
      (found : r.find? pid = some v) (live : v.allocation? address = some a)
      (fits : a.Fits length) (allowed : (v.stepped a .read).verdict = .allowed) :
      Transition r ⟨.read pid address length, .ok (.data (a.bytes.take length))⟩
        (r.replace (v.advance address (v.stepped a .read)))
  | written {pid : UInt32} {v w : Vault} {address : Nat} {data : List UInt8} {a : Allocation}
      (found : r.find? pid = some v) (live : v.allocation? address = some a)
      (fits : a.Fits data.length) (allowed : (v.stepped a .write).verdict = .allowed)
      (sound : w.Sound fun _ => 0)
      (updated : v.Updated address
        (some ⟨a.size, v.stepped a .write, data ++ a.bytes.drop data.length⟩) w) :
      Transition r ⟨.write pid address data, .ok .done⟩ (r.replace w)
  | rejected (c : Call) {pid : UInt32} {v : Vault} {address length : Nat} {a : Allocation}
      {access : Policy.Access} (attempt : c.attempt? pid address = some (access, length))
      (found : r.find? pid = some v) (live : v.allocation? address = some a)
      (fits : a.Fits length) (rejected : (v.stepped a access).verdict = .rejected) :
      Transition r ⟨c, .error (v.refusal address a access)⟩
        (r.replace (v.advance address (v.stepped a access)))

/-! ## Every call is a transition -/

theorem onVault_missing {α : Type} (missing : r.find? pid = none)
    (operation : Vault → Vault.Answer Vault α) :
    r.onVault pid operation = (.error (.notRegistered pid), r) := by
  simp [onVault, missing]

theorem onVault_found {α : Type} {operation : Vault → Vault.Answer Vault α}
    {answer : Except Vault.Error α} (found : r.find? pid = some v)
    (result : operation v = (answer, w)) : r.onVault pid operation = (answer, r.replace w) := by
  simp [onVault, found, result]

theorem forall_found {p : Vault → Prop} (found : r.find? pid = some v) (holds : p v) :
    ∀ u, r.find? pid = some u → p u := by
  intro u foundU
  obtain rfl := Option.some.inj (found.symm.trans foundU)
  exact holds

theorem Sound.vault (sound : r.Sound) (found : r.find? pid = some v) :
    v.Sound (fun _ => 0) ∧ v.Active :=
  sound.vaults v (mem_of_find? found).1

theorem Transition.of_refused {c : Call} {e : Vault.Error} (reason : Refusal c e)
    (noAccess : ∀ pid address, c.attempt? pid address = none) :
    Transition r ⟨c, .error e⟩ r :=
  .refused reason (by simp [noAccess])

theorem load_transition (r : Registry) (pid : UInt32) (arenaSize : UInt64)
    (sources : List (List UInt8)) :
    Transition r ⟨.load pid arenaSize sources, (r.perform (.load pid arenaSize sources)).1⟩
      (r.perform (.load pid arenaSize sources)).2 := by
  simp only [perform, load]
  split
  · exact .of_refused .registered fun _ _ => rfl
  · rename_i absent
    have fresh : r.find? pid = none := by simpa [contains] using absent
    split
    · rename_i e failed
      exact .of_refused (.create failed) fun _ _ => rfl
    · rename_i v created
      exact .loaded fresh created

theorem unload_transition (sound : r.Sound) (pid : UInt32) :
    Transition r ⟨.unload pid, (r.perform (.unload pid)).1⟩ (r.perform (.unload pid)).2 := by
  simp only [perform, unload]
  cases found : r.find? pid with
  | none => exact .of_refused (.missing _) fun _ _ => rfl
  | some v =>
    simp only [Vault.teardown_sound (sound.vault found).1]
    exact .unloaded found

theorem alloc_transition (sound : r.Sound) (pid : UInt32) (size policy : Nat) :
    Transition r ⟨.alloc pid size policy, (r.perform (.alloc pid size policy)).1⟩
      (r.perform (.alloc pid size policy)).2 := by
  simp only [perform, alloc]
  cases found : r.find? pid with
  | none =>
    rw [onVault_missing found]
    exact .of_refused (.missing _) fun _ _ => rfl
  | some v =>
    obtain ⟨soundV, active⟩ := sound.vault found
    rcases Vault.alloc_cases soundV active size policy with
      ⟨e, failed, reason⟩ | ⟨offset, w, done, soundW, fresh, known, updated⟩
    · rw [onVault_found found failed, replace_same sound found]
      exact .of_refused (.alloc reason) fun _ _ => rfl
    · rw [onVault_found found done]
      exact .allocated found soundW fresh known updated

theorem dealloc_transition (sound : r.Sound) (pid : UInt32) (address : Nat) :
    Transition r ⟨.dealloc pid address, (r.perform (.dealloc pid address)).1⟩
      (r.perform (.dealloc pid address)).2 := by
  simp only [perform, dealloc]
  cases found : r.find? pid with
  | none =>
    rw [onVault_missing found]
    exact .of_refused (.missing _) fun _ _ => rfl
  | some v =>
    obtain ⟨soundV, -⟩ := sound.vault found
    cases live : v.allocation? address with
    | none =>
      obtain ⟨e, failed, reason⟩ := Vault.dealloc_missing soundV live
      rw [onVault_found found failed, replace_same sound found]
      exact .of_refused (.dealloc reason) fun _ _ => rfl
    | some a =>
      obtain ⟨w, done, soundW, updated⟩ := Vault.dealloc_found soundV live
      rw [onVault_found found done]
      exact .deallocated found live soundW updated

/-- An access that no allocation can take is refused. -/
theorem Transition.of_outside {c : Call} {address : Nat} {access : Policy.Access} {length : Nat}
    {e : Vault.Error} (reason : Refusal c e)
    (attempt : ∀ p start, c.attempt? p start =
      if pid = p ∧ address = start then some (access, length) else none)
    (outside : ∀ v, r.find? pid = some v → ∀ a, v.allocation? address = some a → ¬ a.Fits length) :
    Transition r ⟨c, .error e⟩ r := by
  refine .refused reason ?_
  intro p start kind size here v a found live
  rw [attempt] at here
  split at here
  · rename_i same
    obtain ⟨rfl, rfl⟩ := same
    obtain ⟨rfl, rfl⟩ := Prod.mk.inj (Option.some.inj here)
    exact outside v found a live
  · cases here

theorem read_transition (sound : r.Sound) (pid : UInt32) (address length : Nat) :
    Transition r ⟨.read pid address length, (r.perform (.read pid address length)).1⟩
      (r.perform (.read pid address length)).2 := by
  simp only [perform, Registry.read]
  cases found : r.find? pid with
  | none =>
    rw [onVault_missing found]
    exact .of_outside (.missing _) (fun _ _ => rfl) (by simp [found])
  | some v =>
    obtain ⟨soundV, -⟩ := sound.vault found
    by_cases inside : ∃ a, v.allocation? address = some a ∧ a.Fits length
    · obtain ⟨a, live, fits⟩ := inside
      cases verdict : (v.stepped a .read).verdict with
      | allowed =>
        rw [onVault_found found (Vault.read_allowed soundV live fits verdict)]
        exact .read found live fits verdict
      | rejected =>
        rw [onVault_found found (Vault.read_rejected soundV live fits verdict)]
        exact .rejected _ (if_pos ⟨rfl, rfl⟩) found live fits verdict
    · have outside : ∀ a, v.allocation? address = some a → ¬ a.Fits length :=
        fun a live fits => inside ⟨a, live, fits⟩
      obtain ⟨e, failed, reason⟩ := Vault.read_outside soundV outside
      rw [onVault_found found failed, replace_same sound found]
      exact .of_outside (.read reason) (fun _ _ => rfl) (forall_found found outside)

theorem write_transition (sound : r.Sound) (pid : UInt32) (address : Nat) (data : List UInt8) :
    Transition r ⟨.write pid address data, (r.perform (.write pid address data)).1⟩
      (r.perform (.write pid address data)).2 := by
  simp only [perform, Registry.write]
  cases found : r.find? pid with
  | none =>
    rw [onVault_missing found]
    exact .of_outside (.missing _) (fun _ _ => rfl) (by simp [found])
  | some v =>
    obtain ⟨soundV, -⟩ := sound.vault found
    by_cases inside : ∃ a, v.allocation? address = some a ∧ a.Fits data.length
    · obtain ⟨a, live, fits⟩ := inside
      cases verdict : (v.stepped a .write).verdict with
      | allowed =>
        obtain ⟨w, done, soundW, updated⟩ := Vault.write_allowed soundV live fits verdict
        rw [onVault_found found done]
        exact .written found live fits verdict soundW updated
      | rejected =>
        rw [onVault_found found (Vault.write_rejected soundV live fits verdict)]
        exact .rejected _ (if_pos ⟨rfl, rfl⟩) found live fits verdict
    · have outside : ∀ a, v.allocation? address = some a → ¬ a.Fits data.length :=
        fun a live fits => inside ⟨a, live, fits⟩
      obtain ⟨e, failed, reason⟩ := Vault.write_outside soundV outside
      rw [onVault_found found failed, replace_same sound found]
      exact .of_outside (.write reason) (fun _ _ => rfl) (forall_found found outside)

theorem view_transition (r : Registry) (pid : UInt32) :
    Transition r ⟨.view pid, (r.perform (.view pid)).1⟩ (r.perform (.view pid)).2 := by
  simp only [perform, snapshot, inspect]
  cases found : r.find? pid with
  | none => exact .of_refused (.missing _) fun _ _ => rfl
  | some v => exact .viewed found

theorem perform_transition (sound : r.Sound) (c : Call) :
    Transition r ⟨c, (r.perform c).1⟩ (r.perform c).2 := by
  cases c with
  | load pid arenaSize sources => exact load_transition r pid arenaSize sources
  | unload pid => exact unload_transition sound pid
  | alloc pid size policy => exact alloc_transition sound pid size policy
  | dealloc pid address => exact dealloc_transition sound pid address
  | read pid address length => exact read_transition sound pid address length
  | write pid address data => exact write_transition sound pid address data
  | view pid => exact view_transition r pid

theorem Transition.sound {s : Registry} {e : Event} (step : Transition r e s) (sound : r.Sound) :
    s.Sound := by
  cases step with
  | refused | viewed => exact sound
  | loaded fresh created =>
    obtain ⟨soundV, active, rfl, -⟩ := Vault.create_spec created
    exact insert_sound sound soundV active fresh
  | unloaded found => exact erase_sound sound _
  | allocated found soundW _ _ updated | deallocated found _ soundW updated
  | written found _ _ _ soundW updated =>
    exact replace_sound sound soundW (updated.continues.active (sound.vault found).2)
  | read found live | rejected _ _ found live =>
    obtain ⟨soundV, active⟩ := sound.vault found
    obtain ⟨soundW, updated⟩ := Vault.stepped_spec soundV live _
    exact replace_sound sound soundW (updated.continues.active active)

end Registry

end PolicyVault
