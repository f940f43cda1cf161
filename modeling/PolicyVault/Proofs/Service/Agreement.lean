import PolicyVault.Proofs.Service.Answers

/-!
# The checks of the dispatcher

The dispatcher checks sizes, addresses and lengths before it asks the registry, and the registry
checks them again in its own way. Apart from the two bounds that only the dispatcher has, its
checks refuse nothing that the registry would have granted.

Main statement: `Service.Dispatcher.dispatch_exact`.
-/

namespace PolicyVault

/-- Without an expression no vault is created. -/
theorem Vault.create_sources {pid : UInt32} {arenaSize : UInt64} {sources : List (List UInt8)}
    {v : Vault} (created : create pid arenaSize sources = .ok v) : sources ≠ [] := by
  rintro rfl
  unfold create at created
  split at created <;> cases created

namespace Service

open Wire (Request Reply Message)
open Registry (Call Value Transition)

/-- The request is beyond a bound that the registry does not have. -/
def Limits.Exceeded (limits : Limits) : Request → Prop
  | .load _ arenaSize _ => limits.maxArena < arenaSize
  | .read _ _ length => Wire.maxPayload < length.toNat
  | _ => False

/-- The reply that tells a client the value of a call. -/
inductive Tells (q : Request) : Value → Reply → Prop
  | done : Tells q .done (Reply.ack q)
  | offset (offset : UInt32) :
      Tells q (.offset offset.toNat) ((Reply.ack q).withField2 offset)
  | data (bytes : List UInt8) : Tells q (.data bytes) { Reply.ack q with payload := bytes }
  | snapshot (v : Snapshot) :
      Tells q (.snapshot v) { Reply.ack q with payload := v.encode.take Wire.maxPayload }

namespace Dispatcher

variable {d : Dispatcher} {q : Request} {c : Call} {pid : UInt32} {v : Vault}

/-- What requests make of a dispatcher, read from messages or not, while the system locks arenas. -/
inductive Evolved : Dispatcher → Prop
  | fresh (limits : Limits) : Evolved (fresh limits)
  | handled {d : Dispatcher} (evolved : Evolved d) (m : Message) : Evolved (d.handle m).2
  | dispatched {d : Dispatcher} (evolved : Evolved d) (q : Request) : Evolved (d.dispatch q).2
  | locked {d : Dispatcher} {pid : UInt32} {v : Vault} {granted : Bool} {arena : Memory.Arena}
      (evolved : Evolved d) (found : d.registry.find? pid = some v)
      (locked : v.arena.lock granted = .ok arena) :
      Evolved { d with registry := d.registry.replace { v with arena := arena } }

theorem Evolved.filled (evolved : Evolved d) : d.Filled := by
  induction evolved with
  | fresh limits => exact ⟨fresh_sound limits, fun _ _ missing => by cases missing⟩
  | handled _ m ih => exact handle_filled ih m
  | dispatched _ q ih => exact (dispatch_dispatched ih.toSound q).filled ih
  | locked _ found locked ih =>
    obtain ⟨pinned, same⟩ := Vault.pin_of_lock locked
    rw [same]
    exact pin_filled ih found pinned

/-! ## The checks -/

theorem checkPid_ok : d.checkPid pid = .ok () ↔ pid ≠ 0 ∧ pid ≤ d.limits.maxPid := by
  unfold checkPid
  split
  · rename_i outside
    refine ⟨nofun, fun inside => ?_⟩
    rcases outside with zero | above
    · exact absurd zero inside.1
    · exact absurd above (UInt32.not_lt.mpr inside.2)
  · rename_i inside
    obtain ⟨nonzero, below⟩ := not_or.mp inside
    exact ⟨fun _ => ⟨nonzero, UInt32.not_lt.mp below⟩, fun _ => rfl⟩

theorem arenaSize_found (checked : d.checkPid pid = .ok ())
    (found : d.registry.find? pid = some v) : d.arenaSize pid = .ok v.arena.size := by
  simp only [arenaSize, checked, Registry.arenaSize, Registry.inspect, found]

/-- An allocation starts inside of the arena. -/
theorem checkAddress_live (sound : d.Sound) (checked : d.checkPid pid = .ok ())
    (found : d.registry.find? pid = some v) {address : UInt32} {a : Vault.Allocation}
    (live : v.allocation? address.toNat = some a) : d.checkAddress pid address = .ok () := by
  obtain ⟨positive, within, -⟩ := (sound.registry.vault found).1.inside live
  have inside : ¬ v.arena.size ≤ address.toNat := by omega
  simp only [checkAddress, arenaSize_found checked found, if_neg inside]

theorem checkLoad_granted {arenaSize : UInt32} {policies : List Wire.PolicyItem} {value : Value}
    {s : Registry} (checked : d.checkPid pid = .ok ())
    (step : Transition d.registry
      ⟨.load pid arenaSize.toUInt64 (policies.map (·.expression)), .ok value⟩ s) :
    d.checkLoad pid arenaSize policies = .ok () ↔ ¬ d.limits.maxArena < arenaSize := by
  cases step with
  | loaded fresh created =>
    obtain ⟨positive, -⟩ := Vault.create_inversion created
    have carried : ¬ policies.isEmpty = true := by
      simpa using Vault.create_sources created
    have nonzero : arenaSize ≠ 0 := by
      rintro rfl
      exact absurd positive (Nat.lt_irrefl 0)
    simp only [checkLoad, checked, nonzero, false_or, if_neg carried]
    by_cases above : d.limits.maxArena < arenaSize
    · simp [above]
    · simp [above]

theorem checkAlloc_granted {size policy : UInt32} {value : Value} {s : Registry}
    (checked : d.checkPid pid = .ok ())
    (step : Transition d.registry ⟨.alloc pid size.toNat policy.toNat, .ok value⟩ s) :
    d.checkAlloc pid size = .ok () := by
  cases step with
  | allocated found soundW fresh known updated =>
    obtain ⟨positive, within, -⟩ := soundW.inside updated.here
    rw [updated.continues.size] at within
    have nonzero : size ≠ 0 := by
      rintro rfl
      exact absurd positive (Nat.lt_irrefl 0)
    have short := Nat.not_lt.mpr (Nat.le_trans (Nat.le_add_left ..) within)
    simp only [checkAlloc, arenaSize_found checked found, if_neg (not_or.mpr ⟨nonzero, short⟩)]

theorem checkDealloc_granted (sound : d.Sound) {address : UInt32} {value : Value} {s : Registry}
    (checked : d.checkPid pid = .ok ())
    (step : Transition d.registry ⟨.dealloc pid address.toNat, .ok value⟩ s) :
    d.checkAddress pid address = .ok () := by
  cases step with
  | deallocated found live => exact checkAddress_live sound checked found live

theorem checkRead_granted (sound : d.Sound) {address length : UInt32} {value : Value}
    {s : Registry} (checked : d.checkPid pid = .ok ())
    (step : Transition d.registry ⟨.read pid address.toNat length.toNat, .ok value⟩ s) :
    d.checkRead pid address length = .ok () ↔ ¬ Wire.maxPayload < length.toNat := by
  cases step with
  | read found live fits =>
    have nonzero : length ≠ 0 := by
      rintro rfl
      exact absurd fits.1 (Nat.lt_irrefl 0)
    simp only [checkRead, checkAddress_live sound checked found live, if_neg nonzero]
    by_cases long : Wire.maxPayload < length.toNat
    · simp [long]
    · simp [long]

theorem checkWrite_granted (sound : d.Sound) {address : UInt32} {data : List UInt8} {value : Value}
    {s : Registry} (checked : d.checkPid pid = .ok ())
    (step : Transition d.registry ⟨.write pid address.toNat data, .ok value⟩ s) :
    d.checkWrite pid address data = .ok () := by
  cases step with
  | written found live fits =>
    have carried : ¬ data.isEmpty = true := by
      simpa using List.ne_nil_of_length_pos fits.1
    simp only [checkWrite, checkAddress_live sound checked found live, if_neg carried]

/-! ## Agreement -/

/-- An answer of the dispatcher to a request is what its call of the registry makes of it. -/
structure Agrees (d : Dispatcher) (q : Request) (c : Call) (answer : Answer Reply) : Prop where
  granted : (∃ r, answer.1 = .ok r) ↔
    (∃ value, (d.registry.perform c).1 = .ok value) ∧ ¬ d.limits.Exceeded q
  told : ∀ r, answer.1 = .ok r →
    (∃ value, (d.registry.perform c).1 = .ok value ∧ Tells q value r) ∧
      answer.2 = { d with registry := (d.registry.perform c).2 }

theorem Agrees.refused {e : Error} {next : Dispatcher}
    (beyond : ∀ value, (d.registry.perform c).1 = .ok value → d.limits.Exceeded q) :
    d.Agrees q c (.error e, next) where
  granted := by
    constructor
    · rintro ⟨r, granted⟩
      cases granted
    · rintro ⟨⟨value, done⟩, within⟩
      exact absurd (beyond value done) within
  told := fun r granted => nomatch granted

theorem Agrees.served {value : Value} {s : Registry} {r : Reply}
    (done : d.registry.perform c = (.ok value, s)) (within : ¬ d.limits.Exceeded q)
    (tells : Tells q value r) : d.Agrees q c (.ok r, { d with registry := s }) where
  granted := ⟨fun _ => ⟨⟨value, by rw [done]⟩, within⟩, fun _ => ⟨r, rfl⟩⟩
  told := by
    intro other same
    obtain rfl := Except.ok.inj same
    rw [done]
    exact ⟨⟨value, rfl, tells⟩, rfl⟩

/-- A request agrees with its call if its check passes for every call that is granted within the
bounds, and every value can be told. -/
theorem serve_agrees {α : Type} {check : Except Error Unit}
    {operation : Registry → Vault.Answer Registry α} {reply : α → Except Wire.Error Reply}
    (value : α → Value) (sound : d.Sound)
    (performs : Registry.answerAs value (operation d.registry) = d.registry.perform c)
    (passes : ∀ a s, Transition d.registry ⟨c, .ok (value a)⟩ s →
      (check = .ok () ↔ ¬ d.limits.Exceeded q))
    (tells : check = .ok () → ∀ a s, Transition d.registry ⟨c, .ok (value a)⟩ s →
      ∃ r, reply a = .ok r ∧ Tells q (value a) r) :
    d.Agrees q c (d.serve check operation reply) := by
  have step := Registry.perform_transition sound.registry c
  rw [← performs] at step
  rcases result : operation d.registry with ⟨outcome, s⟩
  rw [result] at performs step
  unfold serve
  cases outcome with
  | error e =>
    have failed : ∀ x, (d.registry.perform c).1 ≠ .ok x := by
      intro x done
      rw [← performs] at done
      cases done
    split
    · exact .refused fun x done => absurd done (failed x)
    · rw [result]
      exact .refused fun x done => absurd done (failed x)
  | ok a =>
    have exact := passes a s step
    split
    · apply Agrees.refused
      intro _ _
      by_contra within
      cases exact.mpr within
    · obtain ⟨r, made, told⟩ := tells rfl a s step
      simp only [result, made]
      exact .served performs.symm (exact.mp rfl) told

theorem dispatch_agrees (sound : d.Sound) (checked : d.checkPid q.pid = .ok ())
    (call : callOf? q = some c) : d.Agrees q c (d.dispatch q) := by
  unfold dispatch
  cases q with
  | nil | terminate => cases call
  | load pid arenaSize policies =>
    obtain rfl := Option.some.inj call
    exact serve_agrees (fun _ => .done) sound rfl (fun _ _ step => checkLoad_granted checked step)
      fun _ _ _ _ => ⟨_, rfl, .done⟩
  | unload pid =>
    obtain rfl := Option.some.inj call
    exact serve_agrees (fun _ => .done) sound rfl (fun _ _ _ => iff_of_true checked id)
      fun _ _ _ _ => ⟨_, rfl, .done⟩
  | alloc pid size policy =>
    obtain rfl := Option.some.inj call
    refine serve_agrees .offset sound rfl
      (fun _ _ step => iff_of_true (checkAlloc_granted checked step) id) ?_
    intro _ offset s step
    have fits : offset < Text.wordLimit32 := offset_small sound step
    have same : offset.toUInt32.toNat = offset := UInt32.toNat_ofNat_of_lt' fits
    have told : Tells (.alloc pid size policy) (.offset offset.toUInt32.toNat) _ := .offset _
    rw [same] at told
    exact ⟨_, by simp [Wire.fit, fits], told⟩
  | dealloc pid address =>
    obtain rfl := Option.some.inj call
    exact serve_agrees (fun _ => .done) sound rfl
      (fun _ _ step => iff_of_true (checkDealloc_granted sound checked step) id)
      fun _ _ _ _ => ⟨_, rfl, .done⟩
  | read pid address length =>
    obtain rfl := Option.some.inj call
    refine serve_agrees .data sound rfl (fun _ _ step => checkRead_granted sound checked step) ?_
    intro passed bytes s step
    have short : bytes.length ≤ Wire.maxPayload :=
      Nat.le_trans (data_length step) (checkRead_short passed)
    exact ⟨_, withPayload_ok _ short, .data bytes⟩
  | write pid address data =>
    obtain rfl := Option.some.inj call
    exact serve_agrees (fun _ => .done) sound rfl
      (fun _ _ step => iff_of_true (checkWrite_granted sound checked step) id)
      fun _ _ _ _ => ⟨_, rfl, .done⟩
  | view pid =>
    obtain rfl := Option.some.inj call
    refine serve_agrees .snapshot sound rfl (fun _ _ _ => iff_of_true checked id) ?_
    intro _ v s _
    exact ⟨_, withPayload_ok _ (List.length_take_le ..), .snapshot v⟩

/-- A request for a process is granted just if its call of the registry would be, except beyond the
bounds of the dispatcher. Then the dispatcher ends with the registry that the call leaves, and the
reply tells the value of the call. -/
theorem dispatch_exact (evolved : Evolved d) (pid : q.pid ≠ 0 ∧ q.pid ≤ d.limits.maxPid)
    (call : callOf? q = some c) :
    ((∃ r, (d.dispatch q).1 = .ok r) ↔
        (∃ value, (d.registry.perform c).1 = .ok value) ∧ ¬ d.limits.Exceeded q) ∧
      ∀ r, (d.dispatch q).1 = .ok r →
        (∃ value, (d.registry.perform c).1 = .ok value ∧ Tells q value r) ∧
          (d.dispatch q).2 = { d with registry := (d.registry.perform c).2 } := by
  have agrees := dispatch_agrees evolved.filled.toSound (checkPid_ok.mpr pid) call
  exact ⟨agrees.granted, agrees.told⟩

/-- With 12 of 16 bytes left, an allocation of all of them is granted, and one of 13 is not. -/
theorem dispatch_exact_whole_rest :
    let d := (fresh .standard).after readOnce
    (∃ r, (d.dispatch (.alloc 1 12 0)).1 = .ok r ∧ Tells (.alloc 1 12 0) (.offset 4) r ∧
      (d.dispatch (.alloc 1 12 0)).2.registry = (d.registry.perform (.alloc 1 12 0)).2) ∧
      ¬ ∃ r, (d.dispatch (.alloc 1 13 0)).1 = .ok r := by
  intro d
  have evolved : Evolved d := (((Evolved.fresh .standard).handled _).handled _).handled _
  have pid : (1 : UInt32) ≠ 0 ∧ 1 ≤ d.limits.maxPid := by decide +kernel
  have allocated : (d.registry.perform (.alloc 1 12 0)).1 = .ok (.offset 4) :=
    Policy.ok_of_toOption (by decide +kernel)
  have missing : (d.registry.perform (.alloc 1 13 0)).1.toOption = none := by decide +kernel
  have twelve : callOf? (.alloc 1 12 0) = some (.alloc 1 12 0) := rfl
  have thirteen : callOf? (.alloc 1 13 0) = some (.alloc 1 13 0) := rfl
  constructor
  · obtain ⟨granted, told⟩ := dispatch_exact (q := .alloc 1 12 0) evolved pid twelve
    obtain ⟨r, done⟩ := granted.mpr ⟨⟨_, allocated⟩, id⟩
    obtain ⟨⟨value, same, tells⟩, next⟩ := told r done
    obtain rfl := Except.ok.inj (allocated.symm.trans same)
    exact ⟨r, done, tells, congrArg registry next⟩
  · intro granted
    obtain ⟨⟨value, done⟩, -⟩ :=
      (dispatch_exact (q := .alloc 1 13 0) evolved pid thirteen).1.mp granted
    rw [done] at missing
    cases missing

end Dispatcher

end Service

end PolicyVault
