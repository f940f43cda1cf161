import Mathlib
import PolicyVault.Proofs.Vault.Runs
import PolicyVault.Service.Dispatch

/-!
# Refused requests

A message that is refused changes nothing. There is one exception: a read or a write that violates
the policy advances the monitor of the allocation it is about. What a request did is never refused
afterwards, since all checks of the reply pass.

Main statement: `Service.Dispatcher.refused_unchanged`.
-/

namespace PolicyVault.Service

open Wire (Request Reply Frame Message)
open Registry (Call Event Value Transition)

/-- Errors found before anything was done: no violation of a policy, no failure of a cleanup and
none of a reply. -/
def Error.isEarly : Error → Bool
  | .wire _ | .vault (.cleanup ..) | .vault (.policyViolation ..) => false
  | _ => true

def callOf? : Request → Option Call
  | .nil | .terminate => none
  | .load pid arenaSize policies =>
    some (.load pid arenaSize.toUInt64 (policies.map (·.expression)))
  | .unload pid => some (.unload pid)
  | .alloc pid size policy => some (.alloc pid size.toNat policy.toNat)
  | .dealloc pid address => some (.dealloc pid address.toNat)
  | .read pid address length => some (.read pid address.toNat length.toNat)
  | .write pid address data => some (.write pid address.toNat data)
  | .view pid => some (.view pid)

namespace Dispatcher

def after (d : Dispatcher) (messages : List Message) : Dispatcher :=
  messages.foldl (fun d m => (d.handle m).2) d

structure Sound (d : Dispatcher) : Prop where
  registry : d.registry.Sound
  small : ∀ pid v, d.registry.find? pid = some v → v.arena.size < Text.wordLimit32

theorem fresh_sound (limits : Limits) : (fresh limits).Sound :=
  ⟨Registry.empty_sound, fun _ _ missing => by cases missing⟩

variable {d : Dispatcher} {q : Request}

/-- All that a dispatch can do: a check fails, the registry fails, or the request is granted. -/
inductive Dispatched (d : Dispatcher) (q : Request) : Answer Reply → Prop
  | checked {e : Error} (early : e.isEarly = true) : Dispatched d q (.error e, d)
  | failed {c : Call} {e : Vault.Error} {s : Registry} (call : callOf? q = some c)
      (step : Transition d.registry ⟨c, .error e⟩ s) :
      Dispatched d q (.error (.vault e), { d with registry := s })
  | granted {c : Call} {value : Value} {s : Registry} {r : Reply} (call : callOf? q = some c)
      (step : Transition d.registry ⟨c, .ok value⟩ s) (ack : r.tag.status = .ack) :
      Dispatched d q (.ok r, { d with registry := s })
  | idle {r : Reply} (ack : r.tag.status = .ack) : Dispatched d q (.ok r, d)

/-! ## Checks -/

/-- A check fails only before the registry is asked. -/
def Early {α : Type} (check : Except Error α) : Prop := ∀ e, check = .error e → e.isEarly = true

theorem early_ok {α : Type} (a : α) : Early (.ok a) := fun _ failed => nomatch failed

theorem early_error {α : Type} {e : Error} (early : e.isEarly = true) :
    Early (.error e : Except Error α) := by
  intro f failed
  obtain rfl := Except.error.inj failed
  exact early

theorem checkPid_early (d : Dispatcher) (pid : UInt32) : Early (d.checkPid pid) := by
  unfold checkPid
  split
  · exact early_error rfl
  · exact early_ok ()

theorem arenaSize_early (d : Dispatcher) (pid : UInt32) : Early (d.arenaSize pid) := by
  unfold arenaSize
  split
  · rename_i e failed
    exact early_error (checkPid_early d pid e failed)
  · split
    · rename_i e missing
      unfold Registry.arenaSize Registry.inspect at missing
      split at missing
      · obtain rfl := Except.error.inj missing
        exact early_error rfl
      · cases missing
    · exact early_ok _

theorem checkAddress_early (d : Dispatcher) (pid address : UInt32) :
    Early (d.checkAddress pid address) := by
  unfold checkAddress
  split
  · rename_i e failed
    exact early_error (arenaSize_early d pid e failed)
  · split
    · exact early_error rfl
    · exact early_ok ()

theorem checkLoad_early (d : Dispatcher) (pid arenaSize : UInt32)
    (policies : List Wire.PolicyItem) : Early (d.checkLoad pid arenaSize policies) := by
  unfold checkLoad
  split
  · rename_i e failed
    exact early_error (checkPid_early d pid e failed)
  · split
    · exact early_error rfl
    · split
      · exact early_error rfl
      · exact early_ok ()

theorem checkAlloc_early (d : Dispatcher) (pid size : UInt32) : Early (d.checkAlloc pid size) := by
  unfold checkAlloc
  split
  · rename_i e failed
    exact early_error (arenaSize_early d pid e failed)
  · split
    · exact early_error rfl
    · exact early_ok ()

theorem checkRead_early (d : Dispatcher) (pid address length : UInt32) :
    Early (d.checkRead pid address length) := by
  unfold checkRead
  split
  · rename_i e failed
    exact early_error (checkAddress_early d pid address e failed)
  · split
    · exact early_error rfl
    · split
      · exact early_error rfl
      · exact early_ok ()

theorem checkWrite_early (d : Dispatcher) (pid address : UInt32) (data : List UInt8) :
    Early (d.checkWrite pid address data) := by
  unfold checkWrite
  split
  · rename_i e failed
    exact early_error (checkAddress_early d pid address e failed)
  · split
    · exact early_error rfl
    · exact early_ok ()

theorem checkRead_short {pid address length : UInt32}
    (passed : d.checkRead pid address length = .ok ()) : length.toNat ≤ Wire.maxPayload := by
  unfold checkRead at passed
  split at passed
  · cases passed
  · split at passed
    · cases passed
    · split at passed
      · cases passed
      · omega

/-! ## Replies -/

theorem status_ack (q : Request) : (Reply.ack q).tag.status = .ack := rfl

theorem withPayload_ok (q : Request) {payload : List UInt8}
    (short : payload.length ≤ Wire.maxPayload) :
    (Reply.ack q).withPayload payload = .ok { Reply.ack q with payload := payload } := by
  have fits : ¬ Wire.maxPayload < payload.length := by omega
  simp [Reply.withPayload, fits, status_ack]

/-! ## Dispatching -/

/-- A request served by the call `c`, where every answer of the registry makes a granting reply. -/
theorem serve_dispatched {α : Type} {check : Except Error Unit}
    {operation : Registry → Vault.Answer Registry α} {reply : α → Except Wire.Error Reply}
    {c : Call} (value : α → Value) (sound : d.Sound) (call : callOf? q = some c)
    (early : Early check)
    (performs : Registry.answerAs value (operation d.registry) = d.registry.perform c)
    (grants : check = .ok () → ∀ a s, Transition d.registry ⟨c, .ok (value a)⟩ s →
      ∃ r, reply a = .ok r ∧ r.tag.status = .ack) :
    Dispatched d q (d.serve check operation reply) := by
  have step := Registry.perform_transition sound.registry c
  rw [← performs] at step
  unfold serve
  split
  · rename_i e
    exact .checked (early e rfl)
  · split
    · rename_i e s failed
      rw [failed] at step
      exact .failed call step
    · rename_i a s done
      rw [done] at step
      obtain ⟨r, made, ack⟩ := grants rfl a s step
      simp only [made]
      exact .granted call step ack

/-- An arena of less than 4 GiB has offsets that fit into a word. -/
theorem offset_small (sound : d.Sound) {pid : UInt32} {size policy offset : Nat} {s : Registry}
    (step : Transition d.registry ⟨.alloc pid size policy, .ok (.offset offset)⟩ s) :
    offset < Text.wordLimit32 := by
  cases step with
  | allocated found soundW fresh known updated =>
    have small := sound.small pid _ found
    have inside := (soundW.inside updated.here).2.1
    have size := updated.continues.size
    have positive := (soundW.inside updated.here).1
    omega

theorem data_length {r s : Registry} {pid : UInt32} {address length : Nat} {bytes : List UInt8}
    (step : Transition r ⟨.read pid address length, .ok (.data bytes)⟩ s) :
    bytes.length ≤ length := by
  cases step with
  | read => exact List.length_take_le ..

theorem dispatch_dispatched (sound : d.Sound) (q : Request) : Dispatched d q (d.dispatch q) := by
  unfold dispatch
  cases q with
  | nil | terminate => exact .idle (status_ack _)
  | load pid arenaSize policies =>
    exact serve_dispatched (fun _ => .done) sound rfl (checkLoad_early d pid arenaSize policies)
      rfl fun _ _ _ _ => ⟨_, rfl, status_ack _⟩
  | unload pid =>
    exact serve_dispatched (fun _ => .done) sound rfl (checkPid_early d pid)
      rfl fun _ _ _ _ => ⟨_, rfl, status_ack _⟩
  | alloc pid size policy =>
    refine serve_dispatched .offset sound rfl (checkAlloc_early d pid size) rfl ?_
    intro _ offset s step
    have fits : offset < Text.wordLimit32 := offset_small sound step
    refine ⟨(Reply.ack (.alloc pid size policy)).withField2 offset.toUInt32, ?_, status_ack _⟩
    simp [Wire.fit, fits]
  | dealloc pid address =>
    exact serve_dispatched (fun _ => .done) sound rfl (checkAddress_early d pid address)
      rfl fun _ _ _ _ => ⟨_, rfl, status_ack _⟩
  | read pid address length =>
    refine serve_dispatched .data sound rfl (checkRead_early d pid address length) rfl ?_
    intro passed bytes s step
    have short : bytes.length ≤ Wire.maxPayload :=
      Nat.le_trans (data_length step) (checkRead_short passed)
    exact ⟨_, withPayload_ok _ short, status_ack _⟩
  | write pid address data =>
    exact serve_dispatched (fun _ => .done) sound rfl (checkWrite_early d pid address data)
      rfl fun _ _ _ _ => ⟨_, rfl, status_ack _⟩
  | view pid =>
    refine serve_dispatched .snapshot sound rfl (checkPid_early d pid) rfl ?_
    intro _ snapshot s _
    exact ⟨_, withPayload_ok _ (List.length_take_le ..), status_ack _⟩

theorem Dispatched.sound {answer : Answer Reply} (dispatched : Dispatched d q answer)
    (sound : d.Sound) : answer.2.Sound := by
  have stepped : ∀ {c : Call} {x : Except Vault.Error Value} {s : Registry},
      callOf? q = some c → Transition d.registry ⟨c, x⟩ s →
        ({ d with registry := s } : Dispatcher).Sound := by
    intro c x s call step
    refine ⟨step.sound sound.registry, ?_⟩
    intro pid w found
    rcases step.created_or_continues sound.registry found with
      ⟨arenaSize, sources, loaded, created⟩ | ⟨-, v, foundV, continues⟩
    · obtain ⟨rfl, -⟩ := Event.mk.inj loaded
      obtain ⟨-, -, -, size, -⟩ := Vault.create_spec created
      cases q with
      | load p words policies =>
        obtain ⟨-, rfl, -⟩ := Call.load.inj (Option.some.inj call)
        rw [size, UInt32.toNat_toUInt64]
        exact words.toNat_lt
      | _ => cases call
    · rw [continues.size]
      exact sound.small pid v foundV
  cases dispatched with
  | checked | idle => exact sound
  | failed call step | granted call step => exact stepped call step

theorem handle_sound (sound : d.Sound) (m : Message) : (d.handle m).2.Sound := by
  unfold handle
  split
  · exact sound
  · split
    · exact sound
    · rename_i q _
      have dispatched := (dispatch_dispatched sound q).sound sound
      unfold respond
      split
      · exact sound
      · split
        · rename_i result
          rw [result] at dispatched
          exact dispatched
        · rename_i result
          rw [result] at dispatched
          exact dispatched

theorem after_sound (sound : d.Sound) (messages : List Message) : (d.after messages).Sound := by
  induction messages generalizing d with
  | nil => exact sound
  | cons m messages ih => exact ih (handle_sound sound m)

/-! ## Refusals -/

/-- The request that a message holds. -/
def Holds (m : Message) (q : Request) : Prop :=
  ∃ f, Frame.decode m = .ok f ∧ Request.ofFrame f = .ok q

def access? : Request → Option (UInt32 × UInt32 × Policy.Access)
  | .read pid address _ => some (pid, address, .read)
  | .write pid address _ => some (pid, address, .write)
  | _ => none

/-- The monitor at an address of a process made one more step, and nothing else changed. -/
def Stepped (r : Registry) (pid : UInt32) (address : Nat) (access : Policy.Access)
    (s : Registry) : Prop :=
  ∃ v segment monitor, r.find? pid = some v ∧ v.used address = .ok segment ∧
    segment.payload = some monitor ∧
    s = r.replace { v with layout := v.layout.setPayload address (some { monitor with
      current := (monitor.stepAccess v.policies access).current
      previous := monitor.current }) }

theorem ack_not_nak (operation : Wire.Operation) :
    (Wire.Tag.mk operation .ack).toWord &&& Wire.nakBit = 0 := by
  cases operation <;> decide

theorem refusal_early {c : Call} {e : Vault.Error} (reason : Registry.Refusal c e) :
    (Error.vault e).isEarly = true := by
  cases reason with
  | missing | registered => rfl
  | create failed =>
    unfold Vault.create at failed
    split at failed
    · obtain rfl := Except.error.inj failed
      rfl
    split at failed
    · obtain rfl := Except.error.inj failed
      rfl
    split at failed
    · obtain rfl := Except.error.inj failed
      rfl
    · cases failed
  | alloc reason => cases reason <;> rfl
  | dealloc reason => cases reason <;> rfl
  | read reason | write reason =>
    cases reason with
    | empty | tooLong => rfl
    | absent reason => cases reason <;> rfl

theorem access?_of_attempt {c : Call} {pid : UInt32} {start length : Nat} {access : Policy.Access}
    (call : callOf? q = some c) (attempt : c.attempt? pid start = some (access, length)) :
    ∃ address : UInt32, address.toNat = start ∧ access? q = some (pid, address, access) := by
  cases q with
  | read p address size =>
    obtain rfl := Option.some.inj call
    obtain ⟨⟨rfl, rfl⟩, same⟩ := Option.ite_none_right_eq_some.mp attempt
    obtain ⟨rfl, -⟩ := Prod.mk.inj (Option.some.inj same)
    exact ⟨address, rfl, rfl⟩
  | write p address data =>
    obtain rfl := Option.some.inj call
    obtain ⟨⟨rfl, rfl⟩, same⟩ := Option.ite_none_right_eq_some.mp attempt
    obtain ⟨rfl, -⟩ := Prod.mk.inj (Option.some.inj same)
    exact ⟨address, rfl, rfl⟩
  | nil | terminate => cases call
  | _ =>
    obtain rfl := Option.some.inj call
    cases attempt

/-- A failing dispatch changes nothing, or it steps the monitor that refuses an access. -/
theorem Dispatched.failure {e : Error} {next : Dispatcher}
    (dispatched : Dispatched d q (.error e, next)) (sound : d.Sound) :
    (next = d ∧ e.isEarly = true) ∨ ∃ pid address access text,
      access? q = some (pid, address, access) ∧
      e = .vault (.policyViolation address.toNat access text) ∧ next.limits = d.limits ∧
      Stepped d.registry pid address.toNat access next.registry := by
  cases dispatched with
  | checked early => exact .inl ⟨rfl, early⟩
  | failed call step =>
    cases step with
    | refused reason => exact .inl ⟨rfl, refusal_early reason⟩
    | @rejected _ pid v start length a access attempt found live fits rejected =>
      obtain ⟨address, rfl, accessed⟩ := access?_of_attempt call attempt
      have soundV := (sound.registry.vault found).1
      obtain ⟨segment, member, starts, payload, -⟩ := soundV.allocation?_eq_some.mp live
      have used := Vault.used_of_mem soundV member
      rw [starts] at used
      exact .inr ⟨pid, address, access, _, accessed, rfl, rfl, v, segment, a.monitor, found,
        used, payload, rfl⟩

theorem Holds.unique {m : Message} {p : Request} (first : Holds m p) (second : Holds m q) :
    p = q := by
  obtain ⟨f, decoded, valid⟩ := first
  obtain ⟨g, decoded', valid'⟩ := second
  obtain rfl := Except.ok.inj (decoded.symm.trans decoded')
  exact Except.ok.inj (valid.symm.trans valid')

/-- A refusing reply stands for a message that holds no request, or for a failing dispatch. -/
theorem handle_failure (sound : d.Sound) {m : Message} {f : Frame}
    (answered : (d.handle m).1 = .reply f) (nak : f.tag &&& Wire.nakBit ≠ 0) :
    ((d.handle m).2 = d ∧ ∀ q, ¬ Holds m q) ∨
      ∃ q e, Holds m q ∧ d.dispatch q = (.error e, (d.handle m).2) := by
  cases decoded : Frame.decode m with
  | error e =>
    refine .inl ⟨by simp only [handle, decoded], ?_⟩
    rintro q ⟨frame, isFrame, -⟩
    simp [decoded] at isFrame
  | ok frame =>
    cases valid : Request.ofFrame frame with
    | error e =>
      refine .inl ⟨by simp only [handle, decoded, valid], ?_⟩
      rintro q ⟨other, isFrame, isRequest⟩
      obtain rfl := Except.ok.inj (decoded.symm.trans isFrame)
      simp [valid] at isRequest
    | ok q =>
      have handled : d.handle m = d.respond q := by simp only [handle, decoded, valid]
      rw [handled] at answered ⊢
      have dispatched := dispatch_dispatched sound q
      unfold respond at answered ⊢
      by_cases ends : q.operation = .terminate
      · rw [if_pos ends] at answered
        cases answered
      · rw [if_neg ends] at answered ⊢
        rcases result : d.dispatch q with ⟨answer, next⟩
        cases answer with
        | error e => exact .inr ⟨q, e, ⟨frame, decoded, valid⟩, result⟩
        | ok r =>
          -- A granted request is acknowledged, which the bit denies.
          rw [result] at answered dispatched
          obtain rfl := Outcome.reply.inj answered
          have ack : r.tag.status = .ack := by
            cases dispatched with
            | granted _ _ ack | idle ack => exact ack
          obtain ⟨⟨operation, status⟩, pid, field2, field3, payload⟩ := r
          obtain rfl : status = .ack := ack
          exact absurd (ack_not_nak operation) nak

/-- A message that is refused leaves the dispatcher as it was, and the reason was found before
anything was done. The exception is a message that holds a read or a write which violates the
policy: then the monitor of the allocation has made the refused step. -/
theorem refused_unchanged {limits : Limits} {messages : List Message} {m : Message} {f : Frame}
    (answered : (((fresh limits).after messages).handle m).1 = .reply f)
    (nak : f.tag &&& Wire.nakBit ≠ 0) :
    let d := (fresh limits).after messages
    let next := (d.handle m).2
    (next = d ∧ ∀ q e, Holds m q → (d.dispatch q).1 = .error e → e.isEarly = true) ∨
      ∃ q pid address access text, Holds m q ∧ access? q = some (pid, address, access) ∧
        (d.dispatch q).1 = .error (.vault (.policyViolation address.toNat access text)) ∧
        next.limits = d.limits ∧ Stepped d.registry pid address.toNat access next.registry := by
  intro d next
  have sound : d.Sound := after_sound (fresh_sound limits) messages
  rcases handle_failure sound answered nak with ⟨same, nothing⟩ | ⟨q, e, holds, result⟩
  · exact .inl ⟨same, fun q _ holds => absurd holds (nothing q)⟩
  · have dispatched := dispatch_dispatched sound q
    rw [result] at dispatched
    rcases dispatched.failure sound with
      ⟨same, early⟩ | ⟨pid, address, access, text, accessed, rfl, limits, stepped⟩
    · refine .inl ⟨same, ?_⟩
      intro p e' held failed
      obtain rfl := holds.unique held
      rw [result] at failed
      obtain rfl := Except.error.inj failed
      exact early
    · exact .inr ⟨q, pid, address, access, text, holds, accessed, by rw [result], limits,
        stepped⟩

/-- Messages that load the policy `R`, make four bytes under it and read them. -/
def readOnce : List Message :=
  [(Frame.bare 1 1 16 1).header 9 ++ Wire.wordBytes 1 ++ Wire.wordBytes 1 ++ [0x52],
    (Frame.bare 3 1 4 0).header 0, (Frame.bare 5 1 0 0).header 4]

set_option maxRecDepth 2000 in
theorem refused_unchanged_second_read :
    let d := (fresh .standard).after readOnce
    let m := (Frame.bare 5 1 0 0).header 4
    (d.handle m).1 = .reply (.bare 0x25 1 0 0) ∧ (0x25 : UInt32) &&& Wire.nakBit ≠ 0 ∧
      ∃ q pid address access text, Holds m q ∧ access? q = some (pid, address, access) ∧
        (d.dispatch q).1 = .error (.vault (.policyViolation address.toNat access text)) ∧
        (d.handle m).2.limits = d.limits ∧
        Stepped d.registry pid address.toNat access (d.handle m).2.registry := by
  have answered : (((fresh .standard).after readOnce).handle ((Frame.bare 5 1 0 0).header 4)).1 =
      .reply (.bare 0x25 1 0 0) := by decide +kernel
  have nak : (0x25 : UInt32) &&& Wire.nakBit ≠ 0 := by decide
  refine ⟨answered, nak, ?_⟩
  have holds : Holds ((Frame.bare 5 1 0 0).header 4) (.read 1 0 4) :=
    ⟨⟨5, 1, 0, 0, 4, []⟩, rfl, rfl⟩
  have violated : (((fresh .standard).after readOnce).dispatch (.read 1 0 4)).1 =
      .error (.vault (.policyViolation 0 .read "R")) := by cbv
  rcases refused_unchanged answered nak with ⟨-, early⟩ | stepped
  · cases early _ _ holds violated
  · exact stepped

end Dispatcher

end PolicyVault.Service
