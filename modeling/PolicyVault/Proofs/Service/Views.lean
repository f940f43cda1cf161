import PolicyVault.Proofs.Service.Isolation
import PolicyVault.Proofs.Vault.Views
import PolicyVault.Proofs.Wire.Requests

/-!
# Views

A granted view carries the written snapshot of a vault, cut off where the payload ends. What is
read from it is therefore the whole snapshot or nothing.

Main statement: `Service.Dispatcher.views_exact`.
-/

namespace PolicyVault.Service.Dispatcher

open Wire (Request Reply Frame Message Tag)

variable {d : Dispatcher} {q : Request} {r : Reply} {m : Message} {f : Frame}

/-! ## Granted views -/

theorem serve_ok {α : Type} {check : Except Error Unit}
    {operation : Registry → Vault.Answer Registry α} {reply : α → Except Wire.Error Reply}
    (served : (d.serve check operation reply).1 = .ok r) :
    ∃ a, (operation d.registry).1 = .ok a ∧ reply a = .ok r := by
  unfold serve at served
  split at served
  · cases served
  · split at served
    · cases served
    · rename_i a s done
      split at served
      · cases served
      · rename_i made
        obtain rfl := Except.ok.inj served
        exact ⟨a, by rw [done], made⟩

theorem withPayload_inversion {before : Reply} {payload : List UInt8}
    (made : before.withPayload payload = .ok r) : r = { before with payload := payload } := by
  unfold Reply.withPayload at made
  split at made
  · cases made
  · split at made
    · cases made
    · exact (Except.ok.inj made).symm

theorem dispatch_tag (granted : (d.dispatch q).1 = .ok r) : r.tag = ⟨q.operation, .ack⟩ := by
  unfold dispatch at granted
  cases q with
  | nil | terminate =>
    obtain rfl := Except.ok.inj granted
    rfl
  | load | unload | dealloc | write =>
    obtain ⟨_, -, made⟩ := serve_ok granted
    obtain rfl := Except.ok.inj made
    rfl
  | alloc =>
    obtain ⟨offset, -, made⟩ := serve_ok granted
    split at made
    · cases made
    · obtain rfl := Except.ok.inj made
      rfl
  | read | view =>
    obtain ⟨_, -, made⟩ := serve_ok granted
    rw [withPayload_inversion made]
    rfl

theorem refusal_nak (f : Frame) : f.refusal.tag &&& Wire.nakBit ≠ 0 := by
  have same : f.refusal.tag &&& Wire.nakBit = Wire.nakBit := by
    apply UInt32.eq_of_toBitVec_eq
    ext i bound
    simpa [Frame.refusal, Frame.bare] using Or.inr
  rw [same]
  decide

theorem nak_nak (operation : Wire.Operation) :
    (Tag.mk operation .nak).toWord &&& Wire.nakBit ≠ 0 := by
  cases operation <;> decide

theorem handle_none_refuses (d : Dispatcher) (none : request? m = none) :
    ∃ g : Frame, (d.handle m).1 = .reply g.refusal := by
  unfold request? at none
  unfold handle
  cases decoded : Frame.decode m with
  | error e => exact ⟨_, rfl⟩
  | ok g =>
    cases valid : Request.ofFrame g with
    | error e => exact ⟨g, by simp only [valid]⟩
    | ok q => simp [decoded, valid] at none

/-- A reply that is no refusal grants a request. -/
theorem granted_of_ack (answered : (d.handle m).1 = .reply f) (ack : f.tag &&& Wire.nakBit = 0) :
    ∃ q r, (d.dispatch q).1 = .ok r ∧ f = r.toFrame := by
  cases found : request? m with
  | none =>
    obtain ⟨g, refused⟩ := handle_none_refuses d found
    obtain rfl := Outcome.reply.inj (answered.symm.trans refused)
    exact absurd ack (refusal_nak g)
  | some q =>
    rw [handle_some d found] at answered
    unfold respond at answered
    split at answered
    · cases answered
    · split at answered
      · rename_i r next result
        exact ⟨q, r, by rw [result], (Outcome.reply.inj answered).symm⟩
      · obtain rfl := Outcome.reply.inj answered
        exact absurd ack (nak_nak q.operation)

theorem exists_of_snapshot {r : Registry} {pid : UInt32} {v : Snapshot}
    (seen : r.snapshot pid = .ok v) : ∃ w, r.find? pid = some w ∧ w.snapshot = v := by
  simp only [Registry.snapshot, Registry.inspect] at seen
  split at seen
  · cases seen
  · rename_i w found
    exact ⟨w, found, Except.ok.inj seen⟩

theorem viewed_of_ack (answered : (d.handle m).1 = .reply f)
    (ack : f.tag = (Tag.mk .view .ack).toWord) :
    ∃ v, d.registry.find? f.pid = some v ∧
      f.payload = v.snapshot.encode.take Wire.maxPayload := by
  obtain ⟨q, r, granted, rfl⟩ := granted_of_ack answered (ack ▸ ack_not_nak .view)
  have tag : r.tag = ⟨.view, .ack⟩ := by
    have word := congrArg Tag.ofWord ack
    rw [Reply.toFrame, Tag.ofWord_toWord, Tag.ofWord_toWord] at word
    exact Except.ok.inj word
  have operation : q.operation = .view :=
    congrArg Tag.operation ((dispatch_tag granted).symm.trans tag)
  cases q with
  | view pid =>
    obtain ⟨view, seen, made⟩ := serve_ok granted
    rw [withPayload_inversion made]
    obtain ⟨v, found, rfl⟩ := exists_of_snapshot seen
    exact ⟨v, found, rfl⟩
  | _ => cases operation

/-- A view of a process that has a vault is granted. -/
theorem handle_view {pid : UInt32} {v : Snapshot} (holds : request? m = some (.view pid))
    (checked : d.checkPid pid = .ok ()) (seen : d.registry.snapshot pid = .ok v) :
    (d.handle m).1 = .reply
      ⟨(Tag.mk .view .ack).toWord, pid, 0, 0, 0, v.encode.take Wire.maxPayload⟩ := by
  have continues : (Request.view pid).operation ≠ .terminate := by simp [Request.operation]
  rw [handle_some d holds, respond, if_neg continues]
  simp only [dispatch, serve, checked, seen, withPayload_ok _ (List.length_take_le ..)]
  rfl

/-! ## Dispatchers that can be reached -/

/-- What a dispatcher can become: messages are handled, and the system locks arenas. -/
inductive Reached : Dispatcher → Prop
  | fresh (limits : Limits) : Reached (fresh limits)
  | handled {d : Dispatcher} (reached : Reached d) (m : Message) : Reached (d.handle m).2
  | locked {d : Dispatcher} {pid : UInt32} {v : Vault} {granted : Bool} {arena : Memory.Arena}
      (reached : Reached d) (found : d.registry.find? pid = some v)
      (locked : v.arena.lock granted = .ok arena) :
      Reached { d with registry := d.registry.replace { v with arena := arena } }

structure Filled (d : Dispatcher) : Prop extends Sound d where
  positive : ∀ pid v, d.registry.find? pid = some v → 0 < v.arena.size

theorem Filled.portable (filled : d.Filled) {pid : UInt32} {v : Vault}
    (found : d.registry.find? pid = some v) : v.snapshot.Portable :=
  (filled.registry.vault found).1.portable (filled.positive pid v found)

theorem Filled.of_continues {e : Dispatcher} (filled : d.Filled) (sound : e.Sound)
    (before : ∀ pid w, e.registry.find? pid = some w →
      (∃ arenaSize sources, Vault.create pid arenaSize sources = .ok w) ∨
        ∃ v, d.registry.find? pid = some v ∧ v.Continues w) : e.Filled := by
  refine ⟨sound, ?_⟩
  intro pid w found
  rcases before pid w found with ⟨arenaSize, sources, created⟩ | ⟨v, foundV, continues⟩
  · exact (Vault.create_intact created).positive
  · rw [continues.size]
    exact filled.positive pid v foundV

theorem Dispatched.filled {answer : Answer Reply} (dispatched : Dispatched d q answer)
    (filled : d.Filled) : answer.2.Filled := by
  have stepped : ∀ {e : Registry.Event} {s : Registry}, Registry.Transition d.registry e s →
      ({ d with registry := s } : Dispatcher).Sound →
        ({ d with registry := s } : Dispatcher).Filled := by
    intro e s step sound
    apply filled.of_continues sound
    intro pid w found
    rcases step.created_or_continues filled.registry found with
      ⟨arenaSize, sources, -, created⟩ | ⟨-, continued⟩
    · exact .inl ⟨arenaSize, sources, created⟩
    · exact .inr continued
  have sound := dispatched.sound filled.toSound
  cases dispatched with
  | checked | idle => exact filled
  | failed _ step | granted _ step => exact stepped step sound

theorem handle_filled (filled : d.Filled) (m : Message) : (d.handle m).2.Filled := by
  cases found : request? m with
  | none =>
    rw [handle_none d found]
    exact filled
  | some q =>
    have dispatched := (dispatch_dispatched filled.toSound q).filled filled
    rw [handle_some d found]
    unfold respond
    split
    · exact filled
    · rcases result : d.dispatch q with ⟨answer, next⟩
      rw [result] at dispatched
      cases answer with
      | error e => exact dispatched
      | ok r => exact dispatched

theorem pin_filled (filled : d.Filled) {pid : UInt32} {v : Vault}
    (found : d.registry.find? pid = some v) (pinned : Bool) :
    ({ d with registry := d.registry.replace (v.pin pinned) } : Dispatcher).Filled := by
  obtain ⟨soundV, active⟩ := filled.registry.vault found
  obtain rfl := (Registry.mem_of_find? found).2
  have before : ∀ pid w, (d.registry.replace (v.pin pinned)).find? pid = some w →
      ∃ u, d.registry.find? pid = some u ∧ u.Continues w :=
    fun _ _ => Registry.continues_of_updated found (v.updated_pin pinned 0)
  refine filled.of_continues ⟨?_, ?_⟩ fun pid w foundW => .inr (before pid w foundW)
  · exact Registry.replace_sound filled.registry (soundV.pin pinned) active
  · intro pid w foundW
    obtain ⟨u, foundU, continues⟩ := before pid w foundW
    rw [continues.size]
    exact filled.small pid u foundU

theorem Reached.filled (reached : Reached d) : d.Filled := by
  induction reached with
  | fresh limits => exact ⟨fresh_sound limits, fun _ _ missing => by cases missing⟩
  | handled _ m ih => exact handle_filled ih m
  | locked _ found locked ih =>
    obtain ⟨pinned, same⟩ := Vault.pin_of_lock locked
    rw [same]
    exact pin_filled ih found pinned

theorem Reached.after (reached : Reached d) (messages : List Message) :
    Reached (d.after messages) := by
  induction messages generalizing d with
  | nil => exact reached
  | cons m messages ih => exact ih (reached.handled m)


/-- A snapshot that has a segment and no marks in its texts is read back from its written form, and
nothing is read from a proper prefix of that. Every vault that can be reached shows such a snapshot,
with the texts of its policies as they were loaded, and every snapshot that is read is one. So what
is read from a granted view is the snapshot of the vault if its written form fits into a payload,
and nothing otherwise. -/
theorem views_exact :
    (∀ v : Snapshot, v.Portable → v.Reservable → Snapshot.decode v.encode = .ok v) ∧
      (∀ v : Snapshot, v.Portable → ∀ part, part <+: v.encode → part ≠ v.encode →
        Snapshot.decode part = .error .malformed) ∧
      (∀ sources g, Vault.Shared.Reached sources g → g.vault.snapshot.Portable ∧
        g.vault.snapshot.policies.map (Text.bytesOfText ·.text) = sources) ∧
      (∀ bytes v, Snapshot.decode bytes = .ok v → v.Portable ∧ v.Reservable) ∧
      ∀ d m f, Reached d → (d.handle m).1 = .reply f → f.tag = (Tag.mk .view .ack).toWord →
        ∃ v, d.registry.snapshot f.pid = .ok v ∧ Snapshot.decode f.payload =
          if v.encode.length ≤ Wire.maxPayload then .ok v else .error .malformed := by
  refine ⟨fun v => Snapshot.decode_encode, fun v portable part => Snapshot.decode_prefix portable,
    ?_, fun bytes v => Snapshot.portable_of_decode, ?_⟩
  · intro sources g reached
    have intact : g.Intact := reached.intact
    exact ⟨intact.toSound.portable intact.positive,
      intact.toSound.texts.trans reached.sources_eq⟩
  · intro d m f reached answered ack
    obtain ⟨v, found, payload⟩ := viewed_of_ack answered ack
    refine ⟨v.snapshot, by rw [Registry.snapshot, Registry.inspect, found], ?_⟩
    rw [payload]
    exact Snapshot.decode_take (reached.filled.portable found) (by decide)

/-- After a read under the policy `R`, a view shows the policy and two segments, and nothing can be
read from a part of it. A vault of the policies `R` and `W` shows them after all calls. -/
theorem views_exact_read_once :
    let d := (fresh .standard).after readOnce
    let v : Snapshot := ⟨1, 16, 4, false, [⟨"R", 1⟩],
      [⟨0, 3, 4, true, some "R", some 2⟩, ⟨4, 15, 12, false, none, none⟩]⟩
    (∃ f, (d.handle ((Frame.bare 7 1 0 0).header 0)).1 = .reply f ∧
      d.registry.snapshot f.pid = .ok v ∧ Snapshot.decode f.payload = .ok v) ∧
      Snapshot.decode v.encode = .ok v ∧
      (∀ part, part <+: v.encode → part ≠ v.encode →
        Snapshot.decode part = .error .malformed) ∧
      ∃ w, Vault.create 7 16 [[0x52], [0x57]] = .ok w ∧
        ∀ calls, ((⟨w, []⟩ : Vault.Shared).after calls).vault.snapshot.policies.map
          (Text.bytesOfText ·.text) = [[0x52], [0x57]] := by
  intro d v
  obtain ⟨inverse, truncated, shown, readable, granted⟩ := views_exact
  have seen : d.registry.snapshot 1 = .ok v := Policy.ok_of_toOption (by decide +kernel)
  have checked : d.checkPid 1 = .ok () := Policy.ok_of_toOption (by decide +kernel)
  have holds : request? ((Frame.bare 7 1 0 0).header 0) = some (.view 1) := rfl
  have answered := handle_view holds checked seen
  have short : v.encode.length ≤ Wire.maxPayload := by
    rw [Snapshot.encode, Text.bytesOfText_ofList]
    decide +kernel
  have reached : Reached d := (Reached.fresh .standard).after readOnce
  obtain ⟨w, same, decoded⟩ := granted d _ _ reached answered rfl
  obtain rfl := Except.ok.inj (seen.symm.trans same)
  rw [if_pos short] at decoded
  obtain ⟨portable, reservable⟩ := readable _ _ decoded
  refine ⟨⟨_, answered, seen, decoded⟩, inverse v portable reservable, truncated v portable, ?_⟩
  have made : (Vault.create 7 16 [[0x52], [0x57]]).toOption.isSome = true := by decide +kernel
  obtain ⟨w, found⟩ := Option.isSome_iff_exists.mp made
  have created := Policy.ok_of_toOption found
  have start := Vault.Shared.Reached.created created
  exact ⟨w, created, fun calls => (shown _ _ (start.after calls)).2⟩

end PolicyVault.Service.Dispatcher
