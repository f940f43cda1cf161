import PolicyVault.Proofs.Memory.Arena
import PolicyVault.Vault.Registry

/-!
# Veils

A veil hides the bytes of an arena behind zeros and keeps everything else. Every operation does to
a veiled vault what it does to the vault behind the veil, and answers the same, but for the bytes
that a read answers with. So nothing else depends on stored bytes.
-/

namespace PolicyVault

/-- Bytes hidden behind zeros. -/
def blank (data : List UInt8) : List UInt8 := List.replicate data.length 0

@[simp] theorem length_blank (data : List UInt8) : (blank data).length = data.length :=
  List.length_replicate

namespace Memory

theorem eq_zeros {bytes : ByteArray} {n : Nat} (hidden : bytes.data.toList = List.replicate n 0) :
    bytes = zeros n := by
  apply ByteArray.ext
  apply Array.toList_inj.mp
  rw [hidden, data_zeros]

namespace Arena

def veil (a : Arena) : Arena := { a with bytes := zeros a.size }

@[simp] theorem size_veil (a : Arena) : a.veil.size = a.size := size_zeros a.size

theorem data_veil (a : Arena) : a.veil.bytes.data.toList = List.replicate a.size 0 :=
  data_zeros a.size

theorem checkRange_veil (a : Arena) (offset length : Nat) :
    a.veil.checkRange offset length = a.checkRange offset length := by
  simp only [checkRange, size_veil]

theorem zeroed_veil (size : UInt64) : (zeroed size).veil = zeroed size := by
  rw [veil, size_zeroed, zeroed]

theorem zeroize_veil (a : Arena) : a.veil.zeroize = a.zeroize.veil := by
  simp only [zeroize, veil, size, size_zeros]

/-- Bytes hidden behind zeros are put in place of others. -/
theorem patch_veil (a : Arena) (offset : Nat) {hidden data : ByteArray}
    (zero : hidden.data.toList = List.replicate data.size 0) :
    a.veil.patch offset hidden = (a.patch offset data).veil := by
  have same : hidden.size = data.size := by
    show hidden.data.toList.length = data.size
    rw [zero, List.length_replicate]
  -- zeros before, in and after the patch leave only the length to compare
  have bytes : (a.veil.patch offset hidden).bytes = zeros (a.patch offset data).size := by
    apply eq_zeros
    have size : data.data.toList.length = data.size := rfl
    rw [← length_data, data_patch, data_patch, data_veil, zero, same]
    simp only [List.take_replicate, List.drop_replicate, List.replicate_append_replicate,
      List.length_append, List.length_take, List.length_drop, length_data, size]
  exact congrArg (Arena.mk · a.locked) bytes

theorem write_veil (a : Arena) (offset : Nat) (data : List UInt8) :
    a.veil.write offset (blank data) = (a.write offset data).map veil := by
  unfold write
  rw [checkRange_veil, length_blank]
  cases a.checkRange offset data.length with
  | error e => rfl
  | ok =>
    apply congrArg Except.ok
    apply patch_veil
    simp [blank]

theorem zeroRange_veil (a : Arena) (offset length : Nat) :
    a.veil.zeroRange offset length = (a.zeroRange offset length).map veil := by
  unfold zeroRange
  rw [checkRange_veil]
  cases a.checkRange offset length with
  | error e => rfl
  | ok =>
    apply congrArg Except.ok
    apply patch_veil
    rw [data_zeros, size_zeros]

theorem read_veil (a : Arena) (offset length : Nat) :
    a.veil.read offset length = (a.read offset length).map blank := by
  unfold read
  rw [checkRange_veil]
  cases a.checkRange offset length with
  | error e => rfl
  | ok =>
    apply congrArg Except.ok
    have size := a.length_data
    simp only [toList_eq_data, ByteArray.data_extract, Array.toList_extract, data_veil, blank,
      List.extract_eq_take_drop, List.take_replicate, List.drop_replicate, List.length_take,
      List.length_drop, size]

end Arena

end Memory

namespace Vault

def veil (v : Vault) : Vault := { v with arena := v.arena.veil }

theorem create_veil {pid : UInt32} {arenaSize : UInt64} {sources : List (List UInt8)} {v : Vault}
    (made : create pid arenaSize sources = .ok v) : v.veil = v := by
  unfold create at made
  repeat' split at made
  all_goals cases made
  rw [veil, Memory.Arena.zeroed_veil]

/-! ## Allocations -/

theorem guard_veil (v : Vault) (offset policy : Nat) :
    v.veil.guard offset policy = Prod.map id veil (v.guard offset policy) := by
  simp only [guard, veil]
  rcases Policy.Monitor.bind v.policies policy with e | ⟨monitor, policies⟩
  · cases v.layout.deallocate offset <;> rfl
  · simp only
    cases v.layout.attach offset monitor <;> rfl

theorem alloc_veil (v : Vault) (size policy : Nat) :
    v.veil.alloc size policy = Prod.map id veil (v.alloc size policy) := by
  unfold alloc
  by_cases known : policy < v.policies.length
  · have same : policy < v.veil.policies.length := known
    rw [if_pos known, if_pos same]
    simp only [veil]
    cases v.layout.allocate size with
    | error e => rfl
    | ok taken =>
      simp only [Memory.Arena.zeroRange_veil]
      cases v.arena.zeroRange taken.1 size with
      | error e => rfl
      | ok arena => exact guard_veil { v with arena := arena, layout := taken.2 } taken.1 policy
  · have same : ¬ policy < v.veil.policies.length := known
    rw [if_neg known, if_neg same]
    rfl

theorem wipe_veil (v : Vault) (address size : Nat) :
    v.veil.wipe address size = Prod.map id veil (v.wipe address size) := by
  simp only [wipe, veil, Memory.Arena.zeroRange_veil]
  cases v.arena.zeroRange address size <;> rfl

theorem unguard_veil (v : Vault) (address : Nat) :
    v.veil.unguard address = Prod.map id veil (v.unguard address) := by
  simp only [unguard, veil]
  rcases v.layout.detach address with _ | ⟨_ | monitor, layout⟩
  · rfl
  · rfl
  · cases unbound : monitor.unbind v.policies <;> simp only [unbound] <;> rfl

theorem giveBack_veil (v : Vault) (address : Nat) :
    v.veil.giveBack address = Prod.map id veil (v.giveBack address) := by
  simp only [giveBack, veil]
  cases v.layout.deallocate address <;> rfl

theorem dealloc_veil (v : Vault) (address : Nat) :
    v.veil.dealloc address = Prod.map id veil (v.dealloc address) := by
  have used : v.veil.used address = v.used address := rfl
  unfold dealloc
  rw [used]
  cases v.used address with
  | error e => rfl
  | ok segment =>
    simp only [wipe_veil, Prod.map_fst, Prod.map_snd, unguard_veil, giveBack_veil, id_eq]
    rfl

/-! ## Accesses -/

theorem authorize_veil (v : Vault) (address length : Nat) (access : Policy.Access) :
    v.veil.authorize address length access =
      Prod.map id veil (v.authorize address length access) := by
  have used : v.veil.used address = v.used address := rfl
  unfold authorize
  rw [used]
  split
  · rfl
  · cases v.used address with
    | error e => rfl
    | ok segment =>
      by_cases long : segment.size < length
      · simp only [if_pos long]
        rfl
      · simp only [if_neg long]
        cases segment.payload.filter Policy.Monitor.isBound with
        | none => rfl
        | some monitor =>
          have same : monitor.stepAccess v.veil.policies access =
            monitor.stepAccess v.policies access := rfl
          simp only [same]
          cases (monitor.stepAccess v.policies access).verdict <;> rfl

theorem read_veil (v : Vault) (address length : Nat) :
    v.veil.read address length = Prod.map (Except.map blank) veil (v.read address length) := by
  unfold read
  rw [authorize_veil]
  rcases v.authorize address length .read with ⟨e | ⟨⟩, w⟩
  · rfl
  · simp only [Prod.map, id_eq, veil, Memory.Arena.read_veil]
    cases w.arena.read address length <;> rfl

theorem write_veil (v : Vault) (address : Nat) (data : List UInt8) :
    v.veil.write address (blank data) = Prod.map id veil (v.write address data) := by
  unfold write
  rw [authorize_veil, length_blank]
  rcases v.authorize address data.length .write with ⟨e | ⟨⟩, w⟩
  · rfl
  · simp only [Prod.map, id_eq, veil, Memory.Arena.write_veil]
    cases w.arena.write address data <;> rfl

/-! ## What can be seen -/

theorem teardown_veil (v : Vault) : v.veil.teardown = Prod.map id veil v.teardown := by
  simp only [teardown, veil, Memory.Arena.zeroize_veil]
  rfl

theorem snapshot_veil (v : Vault) : v.veil.snapshot = v.snapshot := by
  simp only [snapshot, veil, Memory.Arena.size_veil]
  rfl

end Vault

namespace Registry

open Vault (Answer)

def veil (r : Registry) : Registry := ⟨r.vaults.map Vault.veil⟩

theorem find?_veil (r : Registry) (pid : UInt32) :
    r.veil.find? pid = (r.find? pid).map Vault.veil :=
  List.find?_map ..

theorem contains_veil (r : Registry) (pid : UInt32) : r.veil.contains pid = r.contains pid := by
  rw [contains, find?_veil, Option.isSome_map, contains]

theorem insert_veil (r : Registry) (v : Vault) : r.veil.insert v.veil = (r.insert v).veil := by
  have inserted (vaults : List Vault) :
      insertInto v.veil (vaults.map Vault.veil) = (insertInto v vaults).map Vault.veil := by
    induction vaults with
    | nil => rfl
    | cons w rest ih =>
      by_cases before : v.pid < w.pid
      · have same : v.veil.pid < w.veil.pid := before
        rw [List.map_cons, insertInto, insertInto, if_pos before, if_pos same]
        rfl
      · have same : ¬ v.veil.pid < w.veil.pid := before
        rw [List.map_cons, insertInto, insertInto, if_neg before, if_neg same, ih]
        rfl
  exact congrArg Registry.mk (inserted r.vaults)

theorem erase_veil (r : Registry) (pid : UInt32) : r.veil.erase pid = (r.erase pid).veil := by
  rw [erase, veil, List.filter_map]
  rfl

theorem replace_veil (r : Registry) (v : Vault) : r.veil.replace v.veil = (r.replace v).veil := by
  rw [replace, veil, List.map_map, replace, veil, List.map_map]
  congr 2
  funext w
  by_cases here : w.pid = v.pid
  · have same : w.veil.pid = v.veil.pid := here
    simp only [Function.comp_apply, if_pos here, if_pos same]
  · have same : ¬ w.veil.pid = v.veil.pid := here
    simp only [Function.comp_apply, if_neg here, if_neg same]

/-! ## Operations -/

theorem load_veil (r : Registry) (pid : UInt32) (arenaSize : UInt64)
    (sources : List (List UInt8)) :
    r.veil.load pid arenaSize sources = Prod.map id veil (r.load pid arenaSize sources) := by
  unfold load
  rw [contains_veil]
  split
  · rfl
  · cases made : Vault.create pid arenaSize sources with
    | error e => rfl
    | ok v =>
      have inserted := r.insert_veil v
      rw [Vault.create_veil made] at inserted
      exact congrArg (Prod.mk _) inserted

theorem unload_veil (r : Registry) (pid : UInt32) :
    r.veil.unload pid = Prod.map id veil (r.unload pid) := by
  unfold unload
  rw [find?_veil, erase_veil]
  cases r.find? pid with
  | none => rfl
  | some v =>
    simp only [Option.map_some, Vault.teardown_veil, Prod.map_fst, id_eq]
    cases v.teardown.1 <;> rfl

/-- Operations that commute with the veil of a vault do so with the veil of a registry. -/
theorem onVault_veil {α : Type} {look : Except Vault.Error α → Except Vault.Error α}
    {operation hidden : Vault → Answer Vault α}
    (missing : ∀ e, look (.error e) = .error e)
    (commutes : ∀ v, hidden v.veil = Prod.map look Vault.veil (operation v)) (r : Registry)
    (pid : UInt32) :
    r.veil.onVault pid hidden = Prod.map look veil (r.onVault pid operation) := by
  unfold onVault
  rw [find?_veil]
  cases r.find? pid with
  | none => exact congrArg (·, r.veil) (missing _).symm
  | some v =>
    simp only [Option.map_some, commutes]
    exact congrArg (Prod.mk _) (r.replace_veil (operation v).2)

theorem alloc_veil (r : Registry) (pid : UInt32) (size policy : Nat) :
    r.veil.alloc pid size policy = Prod.map id veil (r.alloc pid size policy) :=
  onVault_veil (fun _ => rfl) (·.alloc_veil size policy) r pid

theorem dealloc_veil (r : Registry) (pid : UInt32) (address : Nat) :
    r.veil.dealloc pid address = Prod.map id veil (r.dealloc pid address) :=
  onVault_veil (fun _ => rfl) (·.dealloc_veil address) r pid

theorem read_veil (r : Registry) (pid : UInt32) (address length : Nat) :
    r.veil.read pid address length = Prod.map (Except.map blank) veil (r.read pid address length) :=
  onVault_veil (fun _ => rfl) (·.read_veil address length) r pid

theorem write_veil (r : Registry) (pid : UInt32) (address : Nat) (data : List UInt8) :
    r.veil.write pid address (blank data) = Prod.map id veil (r.write pid address data) :=
  onVault_veil (fun _ => rfl) (·.write_veil address data) r pid

theorem inspect_veil {α : Type} {look : Vault → α} (same : ∀ v, look v.veil = look v)
    (r : Registry) (pid : UInt32) : r.veil.inspect pid look = r.inspect pid look := by
  unfold inspect
  rw [find?_veil]
  cases r.find? pid with
  | none => rfl
  | some v => exact congrArg Except.ok (same v)

theorem arenaSize_veil (r : Registry) (pid : UInt32) : r.veil.arenaSize pid = r.arenaSize pid :=
  inspect_veil (fun v => v.arena.size_veil) r pid

theorem snapshot_veil (r : Registry) (pid : UInt32) : r.veil.snapshot pid = r.snapshot pid :=
  inspect_veil Vault.snapshot_veil r pid

end Registry

end PolicyVault
