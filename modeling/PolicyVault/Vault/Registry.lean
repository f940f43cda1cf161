import PolicyVault.Vault.Basic

/-!
# The registry of vaults

The vaults of all registered processes, in ascending order of their process numbers. A process
has at most one vault.
-/

namespace PolicyVault

structure Registry where
  vaults : List Vault

namespace Registry

open Vault (Answer)

def empty : Registry := ⟨[]⟩

def pids (r : Registry) : List UInt32 := r.vaults.map (·.pid)

def find? (r : Registry) (pid : UInt32) : Option Vault :=
  r.vaults.find? fun v => v.pid == pid

def contains (r : Registry) (pid : UInt32) : Bool :=
  (r.find? pid).isSome

def insertInto (v : Vault) : List Vault → List Vault
  | [] => [v]
  | w :: rest => if v.pid < w.pid then v :: w :: rest else w :: insertInto v rest

def insert (r : Registry) (v : Vault) : Registry := ⟨insertInto v r.vaults⟩

def erase (r : Registry) (pid : UInt32) : Registry := ⟨r.vaults.filter fun v => v.pid != pid⟩

def replace (r : Registry) (v : Vault) : Registry :=
  ⟨r.vaults.map fun w => if w.pid = v.pid then v else w⟩

def load (r : Registry) (pid : UInt32) (arenaSize : UInt64) (sources : List (List UInt8)) :
    Answer Registry Unit :=
  if r.contains pid then (.error (.alreadyRegistered pid), r)
  else
    match Vault.create pid arenaSize sources with
    | .error e => (.error e, r)
    | .ok v => (.ok (), r.insert v)

/-- Tears the vault of a process down. The process is removed even if something fails. -/
def unload (r : Registry) (pid : UInt32) : Answer Registry Unit :=
  match r.find? pid with
  | none => (.error (.notRegistered pid), r)
  | some v =>
    match v.teardown.1 with
    | [] => (.ok (), r.erase pid)
    | failures => (.error (.cleanup pid failures), r.erase pid)

def onVault {α : Type} (r : Registry) (pid : UInt32) (operation : Vault → Answer Vault α) :
    Answer Registry α :=
  match r.find? pid with
  | none => (.error (.notRegistered pid), r)
  | some v =>
    let (answer, v) := operation v
    (answer, r.replace v)

def alloc (r : Registry) (pid : UInt32) (size policy : Nat) : Answer Registry Nat :=
  r.onVault pid (·.alloc size policy)

def dealloc (r : Registry) (pid : UInt32) (address : Nat) : Answer Registry Unit :=
  r.onVault pid (·.dealloc address)

def read (r : Registry) (pid : UInt32) (address length : Nat) : Answer Registry (List UInt8) :=
  r.onVault pid (·.read address length)

def write (r : Registry) (pid : UInt32) (address : Nat) (data : List UInt8) :
    Answer Registry Unit :=
  r.onVault pid (·.write address data)

def inspect {α : Type} (r : Registry) (pid : UInt32) (look : Vault → α) : Except Vault.Error α :=
  match r.find? pid with
  | none => .error (.notRegistered pid)
  | some v => .ok (look v)

def arenaSize (r : Registry) (pid : UInt32) : Except Vault.Error Nat :=
  r.inspect pid (·.arena.size)

def snapshot (r : Registry) (pid : UInt32) : Except Vault.Error Snapshot :=
  r.inspect pid (·.snapshot)

end Registry

end PolicyVault
