/-!
# Hardening of the host process

Which protections of its own memory a process managed to switch on.
-/

namespace PolicyVault.Host

structure Hardening where
  dumpableDisabled : Bool
  coreLimitZero : Bool
  memoryLocked : Bool
  deriving DecidableEq, Repr

/-- No core dump can hold the memory: either measure against dumps is enough. -/
def Hardening.isProtected (h : Hardening) : Bool :=
  h.dumpableDisabled || h.coreLimitZero

def Hardening.describe (h : Hardening) : String :=
  s!"HardeningStatus \x7b dumpable_disabled: {h.dumpableDisabled}, "
    ++ s!"core_limit_zero: {h.coreLimitZero}, memory_locked: {h.memoryLocked} \x7d"

end PolicyVault.Host
