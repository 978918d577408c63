/-
Citadel.Daemon.LsmIo — the OCALLs of the enclave, as the daemon carries
them out (`citadeld/lsm_io.cpp`): the enclave's bytes go to the kernel's
update file or into its install attribute.

The update file is written through stdio. `fwrite` of a message that fits
the stream's buffer copies it and reports one item; the write itself
happens in `fclose`, whose result nobody looks at. Opening the file is
taken to succeed.
-/
import Citadel.Lsm.PayloadIo

namespace Citadel.Daemon

/-- The kernel module as the daemon reaches it, with the insertions of the
last update it was sent. -/
structure Host where
  lsm : Lsm
  log : List (UpdateRecord × Bool)

/-- `install_ticket`: the number of items `fwrite` took. -/
def installTicket (A : Gcm) (copy : CopyEnv) (env : UpdateEnv) (h : Host)
    (ticketData : List UInt8) : Option (Host × Int) := do
  let (lsm, _written, log) ← updateReceive A copy env h.lsm ticketData
  some (⟨lsm, log⟩, if ticketData.length = 0 then 0 else 1)

/-- `ENOENT`. -/
def enoent : Int := 2

/-- `install_xattr`: `errno` after `setxattr`, which the call before left at
zero. A path is the inode it names, if it names one. -/
def installXattr (A : Gcm) (env : InstallEnv) (h : Host) (path : Option Nat)
    (ticketData : List UInt8) : Option (Host × Int) :=
  match path with
  | none => some (h, enoent)
  | some i => do
    let (lsm, rc) ← trmInodeSetxattrInstall A env h.lsm i ticketData
    some ({ h with lsm := lsm }, if rc < 0 then -rc else 0)

end Citadel.Daemon
