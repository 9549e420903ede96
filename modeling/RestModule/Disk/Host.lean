import RestModule.CommandLine.Run
import RestModule.Disk.Store

/-!
# A disk as a host
-/

namespace RestModule.Disk

/-- A disk as the machine that commands run on. -/
def host : CommandLine.Host (StateM Disk) where
  store := store
  readText path := return (← get).readText path

end RestModule.Disk
