import Bookkeeping.Engine.Basic
import Bookkeeping.Journal.Device
/-! Engines that start on an empty book or on a journal. -/
namespace Bookkeeping.Engine

def inMemory (notifier : Notifier) : Engine := { store := .memory {}, notifier }

/-- An engine on a journal; what was cut off the journal is reported. -/
def onJournal (notifier : Notifier) (target : Journal.Target) (bytes : List UInt8) :
    Except Error Engine :=
  let (opened, file) := target.openJournal bytes
  opened.map fun o =>
    { store := .journal o.store file
      notifier
      log := if o.discarded = 0 then [] else [.tailDiscarded o.discarded] }

end Bookkeeping.Engine
