import Mirage.Model.ChangeLog

/-!
# A consumer of the remote change log

Changes of any volumes are recorded while a consumer of one volume asks, again and again, for
the changes after the cursor of the last change it received.  A page is recorded change by
change, and a page that was interrupted is recorded once more from its start; so a run is any
sequence of single records and requests.
-/

set_option autoImplicit false

namespace Mirage.Interface

open Mirage.Model

/-- INTERNAL: the log, and what the consumer has received. -/
structure ReplayState where
  log : ChangeLog
  received : List RemoteChange
  deriving DecidableEq, Repr

namespace ReplayState

variable (s : ReplayState) (volumeId : RepositoryId)

/-- INTERNAL: the cursor of the last change received; before that the empty one. -/
def cursor : String := (s.received.getLast?.map RemoteChange.cursor).getD ""

/-- INTERNAL: the changes of the volume that were recorded, in this order. -/
def recorded : List RemoteChange := (s.log.ofVolume volumeId).map RemoteChangeEntry.change

/-- INTERNAL: the consumer asks once. -/
def poll : ReplayState :=
  { s with received := s.received ++ s.log.changesAfter volumeId s.cursor }

end ReplayState

/-- INTERNAL: a log in which the keys of the table hold, the sequences of a volume increase
from 1 on and the consumer's first cursor is not used, and nothing received yet. -/
structure ReplayStart (volumeId : RepositoryId) (s : ReplayState) : Prop where
  increasing : (s.log.ofVolume volumeId).Pairwise fun a b => a.entrySeq < b.entrySeq
  positive : ∀ row ∈ s.log.ofVolume volumeId, 0 < row.entrySeq
  unused : ∀ row ∈ s.log.ofVolume volumeId, row.change.cursor ≠ ""
  received : s.received = []

/-- INTERNAL: the states of a run in which every change is recorded in a state that allows
it. -/
inductive ReplayReaches (volumeId : RepositoryId) (allowed : ReplayState → RemoteChange → Prop) :
    ReplayState → ReplayState → Prop where
  | start {s : ReplayState} : ReplayReaches volumeId allowed s s
  | record {s₀ s : ReplayState} {log : ChangeLog} (run : ReplayReaches volumeId allowed s₀ s)
      (change : RemoteChange) (hallowed : allowed s change)
      (ok : s.log.recordChange change = .ok log) :
      ReplayReaches volumeId allowed s₀ { s with log := log }
  | poll {s₀ s : ReplayState} (run : ReplayReaches volumeId allowed s₀ s) :
      ReplayReaches volumeId allowed s₀ (s.poll volumeId)

/-- INTERNAL: a new change of the volume is not recorded under the cursor the consumer stands
at. -/
def ApartFrom (volumeId : RepositoryId) (s : ReplayState) (change : RemoteChange) : Prop :=
  change.volumeId = volumeId → change.cursor = s.cursor → s.log.recorded change = true

/-- INTERNAL: what was received is what was recorded first, in the order of recording, and the
next request brings the rest. -/
def ReplayedOnce (volumeId : RepositoryId) (s : ReplayState) : Prop :=
  s.received <+: s.recorded volumeId ∧ (s.poll volumeId).received = s.recorded volumeId

instance (volumeId : RepositoryId) (s : ReplayState) : Decidable (ReplayedOnce volumeId s) :=
  inferInstanceAs (Decidable (_ ∧ _))

end Mirage.Interface
