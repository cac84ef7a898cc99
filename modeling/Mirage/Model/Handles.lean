import Mirage.Model.Namespace

/-!
# Open handles

`mirage-engine/src/handles.rs`: for each open inode the number of its opens, how many of them
share and request each access, and whether it is delete-pending.  The counters are `u32` and
are incremented with the plain `+` of a release build.
-/

set_option autoImplicit false

namespace Mirage.Model

open Mirage.Computation

/-- INTERNAL: SRCLINE: mirage-engine/src/handles.rs:11-17 -/
structure ShareAccess where
  read : Bool
  write : Bool
  delete : Bool
  deriving DecidableEq, Repr

namespace ShareAccess

/-- INTERNAL: SRCLINE: mirage-engine/src/handles.rs:19-35 -/
def all : ShareAccess := ⟨true, true, true⟩

def onlyRead : ShareAccess := ⟨true, false, false⟩

end ShareAccess

/-- INTERNAL: SRCLINE: mirage-engine/src/handles.rs:37-43 -/
structure DesiredAccess where
  read : Bool
  write : Bool
  delete : Bool
  deriving DecidableEq, Repr

/-- INTERNAL: SRCLINE: mirage-engine/src/handles.rs:45-55 -/
structure OpenRecord where
  opens : Nat
  shareRead : Nat
  shareWrite : Nat
  shareDelete : Nat
  desiredRead : Nat
  desiredWrite : Nat
  desiredDelete : Nat
  deletePending : Bool
  deriving DecidableEq, Repr

/-- INTERNAL: SRCLINE: mirage-engine/src/handles.rs:64-72 -/
inductive DeleteDisposition where
  | removed
  | pending
  deriving DecidableEq, Repr

/-- INTERNAL: `if flag { counter += 1 }` on a `u32`. -/
def bump (counter : Nat) (flag : Bool) : Nat := if flag then (counter + 1) % 2 ^ 32 else counter

/-- INTERNAL: `counter.saturating_sub(u32::from(flag))`. -/
def lower (counter : Nat) (flag : Bool) : Nat := counter - flag.toNat

namespace OpenRecord

/-- INTERNAL: the record of a first open.
SRCLINE: mirage-engine/src/handles.rs:162-171 -/
def first (desired : DesiredAccess) (share : ShareAccess) : OpenRecord where
  opens := 1
  shareRead := share.read.toNat
  shareWrite := share.write.toNat
  shareDelete := share.delete.toNat
  desiredRead := desired.read.toNat
  desiredWrite := desired.write.toNat
  desiredDelete := desired.delete.toNat
  deletePending := false

/-- INTERNAL: the requested access is not shared by every open.
SRCLINE: mirage-engine/src/handles.rs:131-133 -/
def conflicts (record : OpenRecord) (desired : DesiredAccess) : Bool :=
  desired.read && decide (record.shareRead < record.opens) ||
    desired.write && decide (record.shareWrite < record.opens) ||
    desired.delete && decide (record.shareDelete < record.opens)

/-- INTERNAL: SRCLINE: mirage-engine/src/handles.rs:139-157 -/
def admitOpen (record : OpenRecord) (desired : DesiredAccess) (share : ShareAccess) : OpenRecord :=
  { record with
    opens := bump record.opens true
    shareRead := bump record.shareRead share.read
    shareWrite := bump record.shareWrite share.write
    shareDelete := bump record.shareDelete share.delete
    desiredRead := bump record.desiredRead desired.read
    desiredWrite := bump record.desiredWrite desired.write
    desiredDelete := bump record.desiredDelete desired.delete }

/-- INTERNAL: SRCLINE: mirage-engine/src/handles.rs:191-201 -/
def leave (record : OpenRecord) (desired : DesiredAccess) (share : ShareAccess) : OpenRecord :=
  { record with
    opens := lower record.opens true
    shareRead := lower record.shareRead share.read
    shareWrite := lower record.shareWrite share.write
    shareDelete := lower record.shareDelete share.delete
    desiredRead := lower record.desiredRead desired.read
    desiredWrite := lower record.desiredWrite desired.write
    desiredDelete := lower record.desiredDelete desired.delete }

end OpenRecord

/-- INTERNAL: SRCLINE: mirage-engine/src/handles.rs:57-62 -/
abbrev HandleTable := Table InodeId OpenRecord

namespace HandleTable

/-- INTERNAL: SRCLINE: mirage-engine/src/handles.rs:117-174 -/
def «open» (table : HandleTable) (inode : InodeId) (desired : DesiredAccess)
    (share : ShareAccess) : Except MirageError HandleTable :=
  match table.get inode with
  | some record =>
    if record.deletePending then .error (.repositoryConflict "file is delete-pending")
    else if record.conflicts desired then
      .error (.repositoryConflict "share access conflicts with an open handle")
    else .ok (table.set inode (record.admitOpen desired share))
  | none => .ok (table.set inode (.first desired share))

/-- INTERNAL: whether the tombstone just became final.
SRCLINE: mirage-engine/src/handles.rs:178-208 -/
def close (table : HandleTable) (inode : InodeId) (desired : DesiredAccess)
    (share : ShareAccess) : Bool × HandleTable :=
  match table.get inode with
  | none => (false, table)
  | some record =>
    let record := record.leave desired share
    if record.opens = 0 then (record.deletePending, table.erase inode)
    else (false, table.set inode record)

/-- INTERNAL: `unlink` is what the closure returns.
SRCLINE: mirage-engine/src/handles.rs:219-244 -/
def deleteWith (table : HandleTable) (inode : InodeId) (unlink : Except MirageError Unit) :
    Except MirageError DeleteDisposition × HandleTable :=
  match table.get inode with
  | some record =>
    if record.desiredDelete = 0 then
      (.error (.repositoryConflict "open handles did not grant delete sharing"), table)
    else
      match unlink with
      | .error e => (.error e, table)
      | .ok () => (.ok .pending, table.set inode { record with deletePending := true })
  | none =>
    match unlink with
    | .error e => (.error e, table)
    | .ok () => (.ok .removed, table)

/-- INTERNAL: SRCLINE: mirage-engine/src/handles.rs:256-263 -/
def isDeletePending (table : HandleTable) (inode : InodeId) : Bool :=
  (table.get inode).any OpenRecord.deletePending

end HandleTable

end Mirage.Model
