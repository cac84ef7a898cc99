import Mirage.Computation.Checks
import Mirage.Computation.Table
import Mirage.Model.ByteFields

/-!
# Transfer between versions

`mirage-predictor/src/version_transfer.rs`: what a profile of the pages of one version says about
the next one.  A `BTreeMap` is a table, and the pages are put in order at the end.
-/

set_option autoImplicit false

namespace Mirage.Model

open Mirage.Computation

/-- INTERNAL: SRCLINE: mirage-predictor/src/version_transfer.rs:5-9 -/
structure LogicalPage where
  fileId : BitVec 128
  offset : Nat
  length : Nat
  deriving DecidableEq, Repr

/-- INTERNAL: the derived order. -/
def LogicalPage.NotAfter (a b : LogicalPage) : Prop :=
  a.fileId < b.fileId ∨ a.fileId = b.fileId ∧
    (a.offset < b.offset ∨ a.offset = b.offset ∧ a.length ≤ b.length)

instance LogicalPage.decidableNotAfter (a b : LogicalPage) : Decidable (a.NotAfter b) := by
  unfold LogicalPage.NotAfter
  infer_instance

/-- INTERNAL: SRCLINE: mirage-predictor/src/version_transfer.rs:11-14 -/
structure VersionPage where
  logical : LogicalPage
  hash : PageHash
  deriving DecidableEq, Repr

/-- INTERNAL: SRCLINE: mirage-predictor/src/version_transfer.rs:16-19 -/
inductive TransferKind where
  | exactHash
  | logicalRemap
  deriving DecidableEq, Repr

/-- INTERNAL: SRCLINE: mirage-predictor/src/version_transfer.rs:21-26 -/
structure TransferredPage where
  old : VersionPage
  new : VersionPage
  kind : TransferKind
  confidenceMillionths : Nat
  deriving DecidableEq, Repr

/-- INTERNAL: SRCLINE: mirage-predictor/src/version_transfer.rs:28-33 -/
structure TransferReport where
  pages : List TransferredPage
  retainedBytes : Nat
  remappedBytes : Nat
  invalidatedBytes : Nat
  deriving DecidableEq, Repr

/-- INTERNAL: a map collected from pairs keeps the last page of a key. -/
def collectPages {κ : Type} [DecidableEq κ] (key : VersionPage → κ) (new : List VersionPage) :
    Table κ VersionPage :=
  new.foldl (fun pages page => pages.set (key page) page) .empty

/-- INTERNAL: SRCLINE: mirage-predictor/src/version_transfer.rs:49-81 -/
def transferPage (byHash : Table PageHash VersionPage)
    (byLogical : Table LogicalPage VersionPage) (allowLogicalRemap : Bool)
    (logicalConfidence : Nat) (report : TransferReport) (prior : VersionPage) : TransferReport :=
  match byHash.get prior.hash with
  | some current =>
    { report with
      retainedBytes := saturatingAdd report.retainedBytes prior.logical.length
      pages := report.pages ++ [⟨prior, current, .exactHash, 1000000⟩] }
  | none =>
    if allowLogicalRemap then
      match byLogical.get prior.logical with
      | some current =>
        { report with
          remappedBytes := saturatingAdd report.remappedBytes prior.logical.length
          pages := report.pages ++ [⟨prior, current, .logicalRemap, logicalConfidence⟩] }
      | none =>
        { report with
          invalidatedBytes := saturatingAdd report.invalidatedBytes prior.logical.length }
    else
      { report with
        invalidatedBytes := saturatingAdd report.invalidatedBytes prior.logical.length }

/-- INTERNAL: SRCLINE: mirage-predictor/src/version_transfer.rs:35-84 -/
def transfer (old new : List VersionPage) (allowLogicalRemap : Bool)
    (logicalConfidence : Nat) : Except MirageError TransferReport := do
  ensure (logicalConfidence ≤ 1000000)
    (.invalidArgument "version transfer confidence exceeds one")
  let byHash := collectPages VersionPage.hash new
  let byLogical := collectPages VersionPage.logical new
  let report := old.foldl (transferPage byHash byLogical allowLogicalRemap logicalConfidence)
    ⟨[], 0, 0, 0⟩
  pure
    { report with
      pages := report.pages.insertionSort fun a b => a.old.logical.NotAfter b.old.logical }

end Mirage.Model
