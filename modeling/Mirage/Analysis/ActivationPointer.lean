import Mirage.Model.Generations

/-!
# The pointer after an activation

A switch is a compare-and-swap of the pair of columns that names the active generation.  An
activation that fails behind its switch undoes it by a second one, which there is only where a
generation was active before.
-/

set_option autoImplicit false

namespace Mirage.Analysis

open Mirage.Computation
open Mirage.Model
open Mirage.Model.Generations

/-! ## The compare-and-swap -/

/-- INTERNAL: the columns that name a repository's active generation. -/
def pointerOf (db : GenerationDb) (repository : RepositoryId) :
    Option (Option Int × Option (List UInt8)) :=
  (db.repositories.get repository).map fun row => (row.activeGeneration, row.activeCommitHash)

/-- INTERNAL: the columns a pointer is stored in. -/
def pointerColumns (pointer : Pointer) : Option Int × Option (List UInt8) :=
  (some pointer.1, some (hashBytes pointer.2))

theorem fixedHash_ok {value : List UInt8} {label : String} {hash : BitVec 256}
    (h : fixedHash value label = .ok hash) : hashBytes hash = value := by
  unfold fixedHash at h
  split at h
  case isTrue hlength =>
    obtain rfl := Except.ok.inj h
    exact hashBytes_hashOfBytes hlength
  case isFalse => cases h

theorem nonnegative_ok {value : Int} {label : String} {number : Nat}
    (h : nonnegative value label = .ok number) : (number : Int) = value := by
  unfold nonnegative at h
  split at h
  case isTrue hle =>
    obtain rfl := Except.ok.inj h
    exact Int.toNat_of_nonneg hle
  case isFalse => cases h

/-- INTERNAL: the columns of a row are those of the pointer that is read from it. -/
theorem currentPointer_ok {row : RepositoryRow} {current : Option Pointer}
    (h : currentPointer row = .ok current) :
    (row.activeGeneration, row.activeCommitHash) = current.elim (none, none) pointerColumns := by
  obtain ⟨generation, commit, updated⟩ := row
  cases generation with
  | none =>
    cases commit with
    | none =>
      obtain rfl := Except.ok.inj h
      rfl
    | some commit => cases h
  | some generation =>
    cases commit with
    | none => cases h
    | some commit =>
      obtain ⟨number, hnumber, h⟩ := except_bind_ok.mp h
      obtain ⟨hash, hhash, h⟩ := except_bind_ok.mp h
      obtain rfl := Except.ok.inj h
      change (some generation, some commit) = (some (number : Int), some (hashBytes hash))
      rw [nonnegative_ok hnumber, fixedHash_ok hhash]

theorem engine_bind_ok {β : Type} {failing : Option EngineCall} {call : EngineCall}
    {f : Unit → Except MirageError β} {b : β} (h : (engine failing call >>= f) = .ok b) :
    f () = .ok b :=
  (ensure_bind_ok.mp h).2

/-- INTERNAL: a switch that returns found the pointer it expected and stored its target. -/
theorem activate_ok {db switched : GenerationDb} {activation : Activation}
    {failing : Option EngineCall} (h : activate db activation failing = .ok switched) :
    pointerOf db activation.repositoryId =
        some (activation.expectedCurrent.elim (none, none) pointerColumns) ∧
      ∀ repository, pointerOf switched repository =
        if repository = activation.repositoryId then
          some (pointerColumns (activation.targetGeneration, activation.targetCommitHash))
        else pointerOf db repository := by
  unfold activate at h
  obtain ⟨target, htarget, h⟩ := except_bind_ok.mp h
  have h := engine_bind_ok (engine_bind_ok h)
  obtain ⟨row, hrow, h⟩ := someOr_bind_ok.mp h
  obtain ⟨current, hcurrent, h⟩ := except_bind_ok.mp h
  obtain ⟨hexpected, h⟩ := ensure_bind_ok.mp h
  have h := engine_bind_ok h
  obtain ⟨targetRow, -, h⟩ := someOr_bind_ok.mp h
  obtain ⟨-, h⟩ := ensure_bind_ok.mp h
  have h := engine_bind_ok (engine_bind_ok h)
  obtain rfl := Except.ok.inj h
  have htarget : target = activation.targetGeneration := by
    unfold sqliteInteger at htarget
    split at htarget
    · exact (Except.ok.inj htarget).symm
    · cases htarget
  constructor
  · unfold pointerOf
    rw [hrow, Option.map_some, currentPointer_ok hcurrent, hexpected]
  · intro repository
    unfold pointerOf
    rw [Table.get_set]
    by_cases hr : repository = activation.repositoryId
    · rw [if_pos hr, if_pos hr, htarget]
      rfl
    · rw [if_neg hr, if_neg hr]

/-! ## Histories of switches -/

/-- INTERNAL: requests one after another, and those that were granted.  A request that fails is
rolled back. -/
def switches : GenerationDb → List (Activation × Option EngineCall) →
    GenerationDb × List Activation
  | db, [] => (db, [])
  | db, (activation, failing) :: rest =>
    match activate db activation failing with
    | .error _ => switches db rest
    | .ok switched => ((switches switched rest).1, activation :: (switches switched rest).2)

/-- INTERNAL: each switch expects the pointer that the one before it stored. -/
def Chained : Option (Option Int × Option (List UInt8)) → List Activation →
    Option (Option Int × Option (List UInt8)) → Prop
  | start, [], last => start = last
  | start, activation :: rest, last =>
    start = some (activation.expectedCurrent.elim (none, none) pointerColumns) ∧
      Chained (some (pointerColumns (activation.targetGeneration, activation.targetCommitHash)))
        rest last

/-- INTERNAL: the granted switches of a repository lead, without a gap, from the pointer at the
start to the pointer at the end.
SRCLINE: mirage-engine/src/update/activate.rs:38-60, mirage-db/src/generation.rs:221-297 -/
theorem switches_chained (db : GenerationDb) (requests : List (Activation × Option EngineCall))
    (repository : RepositoryId) :
    Chained (pointerOf db repository)
      ((switches db requests).2.filter fun activation => activation.repositoryId = repository)
      (pointerOf (switches db requests).1 repository) := by
  induction requests generalizing db with
  | nil => rfl
  | cons request rest ih =>
    unfold switches
    cases hswitch : activate db request.1 request.2 with
    | error e => exact ih db
    | ok switched =>
      obtain ⟨hbefore, hafter⟩ := activate_ok hswitch
      have hrest := ih switched
      rw [hafter repository] at hrest
      by_cases hr : repository = request.1.repositoryId
      · subst hr
        rw [if_pos rfl] at hrest
        simpa using ⟨hbefore, hrest⟩
      · rw [if_neg hr] at hrest
        simpa [Ne.symm hr] using hrest

/-! ## The activation -/

/-- INTERNAL: the switch back to the generation that was active does not fail. -/
def SwitchesBack (db : GenerationDb) (plan : ActivationPlan) (outcomes : Outcomes) : Prop :=
  ∀ old switched,
    active db plan.repository outcomes.loadFails = .ok (some old) →
    switch db plan.repository (plan.generation, plan.commit) (some old) plan.timestampNs
      outcomes.switching = .ok switched →
    ∃ restored, switch switched plan.repository old (some (plan.generation, plan.commit))
      plan.timestampNs outcomes.switchingBack = .ok restored

/-- INTERNAL: a switch and the switch back leave every pointer as it was. -/
theorem switch_back {db switched restored : GenerationDb} {repository : RepositoryId}
    {target old : Pointer} {timestampNs : Int} {first second : Option EngineCall}
    (hthere : switch db repository target (some old) timestampNs first = .ok switched)
    (hback : switch switched repository old (some target) timestampNs second = .ok restored)
    (r : RepositoryId) : pointerOf restored r = pointerOf db r := by
  obtain ⟨hbefore, hswitched⟩ := activate_ok hthere
  obtain ⟨-, hrestored⟩ := activate_ok hback
  rw [hrestored r, hswitched r]
  by_cases hr : r = repository
  · rw [if_pos hr, hr]
    exact hbefore.symm
  · rw [if_neg hr, if_neg hr]

/-- INTERNAL: an activation that fails leaves every pointer as it was, and one that returns moves
its own to the plan's generation and commit. -/
def AllOrNothing (db : GenerationDb) (plan : ActivationPlan) (outcomes : Outcomes) : Prop :=
  (∀ e, (activateGeneration db plan outcomes).1 = .error e →
    ∀ r, pointerOf (activateGeneration db plan outcomes).2 r = pointerOf db r) ∧
  (∀ report, (activateGeneration db plan outcomes).1 = .ok report →
    report.active = (plan.generation, plan.commit) ∧
    ∀ r, pointerOf (activateGeneration db plan outcomes).2 r =
      if r = plan.repository then some (pointerColumns (plan.generation, plan.commit))
      else pointerOf db r)

/-- INTERNAL: the mount fails behind the switch of a first activation, for which there is no way
back. -/
structure FirstMountFails (db : GenerationDb) (plan : ActivationPlan) (outcomes : Outcomes) :
    Prop where
  first : active db plan.repository outcomes.loadFails = .ok none
  quiesced : outcomes.quiesce = .ok ()
  switched : ∃ switched, switch db plan.repository (plan.generation, plan.commit) none
    plan.timestampNs outcomes.switching = .ok switched
  mount : outcomes.mountAndSmokeTest ≠ .ok ()

/-- INTERNAL: the failed first activation leaves the pointer of its repository moved. -/
theorem not_allOrNothing {db : GenerationDb} {plan : ActivationPlan} {outcomes : Outcomes}
    (h : FirstMountFails db plan outcomes) : ¬ AllOrNothing db plan outcomes := by
  rintro ⟨hfailed, -⟩
  obtain ⟨switched, hswitch⟩ := h.switched
  obtain ⟨hbefore, hswitched⟩ := activate_ok hswitch
  cases hmount : outcomes.mountAndSmokeTest with
  | ok => exact h.mount hmount
  | error e =>
    have hrun : activateGeneration db plan outcomes = (.error e, switched) := by
      unfold activateGeneration
      rw [h.first]
      dsimp only
      rw [h.quiesced]
      dsimp only
      rw [hswitch, hmount]
    have hsame := hfailed e (congrArg Prod.fst hrun) plan.repository
    rw [hrun] at hsame
    have hmoved := (hswitched plan.repository).trans (if_pos rfl)
    cases hmoved.symm.trans (hsame.trans hbefore)

/-- INTERNAL: where the switch back does not fail, an activation is all or nothing exactly if it
is not a first one whose mount fails behind its switch.
SRCLINE: mirage-engine/src/update/activate.rs:38-60 -/
theorem activation_all_or_nothing (db : GenerationDb) (plan : ActivationPlan)
    (outcomes : Outcomes) (hback : SwitchesBack db plan outcomes) :
    AllOrNothing db plan outcomes ↔ ¬ FirstMountFails db plan outcomes := by
  refine ⟨fun h hfirst => not_allOrNothing hfirst h, fun hwhen => ?_⟩
  unfold AllOrNothing activateGeneration
  cases hactive : active db plan.repository outcomes.loadFails with
  | error e => exact ⟨fun _ _ _ => rfl, nofun⟩
  | ok previous =>
    cases hquiesce : outcomes.quiesce with
    | error e => exact ⟨fun _ _ _ => rfl, nofun⟩
    | ok =>
      dsimp only
      cases hswitch : switch db plan.repository (plan.generation, plan.commit) previous
        plan.timestampNs outcomes.switching with
      | error e => exact ⟨fun _ _ _ => rfl, nofun⟩
      | ok switched =>
        obtain ⟨hbefore, hswitched⟩ := activate_ok hswitch
        cases hmount : outcomes.mountAndSmokeTest with
        | ok =>
          refine ⟨nofun, ?_⟩
          rintro report h
          obtain rfl := Except.ok.inj h
          exact ⟨rfl, hswitched⟩
        | error mountError =>
          cases previous with
          | none =>
            exact absurd ⟨hactive, hquiesce, ⟨switched, hswitch⟩, fun hok => by cases hmount ▸ hok⟩
              hwhen
          | some old =>
            obtain ⟨restored, hrestored⟩ := hback old switched hactive hswitch
            dsimp only
            rw [hrestored]
            exact ⟨fun _ _ => switch_back hswitch hrestored, nofun⟩

/-- INTERNAL: a repository with two verified generations. -/
def twoGenerations (row : RepositoryRow) : GenerationDb :=
  ⟨⟨[(1, row)]⟩,
    ⟨[((1, 1), ⟨hashBytes 1, hashBytes 1, "m", none, 1⟩),
      ((1, 2), ⟨hashBytes 2, hashBytes 2, "m", none, 1⟩)]⟩⟩

/-- INTERNAL: the mount of the planned generation fails. -/
def mountFails : Outcomes := ⟨false, .ok (), none, .error (.io "mount failed"), none⟩

/-- INTERNAL: a second activation whose mount fails is undone, and a first one whose quiesce fails
changes nothing. -/
theorem second_activation_rolled_back :
    let db := twoGenerations ⟨some 1, some (hashBytes 1), 0⟩
    ((activateGeneration db ⟨1, 2, 2, 5⟩ mountFails).1 = .error (.io "mount failed") ∧
      AllOrNothing db ⟨1, 2, 2, 5⟩ mountFails) ∧
    AllOrNothing (twoGenerations ⟨none, none, 0⟩) ⟨1, 2, 2, 5⟩
      { mountFails with quiesce := .error (.io "busy") } := by
  intro db
  refine ⟨⟨by decide +kernel, (activation_all_or_nothing db ⟨1, 2, 2, 5⟩ mountFails ?_).mpr ?_⟩,
    (activation_all_or_nothing _ _ _ ?_).mpr fun h => absurd h.quiesced nofun⟩
  · intro old switched hold hswitch
    have hactive : active db 1 false = .ok (some (1, 1)) := by decide +kernel
    obtain rfl := Option.some.inj (Except.ok.inj (hold.symm.trans hactive))
    have hthere : switch db 1 (2, 2) (some (1, 1)) 5 none =
        .ok (twoGenerations ⟨some 2, some (hashBytes 2), 5⟩) := by
      decide +kernel
    obtain rfl := Except.ok.inj (hswitch.symm.trans hthere)
    exact ⟨twoGenerations ⟨some 1, some (hashBytes 1), 5⟩, by decide +kernel⟩
  · exact fun h => absurd h.first (by decide +kernel)
  · intro old switched hold
    have hactive : active (twoGenerations ⟨none, none, 0⟩) 1 false = .ok none := by decide +kernel
    cases hold.symm.trans hactive

/-- INTERNAL: the first activation of a repository fails and its pointer has moved. -/
theorem first_activation_stays :
    let db := twoGenerations ⟨none, none, 0⟩
    pointerOf db 1 = some (none, none) ∧
      (activateGeneration db ⟨1, 2, 2, 5⟩ mountFails).1 = .error (.io "mount failed") ∧
      pointerOf (activateGeneration db ⟨1, 2, 2, 5⟩ mountFails).2 1 =
        some (some 2, some (hashBytes 2)) := by
  decide +kernel

end Mirage.Analysis
