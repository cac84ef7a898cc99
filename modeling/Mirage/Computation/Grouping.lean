import Mathlib.Data.List.Chain
import Mathlib.Data.List.Sort
import Mirage.Computation.Checks

/-!
# Greedy grouping

A greedy loop over a list keeps the groups made so far and looks only at the last one: an element
that passes its check joins it, or starts a group of its own.  `Gathered` says how a group came
about from a part of the list.  When the loop returns, the parts of its groups in order are the
list, and the first element of each part was not taken by the group before.
-/

set_option autoImplicit false

namespace Mirage.Computation

variable {ε α γ : Type} (check : α → Except ε Unit) (join : γ → α → Except ε (Option γ))
  (start : α → Except ε γ)

/-- INTERNAL: the loop; the groups so far are given newest first. -/
def gather : List γ → List α → Except ε (List γ)
  | groups, [] => .ok groups.reverse
  | [], a :: rest => do
    check a
    let g ← start a
    gather [g] rest
  | last :: groups, a :: rest => do
    check a
    match ← join last a with
    | some g => gather (g :: groups) rest
    | none =>
      let g ← start a
      gather (g :: last :: groups) rest

/-- INTERNAL: the group was made of these elements. -/
inductive Gathered : γ → List α → Prop where
  | start {a : α} {g : γ} (hcheck : check a = .ok ()) (hstart : start a = .ok g) : Gathered g [a]
  | join {g g' : γ} {part : List α} {a : α} (before : Gathered g part) (hcheck : check a = .ok ())
      (hjoin : join g a = .ok (some g')) : Gathered g' (part ++ [a])

/-- INTERNAL: the group did not take the first element of the next part. -/
def Refused (x y : γ × List α) : Prop := ∃ a rest, y.2 = a :: rest ∧ join x.1 a = .ok none

/-- INTERNAL: groups with their parts, in the order of the list. -/
structure Gathering (groups : List (γ × List α)) (l : List α) : Prop where
  parts : groups.flatMap Prod.snd = l
  made : ∀ x ∈ groups, Gathered check join start x.1 x.2
  refused : groups.IsChain (Refused join)

variable {check join start}

variable {g : γ} {groups : List (γ × List α)} {l : List α}

theorem Gathered.checked {part : List α} (h : Gathered check join start g part) :
    ∀ a ∈ part, check a = .ok () := by
  induction h with
  | start hcheck _ => exact List.forall_mem_singleton.mpr hcheck
  | join _ hcheck _ ih =>
    intro b hb
    rcases List.mem_append.mp hb with hb | hb
    · exact ih b hb
    · rw [List.mem_singleton.mp hb]
      exact hcheck

theorem gathering_nil : Gathering check join start [] [] :=
  ⟨rfl, fun _ hx => absurd hx List.not_mem_nil, .nil⟩

/-- INTERNAL: a group more. -/
theorem Gathering.snoc {a : α} (h : Gathering check join start groups l)
    (hcheck : check a = .ok ()) (hstart : start a = .ok g)
    (hlast : ∀ x ∈ groups.getLast?, join x.1 a = .ok none) :
    Gathering check join start (groups ++ [(g, [a])]) (l ++ [a]) where
  parts := by
    rw [List.flatMap_append, h.parts]
    rfl
  made x hx := by
    rcases List.mem_append.mp hx with hx | hx
    · exact h.made x hx
    · rw [List.mem_singleton.mp hx]
      exact .start hcheck hstart
  refused := by
    refine List.isChain_append.mpr ⟨h.refused, .singleton _, fun x hx y hy => ?_⟩
    obtain rfl := Option.some.inj hy
    exact ⟨a, [], rfl, hlast x hx⟩

/-- INTERNAL: an element more in the last group. -/
theorem Gathering.extend {part : List α} {a : α} {g' : γ}
    (h : Gathering check join start (groups ++ [(g, part)]) l) (hcheck : check a = .ok ())
    (hjoin : join g a = .ok (some g')) :
    Gathering check join start (groups ++ [(g', part ++ [a])]) (l ++ [a]) where
  parts := by
    rw [← h.parts, List.flatMap_append, List.flatMap_append, List.flatMap_singleton,
      List.flatMap_singleton, List.append_assoc]
  made x hx := by
    rcases List.mem_append.mp hx with hx | hx
    · exact h.made x (List.mem_append_left _ hx)
    · rw [List.mem_singleton.mp hx]
      exact .join (h.made _ (List.mem_append_right _ List.mem_cons_self)) hcheck hjoin
  refused := by
    obtain ⟨hfront, -, hnext⟩ := List.isChain_append.mp h.refused
    refine List.isChain_append.mpr ⟨hfront, .singleton _, fun x hx y hy => ?_⟩
    obtain rfl := Option.some.inj hy
    obtain ⟨b, rest, hpart, hrefused⟩ := hnext x hx _ rfl
    refine ⟨b, rest ++ [a], ?_, hrefused⟩
    change part ++ [a] = _
    rw [show part = b :: rest from hpart, List.cons_append]

/-- INTERNAL: the loop from any groups on. -/
theorem gather_from {before : List α} {result : List γ}
    (h : gather check join start (groups.map Prod.fst).reverse l = .ok result)
    (hbefore : Gathering check join start groups before) :
    ∃ all, result = all.map Prod.fst ∧ Gathering check join start all (before ++ l) := by
  induction l generalizing groups before with
  | nil =>
    rw [gather] at h
    refine ⟨groups, ?_, by rw [List.append_nil]; exact hbefore⟩
    rw [← Except.ok.inj h, List.reverse_reverse]
  | cons a rest ih =>
    rw [List.append_cons]
    cases groups using List.reverseRecOn with
    | nil =>
      obtain ⟨hcheck, h⟩ := check_bind_ok.mp h
      obtain ⟨g, hstart, h⟩ := except_bind_ok.mp h
      exact @ih [(g, [a])] _ h (hbefore.snoc hcheck hstart nofun)
    | append_singleton groups last =>
      rw [List.map_append, List.reverse_append] at h
      obtain ⟨hcheck, h⟩ := check_bind_ok.mp h
      obtain ⟨joined, hjoin, h⟩ := except_bind_ok.mp h
      cases joined with
      | some g =>
        refine @ih (groups ++ [(g, last.2 ++ [a])]) _ ?_ (hbefore.extend hcheck hjoin)
        rw [List.map_append, List.reverse_append]
        exact h
      | none =>
        obtain ⟨g, hstart, h⟩ := except_bind_ok.mp h
        refine @ih (groups ++ [last] ++ [(g, [a])]) _ ?_ (hbefore.snoc hcheck hstart ?_)
        · rw [List.map_append, List.reverse_append, List.map_append, List.reverse_append]
          exact h
        · intro x hx
          rw [List.getLast?_append] at hx
          obtain rfl := Option.some.inj hx
          exact hjoin

/-- INTERNAL: what a loop that returns has made. -/
theorem gather_ok {result : List γ} (h : gather check join start [] l = .ok result) :
    ∃ groups, result = groups.map Prod.fst ∧ Gathering check join start groups l :=
  @gather_from _ _ _ _ _ _ [] _ _ _ h gathering_nil

/-- INTERNAL: the loop returns when every round does; `I` holds of the last group and of the
elements that are left. -/
theorem gather_returns (I : Option γ → List α → Prop) {groups : List γ} (h : I groups.head? l)
    (hstep : ∀ last a rest, I last (a :: rest) → check a = .ok () ∧
      (∃ g, start a = .ok g ∧ I (some g) rest) ∧
      ∀ g, last = some g → ∃ joined, join g a = .ok joined ∧ ∀ g' ∈ joined, I (some g') rest) :
    ∃ result, gather check join start groups l = .ok result := by
  induction l generalizing groups with
  | nil => exact ⟨groups.reverse, by rw [gather]⟩
  | cons a rest ih =>
    obtain ⟨hcheck, ⟨g, hstart, hI⟩, hjoins⟩ := hstep _ _ _ h
    cases groups with
    | nil =>
      rw [gather, ok_bind hcheck, ok_bind hstart]
      exact ih hI
    | cons last groups =>
      obtain ⟨joined, hjoin, hnext⟩ := hjoins last rfl
      rw [gather, ok_bind hcheck, ok_bind hjoin]
      cases joined with
      | some g' => exact ih (hnext g' rfl)
      | none =>
        rw [ok_bind hstart]
        exact ih hI

end Mirage.Computation
