import Mathlib.Data.List.Basic
import Mathlib.Data.Nat.Digits.Defs
import Mirage.Computation.Transaction

/-!
# Fields of a record at fixed offsets

A record is the concatenation of its fields, and a reader takes a field by its offset and
length.  `slice_field` is the rule the readers of fixed layouts are verified with: the
offset of a field is the sum of the lengths before it.
-/

set_option autoImplicit false

namespace Mirage.Computation

variable {α : Type}

/-- INTERNAL: `length` elements from a position on. -/
def slice (l : List α) (start length : Nat) : List α := (l.drop start).take length

variable {a b field l : List α} {length start : Nat} {fields : List (List α)}

theorem length_slice (h : start + length ≤ l.length) : (slice l start length).length = length := by
  unfold slice
  rw [List.length_take, List.length_drop]
  omega

theorem slice_append_right (h : a.length ≤ start) :
    slice (a ++ b) start length = slice b (start - a.length) length := by
  unfold slice
  rw [List.drop_append, List.drop_eq_nil_of_le h, List.nil_append]

theorem slice_append_left (h : start + length ≤ a.length) :
    slice (a ++ b) start length = slice a start length := by
  unfold slice
  rw [List.drop_append_of_le_length (by omega), List.take_append_of_le_length]
  rw [List.length_drop]
  omega

/-- INTERNAL: a part of a part. -/
theorem slice_slice {first count : Nat} (h : first + count ≤ length) :
    slice (slice l start length) first count = slice l (start + first) count := by
  unfold slice
  rw [List.drop_take, List.drop_drop, List.take_take, Nat.min_eq_left (by omega)]

theorem slice_take {n : Nat} (h : start + length ≤ n) :
    slice (l.take n) start length = slice l start length := by
  unfold slice
  rw [List.drop_take, List.take_take, Nat.min_eq_left (by omega)]

theorem take_slice {n : Nat} (h : n ≤ length) :
    (slice l start length).take n = slice l start n := by
  unfold slice
  rw [List.take_take, Nat.min_eq_left h]

theorem drop_slice (l : List α) (start length n : Nat) :
    (slice l start length).drop n = slice l (start + n) (length - n) := by
  unfold slice
  rw [List.drop_take, List.drop_drop]

/-- INTERNAL: what stands between two parts. -/
theorem slice_middle {c : List α} (hstart : a.length = start) (hlength : b.length = length) :
    slice (a ++ (b ++ c)) start length = b := by
  subst hstart hlength
  unfold slice
  rw [List.drop_left, List.take_left]

/-- INTERNAL: a record cut at its field of number `k`. -/
theorem flatten_split {k : Nat} (hfield : fields[k]? = some field) :
    fields.flatten = (fields.take k).flatten ++ (field ++ (fields.drop (k + 1)).flatten) := by
  obtain ⟨hk, hget⟩ := List.getElem?_eq_some_iff.mp hfield
  rw [← hget, ← List.flatten_cons, List.getElem_cons_drop, ← List.flatten_append,
    List.take_append_drop]

/-- INTERNAL: the field of number `k` stands behind the fields before it. -/
theorem slice_field (k : Nat) (hfield : fields[k]? = some field)
    (hstart : ((fields.take k).map List.length).sum = start) (hlength : field.length = length) :
    slice fields.flatten start length = field := by
  rw [flatten_split hfield]
  refine slice_middle ?_ hlength
  rw [List.length_flatten]
  exact hstart

theorem field_end_le (k : Nat) (hfield : fields[k]? = some field)
    (hstart : ((fields.take k).map List.length).sum = start) (hlength : field.length = length) :
    start + length ≤ fields.flatten.length := by
  rw [flatten_split hfield, List.length_append, List.length_append, List.length_flatten, hstart,
    hlength]
  omega

/-- INTERNAL: the first `k` fields. -/
theorem take_fields (k : Nat) (hlength : ((fields.take k).map List.length).sum = length) :
    fields.flatten.take length = (fields.take k).flatten := by
  have hsplit : fields.flatten = (fields.take k).flatten ++ (fields.drop k).flatten := by
    rw [← List.flatten_append, List.take_append_drop]
  rw [hsplit]
  refine List.take_left' ?_
  rw [List.length_flatten]
  exact hlength

/-- INTERNAL: the fields behind the first `k`. -/
theorem drop_fields (k : Nat) (hlength : ((fields.take k).map List.length).sum = length) :
    fields.flatten.drop length = (fields.drop k).flatten := by
  have hsplit : fields.flatten = (fields.take k).flatten ++ (fields.drop k).flatten := by
    rw [← List.flatten_append, List.take_append_drop]
  rw [hsplit]
  refine List.drop_left' ?_
  rw [List.length_flatten]
  exact hlength

/-! ## Parts of one width -/

section Parts

variable {β : Type} {f : β → List α} {width : Nat}

theorem length_flatMap_parts (hwidth : ∀ b, (f b).length = width) (l : List β) :
    (l.flatMap f).length = width * l.length := by
  induction l with
  | nil => rfl
  | cons b rest ih =>
    rw [List.flatMap_cons, List.length_append, hwidth, ih, List.length_cons, Nat.mul_succ,
      Nat.add_comm]

/-- INTERNAL: as many parts of one width have one split. -/
theorem flatMap_parts_inj (hwidth : ∀ b, (f b).length = width) (hinj : Function.Injective f)
    {l l' : List β} (hlength : l.length = l'.length) (h : l.flatMap f = l'.flatMap f) :
    l = l' := by
  induction l generalizing l' with
  | nil => exact (List.length_eq_zero_iff.mp hlength.symm).symm
  | cons b rest ih =>
    cases l' with
    | nil => cases hlength
    | cons b' rest' =>
      rw [List.flatMap_cons, List.flatMap_cons] at h
      obtain ⟨hhead, htail⟩ := List.append_inj h (by rw [hwidth, hwidth])
      rw [hinj hhead, ih (Nat.succ.inj hlength) htail]

end Parts

end Mirage.Computation

/-!
## Readers over a list of tokens

A reader is a transaction on the tokens that are left.  `Decodes t tokens a` says that the
reader takes exactly `tokens` off the front, whatever follows, and returns `a`.
-/

namespace Mirage.Computation

open Txn

variable {τ ε α β : Type}

/-- INTERNAL: the reader takes these tokens off the front and returns `a`. -/
def Decodes (t : Txn (List τ) ε α) (tokens : List τ) (a : α) : Prop :=
  ∀ rest, t (tokens ++ rest) = .ok (a, rest)

theorem reads_pure (a : α) : Decodes (pure a : Txn (List τ) ε α) [] a := fun _ => rfl

variable {f : α → Txn (List τ) ε β} {a : α} {input rest tokens : List τ} {e : ε}
  {read s t : Txn (List τ) ε α}

theorem reads_bind {x : Txn (List τ) ε α} {first second : List τ} {b : β} (hx : Decodes x first a)
    (hf : Decodes (f a) second b) : Decodes (x >>= f) (first ++ second) b := by
  intro rest
  rw [List.append_assoc]
  exact bind_ok.mpr ⟨a, second ++ rest, hx _, hf rest⟩

/-- INTERNAL: a last step that reads nothing. -/
theorem reads_bind_pure {x : Txn (List τ) ε α} {b : β} (hx : Decodes x tokens a)
    (hf : f a = pure b) : Decodes (x >>= f) tokens b := by
  intro rest
  refine bind_ok.mpr ⟨a, rest, hx _, ?_⟩
  rw [hf]
  rfl

theorem reads_demand_bind {c : Bool} {f : Unit → Txn (List τ) ε α} (hc : c = true)
    (hf : Decodes (f ()) tokens a) : Decodes (demand c e >>= f) tokens a :=
  fun rest => demand_bind_ok.mpr ⟨hc, hf rest⟩

/-- INTERNAL: take a number of tokens, or fail. -/
def takeTokens (length : Nat) (e : ε) : Txn (List τ) ε (List τ) := do
  let tokens ← get
  demand (length ≤ tokens.length) e
  modify fun tokens => tokens.drop length
  pure (tokens.take length)

theorem reads_takeTokens {length : Nat} (h : tokens.length = length) :
    Decodes (takeTokens length e) tokens tokens := by
  intro rest
  subst h
  unfold takeTokens
  rw [get_bind]
  refine demand_bind_ok.mpr ⟨?_, ?_⟩
  · rw [decide_eq_true_eq, List.length_append]
    exact Nat.le_add_right _ _
  · refine bind_ok.mpr ⟨(), rest, ?_, ?_⟩
    · rw [modify_ok, List.drop_left]
    · rw [pure_ok, List.take_left]

/-! ## What was read is what is written -/

/-- INTERNAL: what the reader took off the front is what the writer writes for its result. -/
def Undoes (t : Txn (List τ) ε α) (write : α → List τ) : Prop :=
  ∀ input a rest, t input = .ok (a, rest) → input = write a ++ rest

/-- INTERNAL: the tokens that were taken. -/
theorem takeTokens_ok {length : Nat} (h : takeTokens length e input = .ok (tokens, rest)) :
    tokens.length = length ∧ input = tokens ++ rest := by
  unfold takeTokens at h
  rw [get_bind] at h
  obtain ⟨henough, h⟩ := demand_bind_ok.mp h
  rw [decide_eq_true_eq] at henough
  obtain ⟨⟨⟩, left, hleft, h⟩ := bind_ok.mp h
  obtain ⟨-, rfl⟩ := Prod.mk.inj (modify_ok.mp hleft)
  obtain ⟨rfl, rfl⟩ := Prod.mk.inj (pure_ok.mp h)
  exact ⟨List.length_take_of_le henough, (List.take_append_drop length input).symm⟩

theorem takeTokens_bind_ok {length : Nat} {value : List τ → α} {a : α}
    (h : (takeTokens length e >>= fun tokens => pure (value tokens) : Txn (List τ) ε α) input =
      .ok (a, rest)) : ∃ tokens, tokens.length = length ∧ input = tokens ++ rest ∧
        value tokens = a := by
  obtain ⟨tokens, left, htokens, h⟩ := bind_ok.mp h
  obtain ⟨rfl, rfl⟩ := Prod.mk.inj (pure_ok.mp h)
  obtain ⟨hlength, hinput⟩ := takeTokens_ok htokens
  exact ⟨tokens, hlength, hinput, rfl⟩

/-- INTERNAL: a field of a fixed length. -/
theorem undoes_takeTokens {length : Nat} {value : List τ → α} {write : α → List τ}
    (h : ∀ tokens, tokens.length = length → write (value tokens) = tokens) :
    Undoes (takeTokens length e >>= fun tokens => pure (value tokens) : Txn (List τ) ε α)
      write := by
  intro input a rest hread
  obtain ⟨tokens, hlength, rfl, rfl⟩ := takeTokens_bind_ok hread
  rw [h tokens hlength]

/-- INTERNAL: a counted sequence, where the writer of an element undoes its reader. -/
def readMany (read : Txn (List τ) ε α) : Nat → Txn (List τ) ε (List α)
  | 0 => pure []
  | count + 1 => do
    let a ← read
    let rest ← readMany read count
    pure (a :: rest)

theorem undoes_readMany {write : α → List τ} (h : Undoes read write) (count : Nat) :
    Undoes (readMany read count) fun as => as.flatMap write := by
  intro input as rest hread
  induction count generalizing input as with
  | zero =>
    obtain ⟨rfl, rfl⟩ := Prod.mk.inj (pure_ok.mp hread)
    rfl
  | succ count ih =>
    obtain ⟨a, middle, ha, hread⟩ := bind_ok.mp hread
    obtain ⟨tail, last, htail, hread⟩ := bind_ok.mp hread
    obtain ⟨rfl, rfl⟩ := Prod.mk.inj (pure_ok.mp hread)
    rw [h input a middle ha, ih middle tail htail]
    dsimp only
    rw [List.flatMap_cons, List.append_assoc]

theorem length_readMany {count : Nat} {as : List α}
    (h : readMany read count input = .ok (as, rest)) : as.length = count := by
  induction count generalizing input as with
  | zero =>
    obtain ⟨rfl, -⟩ := Prod.mk.inj (pure_ok.mp h)
    rfl
  | succ count ih =>
    obtain ⟨a, middle, -, h⟩ := bind_ok.mp h
    obtain ⟨tail, last, htail, h⟩ := bind_ok.mp h
    obtain ⟨rfl, rfl⟩ := Prod.mk.inj (pure_ok.mp h)
    rw [List.length_cons, ih htail]

/-- INTERNAL: what holds of every element that is read. -/
theorem forall_readMany {P : α → Prop} {count : Nat}
    (hread : ∀ input a rest, read input = .ok (a, rest) → P a) {as : List α}
    (h : readMany read count input = .ok (as, rest)) : ∀ a ∈ as, P a := by
  induction count generalizing input as with
  | zero =>
    obtain ⟨rfl, -⟩ := Prod.mk.inj (pure_ok.mp h)
    exact fun a ha => (by cases ha)
  | succ count ih =>
    obtain ⟨a, middle, ha, h⟩ := bind_ok.mp h
    obtain ⟨tail, last, htail, h⟩ := bind_ok.mp h
    obtain ⟨rfl, rfl⟩ := Prod.mk.inj (pure_ok.mp h)
    exact List.forall_mem_cons.mpr ⟨hread input a middle ha, ih htail⟩

/-! ## Readers that accept less -/

/-- INTERNAL: whatever the first reader accepts the second reads in the same way. -/
def Narrows (s t : Txn (List τ) ε α) : Prop := ∀ input r, s input = .ok r → t input = .ok r

theorem Narrows.bind {g : α → Txn (List τ) ε β} (h : Narrows s t) (hf : ∀ a, Narrows (f a) (g a)) :
    Narrows (s >>= f) (t >>= g) := by
  intro input r hr
  obtain ⟨a, middle, ha, hr⟩ := bind_ok.mp hr
  exact bind_ok.mpr ⟨a, middle, h input _ ha, hf a middle r hr⟩

theorem narrows_refl (t : Txn (List τ) ε α) : Narrows t t := fun _ _ h => h

theorem narrows_readMany (h : Narrows s t) (count : Nat) :
    Narrows (readMany s count) (readMany t count) := by
  induction count with
  | zero => exact narrows_refl _
  | succ count ih => exact h.bind fun a => ih.bind fun rest => narrows_refl _

/-- INTERNAL: what the second reader takes is as long as what the writer writes, and where it is
just that the first reader accepts it too. -/
def AcceptsWritten (s t : Txn (List τ) ε α) (write : α → List τ) : Prop :=
  ∀ input a rest, t input = .ok (a, rest) → ∃ taken, input = taken ++ rest ∧
    taken.length = (write a).length ∧ (taken = write a → s input = .ok (a, rest))

theorem acceptsWritten_readMany {write : α → List τ} (h : AcceptsWritten s t write) (count : Nat) :
    AcceptsWritten (readMany s count) (readMany t count) fun as => as.flatMap write := by
  intro input as rest hread
  induction count generalizing input as with
  | zero =>
    obtain ⟨rfl, rfl⟩ := Prod.mk.inj (pure_ok.mp hread)
    exact ⟨[], rfl, rfl, fun _ => hread⟩
  | succ count ih =>
    obtain ⟨a, middle, ha, hread⟩ := bind_ok.mp hread
    obtain ⟨tail, last, htail, hread⟩ := bind_ok.mp hread
    obtain ⟨rfl, rfl⟩ := Prod.mk.inj (pure_ok.mp hread)
    obtain ⟨taken, rfl, hlength, hstrict⟩ := h input a middle ha
    obtain ⟨others, rfl, hlength', hstrict'⟩ := ih middle tail htail
    refine ⟨taken ++ others, (List.append_assoc _ _ _).symm, ?_, fun hwritten => ?_⟩
    · simp only [List.flatMap_cons, List.length_append, hlength, hlength']
    · obtain ⟨hfirst, hrest⟩ := List.append_inj hwritten hlength
      exact bind_ok.mpr ⟨a, _, hstrict hfirst, bind_ok.mpr ⟨tail, _, hstrict' hrest, rfl⟩⟩

/-! ## Numbers -/

theorem ofDigits_range_map {base : Nat} (hbase : 1 < base) (n value : Nat)
    (h : value < base ^ n) :
    Nat.ofDigits base ((List.range n).map fun i => value / base ^ i % base) = value := by
  induction n generalizing value with
  | zero =>
    rw [Nat.pow_zero, Nat.lt_one_iff] at h
    rw [h]
    rfl
  | succ n ih =>
    have hpos : 0 < base := by omega
    have hquotient : value / base < base ^ n := by
      rw [Nat.div_lt_iff_lt_mul hpos, ← Nat.pow_succ]
      exact h
    have hshift : ((fun i => value / base ^ i % base) ∘ Nat.succ) =
        fun i => value / base / base ^ i % base := by
      funext i
      rw [Function.comp_apply, Nat.div_div_eq_div_mul, ← Nat.pow_succ']
    rw [List.range_succ_eq_map, List.map_cons, List.map_map, Nat.ofDigits_cons, hshift,
      ih _ hquotient, Nat.pow_zero, Nat.div_one]
    exact Nat.mod_add_div value base

end Mirage.Computation
