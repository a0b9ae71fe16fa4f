/-!
# Selections

A selection is an increasing list of numbers below a word of 64 bits.  The selections of one size
are met in lexicographic order: the next one raises the last number that has room and puts the
numbers that follow it in a row behind.  Whether a number has room is reckoned in words, so a sum
that is no word ends the program or wraps round.
-/

namespace DefaultLogic

/-- What becomes of a result that is no word. -/
inductive Overflow where
  | panics
  | wraps
  deriving DecidableEq

/-- The word for a result; none when the program panics. -/
def Overflow.word? (o : Overflow) (z : Int) : Option Nat :=
  match o with
  | .panics => if 0 ≤ z ∧ z < UInt64.size then some z.toNat else none
  | .wraps => some (z % UInt64.size).toNat

theorem Overflow.word?_natCast {m : Nat} (o : Overflow) (h : m < UInt64.size) :
    o.word? m = some m := by
  cases o with
  | panics => rw [word?, if_pos (by omega), Int.toNat_natCast]
  | wraps => rw [word?, Int.emod_eq_of_lt (by omega) (by omega), Int.toNat_natCast]

/-- Increasing numbers below `n`. -/
@[ext] structure Selection (n : UInt64) where
  numbers : List Nat
  increasing : numbers.Pairwise (· < ·)
  bounded : ∀ i ∈ numbers, i < n.toNat

namespace Selection

variable {n : UInt64}

def first (k : UInt64) (h : k ≤ n) : Selection n where
  numbers := List.range k.toNat
  increasing := List.pairwise_lt_range
  bounded _ hi := Nat.lt_of_lt_of_le (List.mem_range.1 hi) h

theorem add_length_le {n i : Nat} {is : List Nat} (h : (i :: is).Pairwise (· < ·))
    (hn : ∀ j ∈ i :: is, j < n) : i + (is.length + 1) ≤ n := by
  induction is generalizing i with
  | nil => exact hn i List.mem_cons_self
  | cons j is ih =>
    obtain ⟨hi, his⟩ := List.pairwise_cons.1 h
    have hij := hi j List.mem_cons_self
    have hj := ih his fun k hk => hn k (List.mem_cons_of_mem i hk)
    rw [List.length_cons]
    omega

theorem length_le (s : Selection n) : s.numbers.length ≤ n.toNat := by
  obtain ⟨is, hpairwise, hn⟩ := s
  cases is with
  | nil => exact Nat.zero_le n.toNat
  | cons i is => exact Nat.le_trans (Nat.le_add_left _ i) (add_length_le hpairwise hn)

/-- The largest number for a place when there are `size`: those behind it need larger ones. -/
def most (n : UInt64) (size place : Nat) : Nat := place + n.toNat - size

/-- This number as it is reckoned, the sum first. -/
def most? (o : Overflow) (n : UInt64) (size place : Nat) : Option Nat := do
  let sum ← o.word? (place + n.toNat)
  o.word? (sum - size)

/-- **Only the sum can end the program**, and if it wraps round, so does the difference. -/
theorem most?_eq {o : Overflow} {size place : Nat} (hplace : place < size)
    (hsize : size ≤ n.toNat) :
    most? o n size place =
      if o = .panics ∧ UInt64.size ≤ place + n.toNat then none else some (most n size place) := by
  have hn := n.toNat_lt_size
  unfold most? most
  by_cases hsum : place + n.toNat < UInt64.size
  · have hword : o.word? (place + n.toNat) = some (place + n.toNat) := o.word?_natCast hsum
    rw [if_neg (by omega), hword]
    show o.word? _ = _
    rw [← Int.natCast_sub (by omega)]
    exact o.word?_natCast (by omega)
  · cases o with
    | panics =>
      rw [if_pos ⟨rfl, by omega⟩, Overflow.word?, if_neg (by omega)]
      rfl
    | wraps =>
      rw [if_neg (by simp)]
      show Overflow.word? .wraps _ = _
      simp only [Overflow.word?, UInt64.size] at hn ⊢
      congr 1
      omega

variable {o : Overflow} {s : Selection n} {c i : Nat}

theorem numbers_eq (h : s.numbers[i]? = some c) :
    s.numbers = s.numbers.take i ++ c :: s.numbers.drop (i + 1) := by
  obtain ⟨hi, rfl⟩ := List.getElem?_eq_some_iff.1 h
  conv => lhs; rw [← List.take_append_drop i s.numbers, List.drop_eq_getElem_cons hi]

theorem lt_of_mem_take (h : s.numbers[i]? = some c) {a : Nat} (ha : a ∈ s.numbers.take i) :
    a < c := by
  have hpairwise := s.increasing
  rw [numbers_eq h] at hpairwise
  exact (List.pairwise_append.1 hpairwise).2.2 a ha c List.mem_cons_self

theorem add_le_of_getElem? (h : s.numbers[i]? = some c) : c + (s.numbers.length - i) ≤ n.toNat := by
  have hi := (List.getElem?_eq_some_iff.1 h).1
  have hpairwise := s.increasing
  have hn := s.bounded
  rw [numbers_eq h] at hpairwise hn
  have hle := add_length_le (List.pairwise_append.1 hpairwise).2.1 (List.forall_mem_append.1 hn).2
  rw [List.length_drop] at hle
  omega

def hasRoom? (o : Overflow) (s : Selection n) (p : Nat × Nat) : Option Bool := do
  let m ← most? o n s.numbers.length p.2
  return p.1 ≠ m

/-- The last number that has room, with its place, unless the program panics. -/
def pivot? (o : Overflow) (s : Selection n) : Option (Option (Nat × Nat)) :=
  s.numbers.zipIdx.reverse.findM? (s.hasRoom? o)

/-- Whether the largest number for the last place cannot be reckoned. -/
def Overflows (o : Overflow) (s : Selection n) : Prop :=
  o = .panics ∧ UInt64.size < n.toNat + s.numbers.length

theorem findM?_eq_some_find? {α : Type} {p : α → Option Bool} {q : α → Bool} {as : List α}
    (h : ∀ a ∈ as, p a = some (q a)) : as.findM? p = some (as.find? q) := by
  induction as with
  | nil => rfl
  | cons a as ih =>
    obtain ⟨ha, has⟩ := List.forall_mem_cons.1 h
    rw [List.findM?, ha, List.find?]
    cases q a
    · exact ih has
    · rfl

theorem hasRoom?_eq (h : ¬s.Overflows o) {p : Nat × Nat} (hp : p ∈ s.numbers.zipIdx.reverse) :
    s.hasRoom? o p = some (decide (p.1 ≠ most n s.numbers.length p.2)) := by
  have hplace := (List.getElem?_eq_some_iff.1
    (List.mem_zipIdx_iff_getElem?.1 (List.mem_reverse.1 hp))).1
  have hfits : ¬(o = .panics ∧ UInt64.size ≤ p.2 + n.toNat) := by
    rintro ⟨ho, hsum⟩
    exact h ⟨ho, by omega⟩
  unfold hasRoom?
  rw [most?_eq hplace s.length_le, if_neg hfits]
  rfl

theorem pivot?_eq (h : ¬s.Overflows o) :
    s.pivot? o = some (s.numbers.zipIdx.reverse.find? fun p =>
      p.1 ≠ most n s.numbers.length p.2) :=
  findM?_eq_some_find? fun _ hp => hasRoom?_eq h hp

theorem hasRoom?_eq_none {p : Nat × Nat} (hplace : p.2 < s.numbers.length)
    (hsum : UInt64.size ≤ p.2 + n.toNat) : s.hasRoom? .panics p = none := by
  unfold hasRoom?
  rw [most?_eq hplace s.length_le, if_pos ⟨rfl, hsum⟩]
  rfl

theorem pivot?_of_overflows (h : s.Overflows o) : s.pivot? o = none := by
  obtain ⟨rfl, hsum⟩ := h
  have hn := n.toNat_lt_size
  rcases List.eq_nil_or_concat s.numbers with hnil | ⟨is, c, hconcat⟩
  · have hzero : s.numbers.length = 0 := by rw [hnil, List.length_nil]
    omega
  · rw [List.concat_eq_append] at hconcat
    have hsize : s.numbers.length = is.length + 1 := by rw [hconcat, List.length_append]; rfl
    have hroom : s.hasRoom? .panics (c, is.length) = none :=
      hasRoom?_eq_none (Nat.lt_of_lt_of_eq (Nat.lt_succ_self _) hsize.symm) (by omega)
    have hlast : s.numbers.zipIdx.reverse = (c, is.length) :: is.zipIdx.reverse := by
      rw [hconcat, List.zipIdx_append, List.reverse_append, Nat.zero_add]
      rfl
    rw [pivot?, hlast, List.findM?, hroom]
    rfl

theorem pivot?_eq_none_iff : s.pivot? o = none ↔ s.Overflows o := by
  refine ⟨fun h => Classical.byContradiction fun hfits => ?_, pivot?_of_overflows⟩
  rw [pivot?_eq hfits] at h
  cases h

theorem find?_of_pivot? {p? : Option (Nat × Nat)} (h : s.pivot? o = some p?) :
    (s.numbers.zipIdx.reverse.find? fun p => p.1 ≠ most n s.numbers.length p.2) = p? := by
  have hfits : ¬s.Overflows o := by
    rw [← pivot?_eq_none_iff, h]
    exact Option.some_ne_none p?
  rw [pivot?_eq hfits] at h
  exact Option.some.inj h

theorem of_pivot? (h : s.pivot? o = some (some (c, i))) :
    s.numbers[i]? = some c ∧ c ≠ most n s.numbers.length i := by
  have hfind := find?_of_pivot? h
  have hmem := List.mem_reverse.1 (List.mem_of_find?_eq_some hfind)
  have hc := List.find?_some hfind
  exact ⟨List.mem_zipIdx_iff_getElem?.1 hmem, of_decide_eq_true hc⟩

/-- The numbers before a place and, instead of `c` there, those that follow `c` in a row. -/
def raised (s : Selection n) (c i : Nat) : List Nat :=
  s.numbers.take i ++ List.range' (c + 1) (s.numbers.length - i)

def raise (s : Selection n) (c i : Nat) (h : s.pivot? o = some (some (c, i))) : Selection n where
  numbers := s.raised c i
  increasing := by
    refine List.pairwise_append.2 ⟨s.increasing.take, List.pairwise_lt_range', fun a ha b hb => ?_⟩
    have hlt := lt_of_mem_take (of_pivot? h).1 ha
    have hle := (List.mem_range'_1.1 hb).1
    omega
  bounded a ha := by
    rcases List.mem_append.1 ha with ha | ha
    · exact s.bounded a (List.mem_of_mem_take ha)
    · obtain ⟨hc, hmost⟩ := of_pivot? h
      have hroom := add_le_of_getElem? hc
      have hi := (List.getElem?_eq_some_iff.1 hc).1
      have hlength := s.length_le
      have hlt := (List.mem_range'_1.1 ha).2
      rw [most] at hmost
      omega

/-- The next selection of the same size, unless the program panics; the last one has none. -/
def next? (o : Overflow) (s : Selection n) : Option (Option (Selection n)) :=
  match h : s.pivot? o with
  | none => none
  | some none => some none
  | some (some (c, i)) => some (some (s.raise c i h))

theorem next?_eq_some_some_iff {t : Selection n} :
    s.next? o = some (some t) ↔
      ∃ c i, ∃ h : s.pivot? o = some (some (c, i)), t = s.raise c i h := by
  unfold next?
  split
  · next h =>
    refine iff_of_false (fun hsome => by cases hsome) ?_
    rintro ⟨c, i, hc, -⟩
    rw [h] at hc
    cases hc
  · next h =>
    refine iff_of_false (fun hsome => by cases hsome) ?_
    rintro ⟨c, i, hc, -⟩
    rw [h] at hc
    cases hc
  · next c i h =>
    constructor
    · intro hsome
      exact ⟨c, i, h, (Option.some.inj (Option.some.inj hsome)).symm⟩
    · rintro ⟨c', i', hc', rfl⟩
      obtain ⟨rfl, rfl⟩ := Prod.mk.inj (Option.some.inj (Option.some.inj (h.symm.trans hc')))
      rfl

theorem next?_eq_some_none_iff : s.next? o = some none ↔ s.pivot? o = some none := by
  unfold next?
  split
  · next h => simp [h]
  · next h => simp [h]
  · next c i h => simp [h]

theorem next?_eq_none_iff : s.next? o = none ↔ s.Overflows o := by
  rw [← pivot?_eq_none_iff]
  unfold next?
  split
  · next h => simp [h]
  · next h => simp [h]
  · next c i h => simp [h]

theorem length_raised (h : s.numbers[i]? = some c) :
    (s.raised c i).length = s.numbers.length := by
  have hi := (List.getElem?_eq_some_iff.1 h).1
  rw [raised, List.length_append, List.length_take, List.length_range']
  omega

/-! ## Progress -/

/-- The number that digits add to, in front of which `v` stands. -/
def value (base : Nat) (v : Nat) : List Nat → Nat
  | [] => v
  | i :: is => value base (v * base + i) is

theorem value_append (base v : Nat) (is js : List Nat) :
    value base v (is ++ js) = value base (value base v is) js := by
  induction is generalizing v with
  | nil => rfl
  | cons i is ih => exact ih (v * base + i)

theorem value_lt {base v w : Nat} {is js : List Nat} (hvw : v < w) (hlength : is.length = js.length)
    (his : ∀ i ∈ is, i < base) : value base v is < value base w js := by
  induction is generalizing v w js with
  | nil =>
    obtain rfl := List.eq_nil_of_length_eq_zero hlength.symm
    exact hvw
  | cons i is ih =>
    cases js with
    | nil => cases hlength
    | cons j js =>
      obtain ⟨hi, his⟩ := List.forall_mem_cons.1 his
      have hmul : (v + 1) * base ≤ w * base := Nat.mul_le_mul_right base hvw
      have hdigit : v * base + i < w * base + j := by
        rw [Nat.succ_mul] at hmul
        omega
      rw [value, value]
      exact ih hdigit (Nat.succ.inj hlength) his

theorem value_lt_pow {base : Nat} (v : Nat) {is : List Nat} (his : ∀ i ∈ is, i < base) :
    value base v is < (v + 1) * base.pow is.length := by
  induction is generalizing v with
  | nil => exact Nat.lt_of_lt_of_eq (Nat.lt_succ_self v) (Nat.mul_one _).symm
  | cons i is ih =>
    obtain ⟨hi, his⟩ := List.forall_mem_cons.1 his
    have hmul : (v * base + i + 1) * base.pow is.length ≤ (v + 1) * base * base.pow is.length := by
      refine Nat.mul_le_mul_right _ ?_
      rw [Nat.succ_mul]
      omega
    have hpow : base.pow (is.length + 1) = base * base.pow is.length := Nat.mul_comm _ base
    rw [value, List.length_cons, hpow, ← Nat.mul_assoc]
    exact Nat.lt_of_lt_of_le (ih _ his) hmul

/-- A bound on the selections of the same size that are still to come. -/
def remaining (s : Selection n) : Nat :=
  n.toNat.pow s.numbers.length - value n.toNat 0 s.numbers

theorem value_lt_raised (h : s.numbers[i]? = some c) :
    value n.toNat 0 s.numbers < value n.toNat 0 (s.raised c i) := by
  have hi := (List.getElem?_eq_some_iff.1 h).1
  have hrow : s.numbers.length - i = (s.numbers.length - (i + 1)) + 1 := by omega
  conv => lhs; rw [numbers_eq h]
  rw [raised, hrow, List.range'_succ, value_append, value_append, value, value]
  refine value_lt (Nat.lt_succ_self _) ?_ ?_
  · rw [List.length_drop, List.length_range']
  · exact fun a ha => s.bounded a (List.mem_of_mem_drop ha)

theorem length_of_next? {t : Selection n} (h : s.next? o = some (some t)) :
    t.numbers.length = s.numbers.length := by
  obtain ⟨c, i, hpivot, rfl⟩ := next?_eq_some_some_iff.1 h
  exact length_raised (of_pivot? hpivot).1

theorem remaining_lt {t : Selection n} (h : s.next? o = some (some t)) :
    t.remaining < s.remaining := by
  have hlength := length_of_next? h
  obtain ⟨c, i, hpivot, rfl⟩ := next?_eq_some_some_iff.1 h
  have hc := (of_pivot? hpivot).1
  have hbound := value_lt_pow 0 (s.raise c i hpivot).bounded
  rw [hlength, Nat.zero_add, Nat.one_mul] at hbound
  rw [remaining, remaining, hlength]
  exact Nat.sub_lt_sub_left (Nat.lt_trans (value_lt_raised hc) hbound) (value_lt_raised hc)

/-- A selection and those of its size that come after it, unless the program panics. -/
def onward? (o : Overflow) (s : Selection n) : Option (List (Selection n)) :=
  match _h : s.next? o with
  | none => none
  | some none => some [s]
  | some (some t) => (t.onward? o).map (s :: ·)
termination_by s.remaining
decreasing_by exact remaining_lt _h

end Selection

end DefaultLogic
