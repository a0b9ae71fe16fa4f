import DefaultLogic.Dialect.Grammar

/-!
# Cutting a text into tokens

* `atomAt?_eq_some_iff`: the atom that is read is the longest that matches the pattern.
* `Fits.unique`: at most one symbol can be read at a place, so the first in the table is the
  longest.
* `cut_iff`: one token is cut off as the grammar says.
* `split_iff`: **the lexemes of a text are the tokens into which it splits, and reading stops at the
  end exactly when it does split.**
-/

namespace DefaultLogic

/-! ## Blanks -/

namespace Text

theorem isAlphanumeric_of_isAlpha {c : Char} (h : c.isAlpha = true) : isAlphanumeric c = true := by
  rw [isAlphanumeric, Char.isAlphanum, h, Bool.true_or, Bool.true_or]

theorem toNat_of_isAlphanum {c : Char} (h : c.isAlphanum = true) :
    0x30 ≤ c.toNat ∧ c.toNat ≤ 0x7a := by
  have hcases : (decide (0x41 ≤ c.val ∧ c.val ≤ 0x5a) || (0x61 ≤ c.val && c.val ≤ 0x7a) ||
      (0x30 ≤ c.val && c.val ≤ 0x39)) = true := h
  simp only [UInt32.le_iff_toNat_le, Bool.or_eq_true, Bool.and_eq_true,
    decide_eq_true_eq] at hcases
  have hnat : (0x41 ≤ c.toNat ∧ c.toNat ≤ 0x5a ∨ 0x61 ≤ c.toNat ∧ c.toNat ≤ 0x7a) ∨
      0x30 ≤ c.toNat ∧ c.toNat ≤ 0x39 := hcases
  omega

/-- No character of an interval is alphanumeric if the interval meets none that are. -/
private theorem isAlphanumeric_eq_false {c : Char} {lo hi : Nat} (hascii : hi < 0x30 ∨ 0x7a < lo)
    (h : ∀ p ∈ alphanumericIntervals, hi < p.1 ∨ p.2 < lo) (hlo : lo ≤ c.toNat)
    (hhi : c.toNat ≤ hi) : isAlphanumeric c = false := by
  rw [isAlphanumeric, Bool.or_eq_false_iff, Bool.and_eq_false_iff]
  constructor
  · refine Bool.eq_false_iff.2 fun hc => ?_
    have hbounds := toNat_of_isAlphanum hc
    omega
  · refine .inr (List.any_eq_false.2 fun p hp => ?_)
    have hp := h p hp
    simp only [Bool.and_eq_true, decide_eq_true_eq]
    omega

theorem isBlank_eq_false {c : Char} (h : isAlphanumeric c = true) : isBlank c = false := by
  refine Bool.eq_false_iff.2 fun hblank => Bool.false_ne_true (Eq.trans (Eq.symm ?_) h)
  simp only [isBlank, List.any_cons, List.any_nil, Bool.or_eq_true, Bool.and_eq_true,
    decide_eq_true_eq, Bool.false_eq_true, or_false] at hblank
  rcases hblank with hc | hc | hc | hc | hc | hc | hc | hc | hc | hc
  all_goals exact isAlphanumeric_eq_false (by decide) (by decide +kernel) hc.1 hc.2

end Text

/-! ## The longest atom -/

def IsIndex (index : List Char) : Prop :=
  index = [] ∨ ∃ digit : Char, digit.isDigit = true ∧ index = ['_', digit]

/-- The pattern of atoms without a backslash. -/
def WordPattern (word : List Char) : Prop :=
  ∃ letters index : List Char, word = letters ++ index ∧ letters ≠ [] ∧
    (∀ c ∈ letters, c.isAlpha = true) ∧ IsIndex index

theorem atomPattern_iff {word : List Char} :
    AtomPattern word ↔ WordPattern word ∨ ∃ tail, word = '\\' :: tail ∧ WordPattern tail := by
  constructor
  · rintro ⟨slash, letters, index, rfl, rfl | rfl, hne, halpha, hindex⟩
    · exact .inl ⟨letters, index, rfl, hne, halpha, hindex⟩
    · exact .inr ⟨_, rfl, letters, index, rfl, hne, halpha, hindex⟩
  · rintro (⟨letters, index, rfl, h⟩ | ⟨_, rfl, letters, index, rfl, h⟩)
    · exact ⟨[], letters, index, rfl, .inl rfl, h⟩
    · exact ⟨['\\'], letters, index, rfl, .inr rfl, h⟩

theorem WordPattern.exists_cons {word : List Char} (h : WordPattern word) :
    ∃ c cs, word = c :: cs ∧ c.isAlpha = true := by
  obtain ⟨letters, index, rfl, hne, halpha, -⟩ := h
  obtain ⟨c, letters, rfl⟩ := List.exists_cons_of_ne_nil hne
  exact ⟨c, letters ++ index, rfl, halpha c List.mem_cons_self⟩

/-- Whether a word is the longest with a property at the start of a text. -/
structure IsLongest (P : List Char → Prop) (cs word : List Char) : Prop where
  holds : P word
  isPrefix : word <+: cs
  longest : ∀ word', P word' → word' <+: cs → word'.length ≤ word.length

theorem IsLongest.unique {P : List Char → Prop} {cs word word' : List Char}
    (h : IsLongest P cs word) (h' : IsLongest P cs word') : word = word' := by
  have hle := h'.longest word h.holds h.isPrefix
  have hge := h.longest word' h'.holds h'.isPrefix
  exact (List.prefix_of_prefix_length_le h.isPrefix h'.isPrefix hle).eq_of_length
    (Nat.le_antisymm hle hge)

/-- A reader of words reads the longest if it reads some word with the property, and one at least as
long as any other. -/
theorem isLongest_iff {P : List Char → Prop} {word? : Option (List Char)} {cs : List Char}
    (sound : ∀ word, word? = some word → P word ∧ word <+: cs)
    (complete : ∀ word', P word' → word' <+: cs →
      ∃ word, word? = some word ∧ word'.length ≤ word.length) (word : List Char) :
    word? = some word ↔ IsLongest P cs word := by
  have hsome : ∀ word, word? = some word → IsLongest P cs word := by
    intro word h
    refine ⟨(sound word h).1, (sound word h).2, fun word' hP hpre => ?_⟩
    obtain ⟨other, hother, hle⟩ := complete word' hP hpre
    rwa [Option.some.inj (h.symm.trans hother)]
  refine ⟨hsome word, fun h => ?_⟩
  obtain ⟨other, hother, -⟩ := complete word h.holds h.isPrefix
  rw [hother, (hsome other hother).unique h]

namespace Dialect

theorem isIndex_indexAt (cs : List Char) : IsIndex (indexAt cs) ∧ indexAt cs <+: cs := by
  unfold indexAt
  split
  · next c cs =>
    split
    · next hc => exact ⟨.inr ⟨c, hc, rfl⟩, cs, rfl⟩
    · exact ⟨.inl rfl, List.nil_prefix⟩
  · exact ⟨.inl rfl, List.nil_prefix⟩

theorem wordAt?_sound {cs word : List Char} (h : wordAt? cs = some word) :
    WordPattern word ∧ word <+: cs := by
  have halpha : ∀ c ∈ cs.takeWhile Char.isAlpha, c.isAlpha = true := fun c hc =>
    (List.all_eq_true.1 List.all_takeWhile) c hc
  have hcs := List.takeWhile_append_dropWhile (p := Char.isAlpha) (l := cs)
  unfold wordAt? at h
  split at h
  · cases h
  · next c letters hletters =>
    rw [hletters] at halpha hcs
    obtain rfl := Option.some.inj h
    obtain ⟨hindex, rest, hrest⟩ := isIndex_indexAt (cs.drop (letters.length + 1))
    refine ⟨⟨c :: letters, _, rfl, List.cons_ne_nil c letters, halpha, hindex⟩, rest, ?_⟩
    have hdrop : cs.drop (letters.length + 1) = cs.dropWhile Char.isAlpha := by
      conv => lhs; rw [← hcs]
      exact List.drop_left
    rw [List.append_assoc, hrest, hdrop, hcs]

theorem wordAt?_complete {word : List Char} (h : WordPattern word) (rest : List Char) :
    ∃ longest, wordAt? (word ++ rest) = some longest ∧ word.length ≤ longest.length := by
  obtain ⟨letters, index, rfl, hne, halpha, hindex⟩ := h
  obtain ⟨c, letters, rfl⟩ := List.exists_cons_of_ne_nil hne
  have htake : ((c :: letters) ++ index ++ rest).takeWhile Char.isAlpha =
      c :: (letters ++ (index ++ rest).takeWhile Char.isAlpha) := by
    rw [List.append_assoc, List.takeWhile_append_of_pos halpha, List.cons_append]
  rw [wordAt?, htake]
  refine ⟨_, rfl, ?_⟩
  rcases hindex with rfl | ⟨digit, hdigit, rfl⟩
  · simp only [List.append_nil, List.length_append, List.length_cons]
    omega
  · have hunderscore : (['_', digit] ++ rest).takeWhile Char.isAlpha = [] :=
      List.takeWhile_cons_of_neg (by decide)
    have hdrop : ((c :: letters) ++ ['_', digit] ++ rest).drop (letters.length + 1) =
        '_' :: digit :: rest := by
      rw [List.append_assoc]
      exact List.drop_left
    have hindex : indexAt ('_' :: digit :: rest) = ['_', digit] := by
      rw [indexAt, if_pos hdigit]
    exact Nat.le_of_eq (by rw [hunderscore, List.append_nil, hdrop, hindex])

/-- **The atom that is read is the longest.** -/
theorem atomAt?_eq_some_iff (cs word : List Char) :
    atomAt? cs = some word ↔ IsLongest AtomPattern cs word := by
  unfold atomAt?
  split
  · next cs =>
    refine isLongest_iff ?_ ?_ word
    · intro word h
      obtain ⟨tail, htail, rfl⟩ := Option.map_eq_some_iff.1 h
      obtain ⟨hpattern, hpre⟩ := wordAt?_sound htail
      exact ⟨atomPattern_iff.2 (.inr ⟨tail, rfl, hpattern⟩), List.cons_prefix_cons.2 ⟨rfl, hpre⟩⟩
    · intro word' hword' hpre
      rcases atomPattern_iff.1 hword' with h | ⟨tail, rfl, h⟩
      · obtain ⟨c, tail, rfl, hc⟩ := h.exists_cons
        obtain rfl := (List.cons_prefix_cons.1 hpre).1
        cases hc
      · obtain ⟨-, rest, rfl⟩ := List.cons_prefix_cons.1 hpre
        obtain ⟨longest, hlongest, hle⟩ := wordAt?_complete h rest
        exact ⟨'\\' :: longest, Option.map_eq_some_iff.2 ⟨longest, hlongest, rfl⟩,
          Nat.succ_le_succ hle⟩
  · next hslash =>
    refine isLongest_iff ?_ ?_ word
    · intro word h
      exact ⟨atomPattern_iff.2 (.inl (wordAt?_sound h).1), (wordAt?_sound h).2⟩
    · rintro word' hword' ⟨rest, rfl⟩
      rcases atomPattern_iff.1 hword' with h | ⟨tail, rfl, h⟩
      · exact wordAt?_complete h rest
      · exact absurd rfl (hslash (tail ++ rest))

/-! ## Symbols -/

variable {d : Dialect}

theorem eq_of_prefix_spell : ∀ t ∈ d.symbols, ∀ u ∈ d.symbols,
    (d.spell t).toList <+: (d.spell u).toList → t = u := by
  cases d <;> decide

/-- **At most one symbol can be read at a place.** -/
theorem Fits.unique {t u : Token} {word rest word' rest' : List Char} (ht : d.Fits t word rest)
    (hu : d.Fits u word' rest') (h : word ++ rest = word' ++ rest') :
    t = u ∧ word = word' ∧ rest = rest' := by
  have heq : t = u := by
    rcases List.prefix_or_prefix_of_prefix (List.prefix_append word rest)
      (h ▸ List.prefix_append word' rest') with hpre | hpre
    · exact eq_of_prefix_spell t ht.symbol u hu.symbol (by rwa [ht.spelling, hu.spelling])
    · exact (eq_of_prefix_spell u hu.symbol t ht.symbol (by rwa [ht.spelling, hu.spelling])).symm
  subst heq
  obtain rfl : word = word' := ht.spelling.symm.trans hu.spelling
  exact ⟨rfl, rfl, List.append_cancel_left h⟩

theorem Fits.cut {t : Token} {word rest : List Char} (h : d.Fits t word rest) :
    d.Cut (word ++ rest) t rest := by
  refine .symbol h fun u word' rest' heq hu => ?_
  exact Nat.le_of_eq (congrArg List.length (hu.unique h heq).2.1)

theorem starts_iff {t : Token} (ht : t ∈ d.symbols) {cs : List Char} :
    d.starts cs t = true ↔ ∃ rest, cs = (d.spell t).toList ++ rest ∧
      d.Fits t (d.spell t).toList rest := by
  rw [starts, Bool.and_eq_true, List.isPrefixOf_iff_prefix]
  constructor
  · rintro ⟨⟨rest, rfl⟩, hends⟩
    rw [List.drop_left] at hends
    exact ⟨rest, rfl, ht, rfl, hends⟩
  · rintro ⟨rest, rfl, hfits⟩
    rw [List.drop_left]
    exact ⟨List.prefix_append _ rest, hfits.ends⟩

theorem find?_starts_eq_some_iff {t : Token} {cs : List Char} :
    d.symbols.find? (d.starts cs) = some t ↔
      ∃ word rest, cs = word ++ rest ∧ d.Fits t word rest := by
  constructor
  · intro h
    have ht := List.mem_of_find?_eq_some h
    obtain ⟨rest, hrest, hfits⟩ := (starts_iff ht).1 (List.find?_some h)
    exact ⟨_, rest, hrest, hfits⟩
  · rintro ⟨word, rest, rfl, hfits⟩
    cases hfind : d.symbols.find? (d.starts (word ++ rest)) with
    | none =>
      have hnot := List.find?_eq_none.1 hfind t hfits.symbol
      refine absurd ((starts_iff hfits.symbol).2 ⟨rest, ?_, ?_⟩) hnot
      · rw [hfits.spelling]
      · rw [hfits.spelling]
        exact hfits
    | some u =>
      have hu := List.mem_of_find?_eq_some hfind
      obtain ⟨rest', hrest', hfits'⟩ := (starts_iff hu).1 (List.find?_some hfind)
      rw [(hfits'.unique hfits hrest'.symm).1]

/-! ## Tokens -/

/-- **One token is cut off as the grammar says.** -/
theorem cut_iff {cs rest : List Char} {t : Token} :
    d.Cut cs t rest ↔ ∃ word, d.tokenAt? cs = some (t, word) ∧ cs = word ++ rest := by
  constructor
  · rintro (⟨fits, -⟩ | ⟨pattern, noSymbol, longest⟩)
    · next word =>
      refine ⟨word, ?_, rfl⟩
      rw [tokenAt?, find?_starts_eq_some_iff.2 ⟨word, rest, rfl, fits⟩, ← fits.spelling]
    · next word =>
      refine ⟨word, ?_, rfl⟩
      have hfind : d.symbols.find? (d.starts (word ++ rest)) = none := by
        refine Option.eq_none_iff_forall_ne_some.2 fun u hu => ?_
        obtain ⟨word', rest', heq, hfits⟩ := find?_starts_eq_some_iff.1 hu
        exact noSymbol u word' rest' heq.symm hfits
      have hatom : atomAt? (word ++ rest) = some word := by
        refine (atomAt?_eq_some_iff _ word).2 ⟨pattern, List.prefix_append word rest, ?_⟩
        rintro word' hword' ⟨rest', hrest'⟩
        exact longest word' rest' hrest' hword'
      rw [tokenAt?, hfind, hatom]
      rfl
  · rintro ⟨word, h, rfl⟩
    rw [tokenAt?] at h
    split at h
    · next s hs =>
      simp only [Option.some.injEq, Prod.mk.injEq] at h
      obtain ⟨rfl, hword⟩ := h
      obtain ⟨word', rest', heq, hfits⟩ := find?_starts_eq_some_iff.1 hs
      obtain rfl : word' = word := hfits.spelling.symm.trans hword
      obtain rfl := List.append_cancel_left heq
      exact hfits.cut
    · next hnone =>
      obtain ⟨name, hname, heq⟩ := Option.map_eq_some_iff.1 h
      simp only [Prod.mk.injEq] at heq
      obtain ⟨rfl, rfl⟩ := heq
      have hlongest := (atomAt?_eq_some_iff _ _).1 hname
      refine .atom hlongest.holds ?_ ?_
      · intro u word' rest' heq hfits
        have hsome := find?_starts_eq_some_iff.2 ⟨word', rest', heq.symm, hfits⟩
        rw [hnone] at hsome
        cases hsome
      · intro word' rest' heq hword'
        exact hlongest.longest word' hword' ⟨rest', heq⟩

/-! ## Blanks -/

theorem Cut.first {c : Char} {cs rest : List Char} {t : Token} (h : d.Cut (c :: cs) t rest) :
    (∃ u ∈ d.symbols, c ∈ (d.spell u).toList.head?) ∨ c = '\\' ∨ c.isAlpha = true := by
  generalize htext : c :: cs = text at h
  cases h with
  | symbol fits longest =>
    next word =>
    rw [← fits.spelling] at htext
    obtain ⟨first, tail, hword⟩ :=
      List.exists_cons_of_ne_nil (spell_ne_nil_of_mem_symbols t fits.symbol)
    rw [hword, List.cons_append] at htext
    obtain ⟨rfl, -⟩ := List.cons.inj htext
    exact .inl ⟨t, fits.symbol, by rw [hword]; rfl⟩
  | atom pattern noSymbol longest =>
    rcases atomPattern_iff.1 pattern with hword | ⟨tail, rfl, -⟩
    · obtain ⟨first, tail, rfl, halpha⟩ := hword.exists_cons
      obtain ⟨rfl, -⟩ := List.cons.inj htext
      exact .inr (.inr halpha)
    · obtain ⟨rfl, -⟩ := List.cons.inj htext
      exact .inr (.inl rfl)

theorem Cut.isBlank_eq_false {c : Char} {cs rest : List Char} {t : Token}
    (h : d.Cut (c :: cs) t rest) : Text.isBlank c = false := by
  have hsymbols : ∀ u ∈ d.symbols, (d.spell u).toList.head?.any Text.isBlank = false := by
    cases d <;> decide
  rcases h.first with ⟨u, hu, hc⟩ | rfl | halpha
  · exact (Option.any_eq_false _ _).1 (hsymbols u hu) c hc
  · decide
  · exact Text.isBlank_eq_false (Text.isAlphanumeric_of_isAlpha halpha)

theorem split_of_isBlank {c : Char} {cs : List Char} {ts : List Token}
    (hc : Text.isBlank c = true) : d.Split (c :: cs) ts ↔ d.Split cs ts := by
  constructor
  · rintro (_ | ⟨_, tail⟩ | ⟨cut, -⟩)
    · exact tail
    · rw [cut.isBlank_eq_false] at hc
      cases hc
  · exact .blank hc

theorem split_dropWhile {cs : List Char} {ts : List Token} :
    d.Split (cs.dropWhile Text.isBlank) ts ↔ d.Split cs ts := by
  induction cs with
  | nil => rfl
  | cons c cs ih =>
    by_cases hc : Text.isBlank c = true
    · rw [List.dropWhile_cons_of_pos hc, ih, split_of_isBlank hc]
    · rw [List.dropWhile_cons_of_neg hc]

theorem split_nil_iff {ts : List Token} : d.Split [] ts ↔ ts = [] := by
  constructor
  · rintro (_ | _ | ⟨cut, -⟩)
    · rfl
    · obtain ⟨word, hword, hnil⟩ := cut_iff.1 cut
      exact absurd (List.append_eq_nil_iff.1 hnil.symm).1 (tokenAt?_ne_nil hword)
  · rintro rfl
    exact .nil

theorem split_cons_iff {c : Char} {cs : List Char} {ts : List Token}
    (hc : Text.isBlank c = false) : d.Split (c :: cs) ts ↔
      ∃ t rest us, d.Cut (c :: cs) t rest ∧ d.Split rest us ∧ ts = t :: us := by
  constructor
  · rintro (_ | ⟨hblank, -⟩ | ⟨cut, tail⟩)
    · rw [hc] at hblank
      cases hblank
    · exact ⟨_, _, _, cut, tail, rfl⟩
  · rintro ⟨t, rest, us, cut, tail, rfl⟩
    exact .token cut tail

/-! ## Lexemes -/

theorem rest_skipBlanks (m : Mark) : m.skipBlanks.rest = m.rest.dropWhile Text.isBlank := by
  conv => lhs; rw [Mark.skipBlanks, Mark.advance]
  show m.rest.drop _ = _
  conv => lhs; arg 2; rw [← List.takeWhile_append_dropWhile (p := Text.isBlank) (l := m.rest)]
  exact List.drop_left

theorem isBlank_of_skipBlanks {m : Mark} {c : Char} {cs : List Char}
    (h : m.skipBlanks.rest = c :: cs) : Text.isBlank c = false := by
  have hhead := List.head?_dropWhile_not Text.isBlank m.rest
  rw [← rest_skipBlanks, h] at hhead
  exact hhead

theorem tokenAt?_prefix {cs word : List Char} {t : Token} (h : d.tokenAt? cs = some (t, word)) :
    word <+: cs := by
  rw [tokenAt?] at h
  split at h
  · next s hs =>
    obtain ⟨word', rest, rfl, hfits⟩ := find?_starts_eq_some_iff.1 hs
    cases h
    rw [hfits.spelling]
    exact List.prefix_append word' rest
  · obtain ⟨name, hname, heq⟩ := Option.map_eq_some_iff.1 h
    cases heq
    exact ((atomAt?_eq_some_iff _ _).1 hname).isPrefix

/-- **The lexemes from a mark on are the tokens into which the rest of the text splits**, and
reading stops at the end exactly when it does split. -/
theorem split_iff (m : Mark) (ts : List Token) :
    d.Split m.rest ts ↔
      ∃ ls last, d.lexemes m = (ls, .complete last) ∧ ls.map Lexeme.token = ts := by
  fun_induction d.lexemes m generalizing ts with
  | case1 m hrest =>
    rw [← split_dropWhile, ← rest_skipBlanks, hrest, split_nil_iff]
    constructor
    · rintro rfl
      exact ⟨[], _, rfl, rfl⟩
    · rintro ⟨ls, last, heq, rfl⟩
      cases heq
      rfl
  | case2 m c cs hrest htoken =>
    rw [← split_dropWhile, ← rest_skipBlanks, hrest, split_cons_iff (isBlank_of_skipBlanks hrest)]
    constructor
    · rintro ⟨t, rest, us, cut, -⟩
      obtain ⟨word, hword, -⟩ := cut_iff.1 cut
      rw [htoken] at hword
      cases hword
    · rintro ⟨ls, last, heq, -⟩
      cases heq
  | case3 m c cs hrest t word htoken ls stop heq ih =>
    obtain ⟨rest, hword⟩ := tokenAt?_prefix htoken
    have hafter : (m.skipBlanks.advance word.length).rest = rest := by
      show m.skipBlanks.rest.drop word.length = rest
      rw [hrest, ← hword]
      exact List.drop_left
    rw [heq, hafter] at ih
    rw [← split_dropWhile, ← rest_skipBlanks, hrest, split_cons_iff (isBlank_of_skipBlanks hrest)]
    constructor
    · rintro ⟨u, rest', us, cut, htail, rfl⟩
      obtain ⟨word', hword', hrest'⟩ := cut_iff.1 cut
      rw [htoken] at hword'
      cases hword'
      rw [← hword] at hrest'
      obtain rfl := List.append_cancel_left hrest'
      obtain ⟨ls', last, heq', rfl⟩ := (ih us).1 htail
      cases heq'
      exact ⟨_, last, rfl, rfl⟩
    · rintro ⟨ls', last, heq', rfl⟩
      cases heq'
      exact ⟨t, rest, ls.map Lexeme.token, cut_iff.2 ⟨word, htoken, hword.symm⟩,
        (ih _).2 ⟨ls, last, rfl, rfl⟩, rfl⟩

end Dialect

end DefaultLogic
