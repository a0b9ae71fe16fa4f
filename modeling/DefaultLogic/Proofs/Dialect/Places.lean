import DefaultLogic.Proofs.Dialect.Token
import Mathlib.Data.List.TakeWhile
import Mathlib.Data.String.Basic

/-!
# Places in a text

A mark lies in a text when its offset counts the bytes before its rest.  A text can be cut at such a
place, and reading its tokens by byte offsets alone cuts it nowhere else.

* `sliceFrom?_eq_some_iff`: a text can be cut behind some of its characters, and nowhere else.
* `LiesIn.advance`, `LiesIn.skipBlanks`: skipping blanks and tokens leads from place to place.
* `scan?_eq`, `scanAll?_eq`: **no cut fails when a text is scanned by byte offsets, and the scan
  finds its lexemes.**
* `lexemes_places`: all lexemes, and the end, lie in the text and start with no blank.
-/

namespace DefaultLogic

theorem filterM_eq_some {α : Type} {f : α → Option Bool} {p : α → Bool} {as : List α}
    (h : ∀ a ∈ as, f a = some (p a)) : as.filterM f = some (as.filter p) := by
  have haux : ∀ bs, as.filterAuxM f bs = some ((as.filter p).reverse ++ bs) := by
    induction as with
    | nil => exact fun bs => rfl
    | cons a as ih =>
      intro bs
      obtain ⟨ha, has⟩ := List.forall_mem_cons.1 h
      rw [List.filterAuxM, ha, Option.bind_eq_bind, Option.bind_some, ih has]
      cases hp : p a <;> simp [hp]
  rw [List.filterM, haux]
  simp

/-! ## Bytes -/

namespace Mark

theorem bytes_cons (c : Char) (cs : List Char) : bytes (c :: cs) = c.utf8Size + bytes cs := rfl

theorem bytes_append (cs ds : List Char) : bytes (cs ++ ds) = bytes cs + bytes ds := by
  induction cs with
  | nil => exact (Nat.zero_add _).symm
  | cons c cs ih => rw [List.cons_append, bytes_cons, bytes_cons, ih, Nat.add_assoc]

theorem bytes_pos {cs : List Char} (h : cs ≠ []) : 0 < bytes cs := by
  obtain ⟨c, cs, rfl⟩ := List.exists_cons_of_ne_nil h
  exact Nat.add_pos_left c.utf8Size_pos _

theorem bytes_toList (text : String) : bytes text.toList = text.utf8ByteSize := by
  have hbytes : ∀ cs, bytes cs = String.utf8Len cs := by
    intro cs
    induction cs with
    | nil => rfl
    | cons c cs ih => rw [bytes_cons, ih, String.utf8Len_cons, Nat.add_comm]
  rw [hbytes, ← String.utf8ByteSize_ofList, String.ofList_toList]

end Mark

open Mark

/-- The text from a byte offset on, if it can be cut there. -/
def sliceFrom? (text : String) (offset : Nat) : Option (List Char) :=
  if h : (String.Pos.Raw.mk offset).IsValid text then
    some (text.sliceFrom ⟨⟨offset⟩, h⟩).copy.toList
  else none

/-- **A text can be cut behind some of its characters, and nowhere else.** -/
theorem sliceFrom?_eq_some_iff {text : String} {offset : Nat} {rest : List Char} :
    sliceFrom? text offset = some rest ↔
      ∃ before, text.toList = before ++ rest ∧ offset = bytes before := by
  have hraw : ∀ s : String, s.rawEndPos = ⟨bytes s.toList⟩ := fun s =>
    congrArg String.Pos.Raw.mk (bytes_toList s).symm
  rw [sliceFrom?]
  constructor
  · intro h
    split at h
    · next hvalid =>
      obtain rfl := Option.some.inj h
      have hsplits := String.Pos.splits ⟨⟨offset⟩, hvalid⟩
      refine ⟨_, ?_, congrArg String.Pos.Raw.byteIdx (hsplits.offset_eq_rawEndPos.trans (hraw _))⟩
      rw [← String.toList_append, ← hsplits.eq_append]
    · cases h
  · rintro ⟨before, htext, rfl⟩
    have happend : text = String.ofList before ++ String.ofList rest := by
      rw [← String.ofList_append, ← htext, String.ofList_toList]
    have hend : (⟨bytes before⟩ : String.Pos.Raw) = (String.ofList before).rawEndPos := by
      rw [hraw, String.toList_ofList]
    have hvalid : (String.Pos.Raw.mk (bytes before)).IsValid text :=
      String.Pos.Raw.isValid_iff_exists_append.2 ⟨_, _, happend, hend⟩
    have hsplits : (⟨⟨bytes before⟩, hvalid⟩ : text.Pos).Splits (String.ofList before)
        (String.ofList rest) := ⟨happend, hend⟩
    rw [dif_pos hvalid, hsplits.copy_sliceFrom_eq, String.toList_ofList]

/-! ## Marks -/

namespace Mark

/-- The offset of a mark counts the bytes before its rest. -/
def LiesIn (m : Mark) (text : String) : Prop :=
  ∃ before, text.toList = before ++ m.rest ∧ m.offset = bytes before

variable {m : Mark} {text : String}

theorem liesIn_iff : m.LiesIn text ↔ sliceFrom? text m.offset = some m.rest :=
  sliceFrom?_eq_some_iff.symm

theorem liesIn_start (text : String) : (start text).LiesIn text := ⟨[], rfl, rfl⟩

theorem LiesIn.offset_add (h : m.LiesIn text) : m.offset + bytes m.rest = text.utf8ByteSize := by
  obtain ⟨before, htext, hoffset⟩ := h
  rw [hoffset, ← bytes_append, ← htext, bytes_toList]

theorem LiesIn.advance (h : m.LiesIn text) (n : Nat) : (m.advance n).LiesIn text := by
  obtain ⟨before, htext, hoffset⟩ := h
  refine ⟨before ++ m.rest.take n, ?_, ?_⟩
  · show _ = _ ++ m.rest.drop n
    rw [List.append_assoc, List.take_append_drop, htext]
  · show m.offset + _ = _
    rw [bytes_append, hoffset]

theorem LiesIn.skipBlanks (h : m.LiesIn text) : m.skipBlanks.LiesIn text := h.advance _

theorem advance_length {word rest : List Char} (h : m.rest = word ++ rest) :
    m.advance word.length = ⟨m.offset + bytes word, rest⟩ := by
  rw [Mark.advance, h, List.take_left, List.drop_left]

theorem skipBlanks_eq (m : Mark) :
    m.skipBlanks = ⟨m.offset + (bytes m.rest - bytes (m.rest.dropWhile Text.isBlank)),
      m.rest.dropWhile Text.isBlank⟩ := by
  have hrest : m.rest = m.rest.takeWhile Text.isBlank ++ m.rest.dropWhile Text.isBlank :=
    List.takeWhile_append_dropWhile.symm
  have hbytes := congrArg bytes hrest
  rw [bytes_append] at hbytes
  rw [Mark.skipBlanks, advance_length hrest, hbytes, Nat.add_sub_cancel]

/-- A place where the text goes on with a character that is no blank. -/
structure IsFilledIn (m : Mark) (text : String) : Prop where
  liesIn : m.LiesIn text
  first : ∃ c cs, m.rest = c :: cs ∧ Text.isBlank c = false

end Mark

def Stop.LiesIn (text : String) : Stop → Prop
  | .complete m => m.LiesIn text ∧ m.rest = []
  | .unknown m => m.IsFilledIn text

/-! ## Scanning by byte offsets -/

namespace Dialect

variable {d : Dialect} {text : String} {m : Mark}

/-- Whether a symbol can be read at a place.  What follows it is cut off, to see how it starts. -/
def fits? (d : Dialect) (text : String) (m : Mark) (t : Token) : Option Bool :=
  let word := (d.spell t).toList
  if word.isPrefixOf m.rest then do
    let following ← sliceFrom? text (m.offset + bytes word)
    some (endsWord word following)
  else some false

def tokenFrom? (d : Dialect) (text : String) (m : Mark) : Option (Option (Token × List Char)) := do
  let fitting ← d.symbols.filterM (d.fits? text m)
  match fitting.head? with
  | some t => some (some (t, (d.spell t).toList))
  | none => some ((atomAt? m.rest).map fun name => (.atom (String.ofList name), name))

/-- The next place behind an offset where there is no blank, and the token there. -/
def scan? (d : Dialect) (text : String) (offset : Nat) :
    Option (Mark × Option (Token × List Char)) := do
  let rest ← sliceFrom? text offset
  let trimmed := rest.dropWhile Text.isBlank
  let m : Mark := ⟨offset + (bytes rest - bytes trimmed), trimmed⟩
  let token? ← d.tokenFrom? text m
  some (m, token?)

theorem fits?_eq (h : m.LiesIn text) (t : Token) : d.fits? text m t = some (d.starts m.rest t) := by
  rw [fits?, starts]
  by_cases hprefix : (d.spell t).toList.isPrefixOf m.rest = true
  · obtain ⟨rest, hrest⟩ := List.isPrefixOf_iff_prefix.1 hprefix
    have hslice := Mark.liesIn_iff.1 (h.advance (d.spell t).toList.length)
    rw [Mark.advance_length hrest.symm] at hslice
    rw [if_pos hprefix, hslice, hprefix, ← hrest, List.drop_left]
    rfl
  · rw [if_neg hprefix, Bool.eq_false_iff.2 hprefix]
    rfl

theorem tokenFrom?_eq (h : m.LiesIn text) : d.tokenFrom? text m = some (d.tokenAt? m.rest) := by
  have hfitting : d.symbols.filterM (d.fits? text m) = some (d.symbols.filter (d.starts m.rest)) :=
    filterM_eq_some fun t _ => fits?_eq h t
  rw [tokenFrom?, hfitting, Option.bind_eq_bind, Option.bind_some, List.head?_filter, tokenAt?]
  cases d.symbols.find? (d.starts m.rest) <;> rfl

/-- **From a place in the text no cut fails**, and the token at the next place is found. -/
theorem scan?_eq (h : m.LiesIn text) :
    d.scan? text m.offset = some (m.skipBlanks, d.tokenAt? m.skipBlanks.rest) := by
  rw [scan?, Mark.liesIn_iff.1 h, Option.bind_eq_bind, Option.bind_some]
  simp only [← Mark.skipBlanks_eq]
  rw [tokenFrom?_eq h.skipBlanks]
  rfl

theorem lt_of_scan? {offset : Nat} {start : Mark} {t : Token} {word : List Char}
    (h : d.scan? text offset = some (start, some (t, word))) :
    offset ≤ text.utf8ByteSize ∧ offset < start.offset + bytes word := by
  cases hslice : sliceFrom? text offset with
  | none =>
    rw [scan?, hslice] at h
    cases h
  | some rest =>
    have hlies : (⟨offset, rest⟩ : Mark).LiesIn text := Mark.liesIn_iff.2 hslice
    obtain ⟨rfl, htoken⟩ := Prod.mk.inj (Option.some.inj ((scan?_eq hlies).symm.trans h))
    have hword := bytes_pos (tokenAt?_ne_nil htoken)
    have hsize : offset + bytes rest = text.utf8ByteSize := hlies.offset_add
    have hskip : offset ≤ (Mark.mk offset rest).skipBlanks.offset := Nat.le_add_right _ _
    omega

/-- The tokens from a byte offset on, and where scanning stops. -/
def scanAll? (d : Dialect) (text : String) (offset : Nat) : Option (List Lexeme × Stop) :=
  match _h : d.scan? text offset with
  | none => none
  | some (m, none) => some ([], if m.rest = [] then .complete m else .unknown m)
  | some (m, some (t, word)) =>
    (d.scanAll? text (m.offset + bytes word)).map fun (ls, stop) => (⟨t, m⟩ :: ls, stop)
termination_by text.utf8ByteSize + 1 - offset
decreasing_by
  have hlt := lt_of_scan? _h
  omega

theorem scanAll?_of_none {offset : Nat} (h : d.scan? text offset = some (m, none)) :
    d.scanAll? text offset = some ([], if m.rest = [] then .complete m else .unknown m) := by
  rw [scanAll?]
  split
  · next heq =>
    rw [h] at heq
    cases heq
  · next heq =>
    rw [h] at heq
    cases heq
    rfl
  · next heq =>
    rw [h] at heq
    cases heq

theorem scanAll?_of_some {offset : Nat} {t : Token} {word : List Char}
    (h : d.scan? text offset = some (m, some (t, word))) :
    d.scanAll? text offset = (d.scanAll? text (m.offset + bytes word)).map fun (ls, stop) =>
      (⟨t, m⟩ :: ls, stop) := by
  rw [scanAll?]
  split
  · next heq =>
    rw [h] at heq
    cases heq
  · next heq =>
    rw [h] at heq
    cases heq
  · next heq =>
    rw [h] at heq
    cases heq
    rfl

/-- **Scanning a text by byte offsets cuts it at places only, and finds its lexemes.** -/
theorem scanAll?_eq (h : m.LiesIn text) : d.scanAll? text m.offset = some (d.lexemes m) := by
  fun_induction d.lexemes m with
  | case1 m hrest =>
    have hscan : d.scan? text m.offset = some (m.skipBlanks, none) := by
      rw [scan?_eq h, hrest]
      cases d <;> rfl
    rw [scanAll?_of_none hscan, if_pos hrest]
  | case2 m c cs hrest htoken =>
    have hscan : d.scan? text m.offset = some (m.skipBlanks, none) := by
      rw [scan?_eq h, hrest, htoken]
    have hne : m.skipBlanks.rest ≠ [] := hrest ▸ List.cons_ne_nil c cs
    rw [scanAll?_of_none hscan, if_neg hne]
  | case3 m c cs hrest t word htoken ls stop hlexemes ih =>
    have hscan : d.scan? text m.offset = some (m.skipBlanks, some (t, word)) := by
      rw [scan?_eq h, hrest, htoken]
    obtain ⟨rest, hword⟩ := tokenAt?_prefix htoken
    have hnext := ih (h.skipBlanks.advance word.length)
    rw [hlexemes, Mark.advance_length (hrest.trans hword.symm)] at hnext
    rw [scanAll?_of_some hscan, hnext]
    rfl

/-! ## Where lexemes lie -/

/-- All lexemes lie at characters that are no blanks, and reading stops at one or at the end. -/
theorem lexemes_places (h : m.LiesIn text) :
    (∀ l ∈ (d.lexemes m).1, l.mark.IsFilledIn text) ∧ (d.lexemes m).2.LiesIn text := by
  fun_induction d.lexemes m with
  | case1 m hrest => exact ⟨fun _ hl => absurd hl List.not_mem_nil, h.skipBlanks, hrest⟩
  | case2 m c cs hrest htoken =>
    exact ⟨fun _ hl => absurd hl List.not_mem_nil, h.skipBlanks, c, cs, hrest,
      isBlank_of_skipBlanks hrest⟩
  | case3 m c cs hrest t word htoken ls stop hlexemes ih =>
    obtain ⟨hls, hstop⟩ := ih (h.skipBlanks.advance word.length)
    rw [hlexemes] at hls hstop
    refine ⟨List.forall_mem_cons.2 ⟨?_, hls⟩, hstop⟩
    exact ⟨h.skipBlanks, c, cs, hrest, isBlank_of_skipBlanks hrest⟩

theorem lexemes_eq_nil_iff :
    (∃ last, d.lexemes m = ([], .complete last)) ↔ ∀ c ∈ m.rest, Text.isBlank c = true := by
  rw [← List.dropWhile_eq_nil_iff, ← rest_skipBlanks, lexemes]
  split
  · next hrest => exact iff_of_true ⟨_, rfl⟩ hrest
  · next hrest =>
    refine iff_of_false ?_ (hrest ▸ List.cons_ne_nil _ _)
    rintro ⟨last, hlast⟩
    split at hlast <;> cases hlast

end Dialect

end DefaultLogic
