import DefaultLogic.Json.Reader
import Mathlib.Data.List.TakeWhile

/-!
# Documents are read as they are written

Readers return what they have read and the rest of the text, with a proof that it is shorter.  Here
this is a relation, with one lemma for each way in which a document goes on.  What is written for a
document is read as that document in front of any rest.

* `ReadsPieces.escape`: an escaped character is read as that character.
* `readsValue_quote`: a quoted text is read as that text.
* `ReadsElements.cons`, `ReadsMembers.cons`: the parts of a document are read one after the other.
* `IsTextual.readsValue`: so what is written for a document of texts is read as it was.
* `parse?_render_append`: **a written document is read as it was, whatever blanks follow it.**
-/

namespace DefaultLogic.Json

/-- The pieces of a string are read up to its closing quote, and `rest` is left. -/
def ReadsPieces (cs : List Char) (ps : List Piece) (rest : List Char) : Prop :=
  ∃ h, pieces cs = some (ps, ⟨rest, h⟩)

def ReadsValue (cs : List Char) (j : Json) (rest : List Char) : Prop :=
  ∃ h, value cs = some (j, ⟨rest, h⟩)

def ReadsElements (first : Bool) (cs : List Char) (es : List Json) (rest : List Char) : Prop :=
  ∃ h, elements first cs = some (es, ⟨rest, h⟩)

def ReadsMembers (first : Bool) (cs : List Char) (ms : List (Option String × Json))
    (rest : List Char) : Prop :=
  ∃ h, members first cs = some (ms, ⟨rest, h⟩)

variable {cs rest : List Char} {ps : List Piece} {first : Bool} {e : Json} {es : List Json}
  {ms : List (Option String × Json)}

/-! ## Strings -/

theorem readsPieces_nil (rest : List Char) : ReadsPieces ('"' :: rest) [] rest :=
  ⟨Nat.lt_succ_self _, by rw [pieces]⟩

theorem ReadsPieces.raw (h : ReadsPieces cs ps rest) {c : Char} (hcontrol : ¬c.toNat < 0x20)
    (hquote : c ≠ '"') (hslash : c ≠ '\\') : ReadsPieces (c :: cs) (.char c :: ps) rest := by
  obtain ⟨hlt, h⟩ := h
  have hraw : ¬(decide (c.toNat < 0x20) || decide (c = '\\')) = true := by
    rw [Bool.or_eq_true, decide_eq_true_iff, decide_eq_true_iff]
    exact not_or_intro hcontrol hslash
  refine ⟨Nat.lt_succ_of_lt hlt, ?_⟩
  rw [pieces, if_neg hraw, h]
  · rfl
  · exact hquote
  · exact fun _ _ _ _ _ hc _ => hslash hc
  · exact fun _ _ hc _ => hslash hc

theorem ReadsPieces.letter (h : ReadsPieces cs ps rest) {b c : Char} (hb : unescape? b = some c) :
    ReadsPieces ('\\' :: b :: cs) (.char c :: ps) rest := by
  obtain ⟨hlt, h⟩ := h
  refine ⟨Nat.lt_succ_of_lt (Nat.lt_succ_of_lt hlt), ?_⟩
  rw [pieces, hb, h]
  · rfl
  · rintro a b c d cs rfl
    cases hb

theorem hexValue?_hexDigit (n : Nat) : hexValue? (hexDigit n) = some (n % 16) := by
  have hdigits : ∀ k < 16, hexValue? k.digitChar = some k := by decide
  exact hdigits _ (Nat.mod_lt n (by decide))

theorem ReadsPieces.control (h : ReadsPieces cs ps rest) {c : Char} (hc : c.toNat < 0x20) :
    ReadsPieces
      ('\\' :: 'u' :: '0' :: '0' :: hexDigit (c.toNat / 16) :: hexDigit c.toNat :: cs)
      (.char c :: ps) rest := by
  obtain ⟨hlt, h⟩ := h
  have hzero : hexValue? '0' = some 0 := by decide
  have hcode : ((0 * 16 + 0) * 16 + c.toNat / 16 % 16) * 16 + c.toNat % 16 = c.toNat := by omega
  have hpiece : codePiece c.toNat = .char c := by
    rw [codePiece, if_neg (by simp; omega), Char.ofNat_toNat]
  refine ⟨by simp only [List.length_cons]; omega, ?_⟩
  rw [pieces, hzero, hexValue?_hexDigit, hexValue?_hexDigit, h]
  simp only [Option.bind_eq_bind, Option.bind_some, hcode, hpiece]

/-- **An escaped character is read as that character.** -/
theorem ReadsPieces.escape (h : ReadsPieces cs ps rest) (c : Char) :
    ReadsPieces (Json.escape c ++ cs) (.char c :: ps) rest := by
  unfold Json.escape
  split
  · exact h.letter rfl
  · exact h.letter rfl
  · exact h.letter rfl
  · exact h.letter rfl
  · exact h.letter rfl
  · exact h.letter rfl
  · exact h.letter rfl
  · next hquote hslash _ _ _ _ _ =>
    split
    · next hc => exact h.control hc
    · next hc => exact h.raw hc hquote hslash

theorem readsPieces_quoted (s rest : List Char) :
    ReadsPieces (s.flatMap escape ++ '"' :: rest) (s.map .char) rest := by
  induction s with
  | nil => exact readsPieces_nil rest
  | cons c s ih =>
    rw [List.flatMap_cons, List.append_assoc, List.map_cons]
    exact ih.escape c

theorem join_map_char (s : List Char) : join (s.map .char) = some s := by
  induction s with
  | nil => rfl
  | cons c s ih => rw [List.map_cons, join, ih, Option.map_some]

theorem toList_quote (s : String) :
    (quote s).toList = '"' :: (s.toList.flatMap escape ++ ['"']) := by
  simp only [quote, String.toList_append, String.toList_ofList, List.append_assoc]
  rfl

/-- **A quoted text is read as that text.** -/
theorem readsValue_quote (s : String) (rest : List Char) :
    ReadsValue ((quote s).toList ++ rest) (.string s) rest := by
  obtain ⟨hlt, h⟩ := readsPieces_quoted s.toList rest
  rw [toList_quote, List.cons_append, List.append_assoc]
  refine ⟨Nat.lt_succ_of_lt hlt, ?_⟩
  rw [value]
  change (pieces (_ ++ '"' :: rest)).bind _ = _
  rw [h]
  simp only [Option.bind_some, join_map_char, String.ofList_toList]

/-! ## Elements and members -/

theorem readsElements_nil (rest : List Char) : ReadsElements true (']' :: rest) [] rest :=
  ⟨Nat.lt_succ_self _, by rw [elements]; rfl⟩

section

variable {r : List Char} (hcs : ∀ r', skipSpaces cs ≠ ']' :: r')

include hcs

theorem ReadsElements.last (h : ReadsValue cs e (']' :: rest)) :
    ReadsElements first cs [e] rest := by
  obtain ⟨hlt, h⟩ := h
  refine ⟨Nat.lt_of_succ_lt hlt, ?_⟩
  rw [elements]
  split
  · next heq => exact absurd heq (hcs _)
  · rw [h]
    rfl

theorem ReadsElements.cons (h : ReadsValue cs e (',' :: r)) (hes : ReadsElements false r es rest) :
    ReadsElements first cs (e :: es) rest := by
  obtain ⟨hlt, h⟩ := h
  obtain ⟨hlt', hes⟩ := hes
  refine ⟨Nat.lt_trans hlt' (Nat.lt_of_succ_lt hlt), ?_⟩
  rw [elements]
  split
  · next heq => exact absurd heq (hcs _)
  · rw [h]
    change (elements false r).bind _ = _
    rw [hes]
    rfl

end

theorem readsMembers_nil (rest : List Char) : ReadsMembers true ('\x7d' :: rest) [] rest :=
  ⟨Nat.lt_succ_self _, by rw [members]; rfl⟩

section

variable {key : List Char} {r r' : List Char} {v : Json} (hkey : ReadsPieces cs ps (':' :: r))
  (hjoin : join ps = some key)

include hkey hjoin

theorem ReadsMembers.last (hv : ReadsValue r v ('\x7d' :: rest)) :
    ReadsMembers first ('"' :: cs) [(some (String.ofList key), v)] rest := by
  obtain ⟨hlt, hkey⟩ := hkey
  obtain ⟨hlt', hv⟩ := hv
  simp only [List.length_cons] at hlt hlt'
  refine ⟨by rw [List.length_cons]; omega, ?_⟩
  rw [members]
  change (pieces cs).bind _ = _
  rw [hkey]
  change (value r).bind _ = _
  rw [hv, hjoin]
  rfl

theorem ReadsMembers.cons (hv : ReadsValue r v (',' :: r')) (hms : ReadsMembers false r' ms rest) :
    ReadsMembers first ('"' :: cs) ((some (String.ofList key), v) :: ms) rest := by
  obtain ⟨hlt, hkey⟩ := hkey
  obtain ⟨hlt', hv⟩ := hv
  obtain ⟨hlt'', hms⟩ := hms
  simp only [List.length_cons] at hlt hlt'
  refine ⟨by rw [List.length_cons]; omega, ?_⟩
  rw [members]
  change (pieces cs).bind _ = _
  rw [hkey]
  change (value r).bind _ = _
  rw [hv]
  change (members false r').bind _ = _
  rw [hms, hjoin]
  rfl

end

/-! ## Documents -/

/-- A document of arrays and objects of texts, all of whose keys are texts. -/
inductive IsTextual : Json → Prop
  | string (s : String) : IsTextual (.string s)
  | array {es : List Json} (h : ∀ e ∈ es, IsTextual e) : IsTextual (.array es)
  | object {ms : List (String × Json)} (h : ∀ m ∈ ms, IsTextual m.2) :
    IsTextual (.object (ms.map fun m => (some m.1, m.2)))

theorem isTextual_texts (ss : List String) : IsTextual (texts ss) :=
  .array (List.forall_mem_map.2 fun s _ => .string s)

theorem toList_render_array (es : List Json) :
    (array es).render.toList =
      '[' :: ([','].intercalate (es.map fun e => e.render.toList) ++ [']']) := by
  rw [render_array]
  simp only [String.toList_append, String.toList_intercalate, List.map_map, List.append_assoc]
  rfl

/-- The written form of a member after its first quote. -/
def memberChars (m : String × Json) : List Char :=
  m.1.toList.flatMap escape ++ '"' :: ':' :: m.2.render.toList

theorem toList_render_object (ms : List (String × Json)) :
    (object (ms.map fun m => (some m.1, m.2))).render.toList =
      '\x7b' :: ([','].intercalate (ms.map fun m => '"' :: memberChars m) ++ ['\x7d']) := by
  have hmember : ∀ m : String × Json,
      (renderKey (some m.1) ++ ":" ++ m.2.render).toList = '"' :: memberChars m := by
    intro m
    simp only [renderKey, String.toList_append, toList_quote, List.append_assoc, memberChars,
      List.cons_append]
    rfl
  rw [render_object]
  simp only [String.toList_append, String.toList_intercalate, List.map_map, List.append_assoc,
    Function.comp_def, hmember]
  rfl

theorem IsTextual.skipSpaces_ne {j : Json} (h : IsTextual j) (rest r : List Char) :
    skipSpaces (j.render.toList ++ rest) ≠ ']' :: r := by
  have hquote : '"' ≠ ']' := by decide
  have hbracket : '[' ≠ ']' := by decide
  have hbrace : '\x7b' ≠ ']' := by decide
  intro hends
  cases h with
  | string s =>
    rw [render, toList_quote] at hends
    exact hquote (List.head_eq_of_cons_eq hends)
  | array _ =>
    rw [toList_render_array] at hends
    exact hbracket (List.head_eq_of_cons_eq hends)
  | object _ =>
    rw [toList_render_object] at hends
    exact hbrace (List.head_eq_of_cons_eq hends)

theorem readsElements_intercalate {es : List Json} (hne : es ≠ [])
    (h : ∀ e ∈ es, (∀ rest, ReadsValue (e.render.toList ++ rest) e rest) ∧
      ∀ rest r, skipSpaces (e.render.toList ++ rest) ≠ ']' :: r) (first : Bool)
    (rest : List Char) :
    ReadsElements first ([','].intercalate (es.map fun e => e.render.toList) ++ ']' :: rest) es
      rest := by
  induction es generalizing first with
  | nil => exact absurd rfl hne
  | cons e es ih =>
    obtain ⟨hreads, hstarts⟩ := h e List.mem_cons_self
    cases es with
    | nil =>
      rw [List.map_singleton, List.intercalate_singleton]
      exact .last (hstarts _) (hreads _)
    | cons e' es =>
      have htail := ih (List.cons_ne_nil e' es) (fun x hx => h x (List.mem_cons_of_mem e hx)) false
      rw [List.map_cons, List.map_cons, List.intercalate_cons_cons, List.append_assoc,
        List.append_assoc]
      exact .cons (hstarts _) (hreads _) htail

theorem readsMembers_intercalate {ms : List (String × Json)} (hne : ms ≠ [])
    (h : ∀ m ∈ ms, ∀ rest, ReadsValue (m.2.render.toList ++ rest) m.2 rest) (first : Bool)
    (rest : List Char) :
    ReadsMembers first ([','].intercalate (ms.map fun m => '"' :: memberChars m) ++ '\x7d' :: rest)
      (ms.map fun m => (some m.1, m.2)) rest := by
  induction ms generalizing first with
  | nil => exact absurd rfl hne
  | cons m ms ih =>
    have hkey : ∀ rest, ReadsPieces (memberChars m ++ rest) (m.1.toList.map .char)
        (':' :: (m.2.render.toList ++ rest)) := by
      intro rest
      rw [memberChars, List.append_assoc]
      exact readsPieces_quoted _ _
    have hjoin := join_map_char m.1.toList
    have hvalue := h m List.mem_cons_self
    have hname : some (String.ofList m.1.toList) = some m.1 := by
      rw [String.ofList_toList]
    cases ms with
    | nil =>
      rw [List.map_singleton, List.intercalate_singleton, List.map_singleton, ← hname]
      exact .last (hkey _) hjoin (hvalue _)
    | cons m' ms =>
      have htail := ih (List.cons_ne_nil m' ms) (fun x hx => h x (List.mem_cons_of_mem m hx)) false
      rw [List.map_cons, List.map_cons, List.intercalate_cons_cons, List.append_assoc,
        List.append_assoc, List.map_cons, ← hname]
      exact .cons (hkey _) hjoin (hvalue _) htail

/-- **What is written for a document is read as that document**, in front of any rest. -/
theorem IsTextual.readsValue {j : Json} (h : IsTextual j) (rest : List Char) :
    ReadsValue (j.render.toList ++ rest) j rest := by
  induction h generalizing rest with
  | string s => exact readsValue_quote s rest
  | @array es hes ih =>
    have helements : ReadsElements true
        ([','].intercalate (es.map fun e => e.render.toList) ++ ']' :: rest) es rest := by
      by_cases hne : es = []
      · subst hne
        exact readsElements_nil rest
      · exact readsElements_intercalate hne
          (fun e he => ⟨ih e he, (hes e he).skipSpaces_ne⟩) true rest
    obtain ⟨hlt, helements⟩ := helements
    rw [toList_render_array, List.cons_append, List.append_assoc]
    refine ⟨Nat.lt_succ_of_lt hlt, ?_⟩
    rw [value]
    change (elements true (_ ++ ']' :: rest)).bind _ = _
    rw [helements]
    rfl
  | @object ms _ ih =>
    have hmembers : ReadsMembers true
        ([','].intercalate (ms.map fun m => '"' :: memberChars m) ++ '\x7d' :: rest)
        (ms.map fun m => (some m.1, m.2)) rest := by
      by_cases hne : ms = []
      · subst hne
        exact readsMembers_nil rest
      · exact readsMembers_intercalate hne ih true rest
    obtain ⟨hlt, hmembers⟩ := hmembers
    rw [toList_render_object, List.cons_append, List.append_assoc]
    refine ⟨Nat.lt_succ_of_lt hlt, ?_⟩
    rw [value]
    change (members true (_ ++ '\x7d' :: rest)).bind _ = _
    rw [hmembers]
    rfl

/-- **A written document is read as it was, whatever blanks follow it.** -/
theorem parse?_render_append {j : Json} (h : IsTextual j) {blanks : String}
    (hblanks : ∀ c ∈ blanks.toList, isSpace c = true) : parse? (j.render ++ blanks) = some j := by
  have hreads : ReadsValue (j.render ++ blanks).toList j blanks.toList := by
    rw [String.toList_append]
    exact h.readsValue blanks.toList
  have hskip : skipSpaces blanks.toList = [] := List.dropWhile_eq_nil_iff.2 hblanks
  obtain ⟨hlt, hvalue⟩ := hreads
  rw [parse?, hvalue]
  simp only [Option.bind_eq_bind, Option.bind_some, hskip, List.isEmpty_nil, if_true]

end DefaultLogic.Json
