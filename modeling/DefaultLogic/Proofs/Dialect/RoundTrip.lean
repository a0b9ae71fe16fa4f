import DefaultLogic.Proofs.Dialect.Writing

/-!
# Reading what is written

* `Derives.minOperands`: junctions that are read have at least two operands.
* `Split.isName`: what is cut off as an atom is a name, which is read as an atom wherever it stands.
* `parse_render_of_minOperands`: what is written is read as it was, junctions of single operands
  aside.
* `parse_render`: **reading and writing are inverse to each other.**
-/

namespace DefaultLogic

/-! ## Operands -/

namespace Formula

theorem MinOperands.mono {m n : Nat} (hmn : m ≤ n) {f : Formula} (h : f.MinOperands n) :
    f.MinOperands m := by
  induction h with
  | atom name => exact .atom name
  | not _ ih => exact .not ih
  | junction j hlength _ ih => exact .junction j (Nat.le_trans hmn hlength) ih
  | arrow a _ _ ihl ihr => exact .arrow a ihl ihr

theorem MinOperands.collapsed_eq {f : Formula} (h : f.MinOperands 2) : f.collapsed = f := by
  induction h with
  | atom name => rfl
  | not _ ih => rw [collapsed, ih]
  | @junction fs j hlength _ ih =>
    rw [collapsed_junction, List.map_congr_left ih, List.map_id']
    rcases fs with _ | ⟨f, _ | ⟨g, fs⟩⟩
    · exact absurd hlength (by decide)
    · exact absurd hlength (Nat.lt_irrefl 1)
    · rfl
  | arrow a _ _ ihl ihr => rw [collapsed, ihl, ihr]

theorem MinOperands.chain {f g : Formula} (hf : f.MinOperands 2) (hg : g.MinOperands 2)
    (last? : Option Junction) (j : Junction) : (f.chain last? j g).MinOperands 2 := by
  have htwo : (Formula.junction j [f, g]).MinOperands 2 := by
    refine .junction j (Nat.le_refl 2) fun x hx => ?_
    rcases List.mem_pair.1 hx with rfl | rfl
    · exact hf
    · exact hg
  unfold Formula.chain
  split
  · next fs =>
    split
    · cases hf with
      | junction _ hlength hfs =>
        refine .junction j ?_ fun x hx => ?_
        · rw [List.length_append]
          exact Nat.le_add_right_of_le hlength
        · rcases List.mem_append.1 hx with hx | hx
          · exact hfs x hx
          · obtain rfl := List.mem_singleton.1 hx
            exact hg
    · exact htwo
  · exact htwo

theorem MinOperands.occurrences_ne_nil {f : Formula} (h : f.MinOperands 1) :
    f.occurrences ≠ [] := by
  induction h with
  | atom name => exact List.cons_ne_nil name []
  | not _ ih => exact ih
  | @junction fs j hlength _ ih =>
    obtain ⟨f, hf⟩ := List.exists_mem_of_length_pos hlength
    obtain ⟨name, hname⟩ := List.exists_mem_of_ne_nil _ (ih f hf)
    rw [occurrences_junction]
    exact List.ne_nil_of_mem (List.mem_flatMap_of_mem hf hname)
  | arrow a _ _ ihl _ => exact List.append_ne_nil_of_left_ne_nil ihl _

theorem occurrences_chain (last? : Option Junction) (j : Junction) (f g : Formula) :
    (f.chain last? j g).occurrences = f.occurrences ++ g.occurrences := by
  unfold chain
  split
  · split
    · simp only [occurrences_junction, List.flatMap_append, List.flatMap_singleton]
    · simp only [occurrences_junction, List.flatMap_cons, List.flatMap_nil, List.append_nil]
  · simp only [occurrences_junction, List.flatMap_cons, List.flatMap_nil, List.append_nil]

end Formula

theorem Statement.map_collapsed {s : Statement} (h : ∀ f ∈ s.formulas, f.MinOperands 2) :
    s.map Formula.collapsed = s := by
  cases s with
  | formula f => rw [map, (h f (List.mem_singleton_self f)).collapsed_eq]
  | rule r =>
    obtain ⟨p, j, c⟩ := r
    have hp := h p (by simp [formulas])
    have hj := h j (by simp [formulas])
    have hc := h c (by simp [formulas])
    rw [map, Rule.map, hp.collapsed_eq, hj.collapsed_eq, hc.collapsed_eq]

/-! ## What is derived -/

namespace Derives

variable {σ : Strength} {ts : List Token} {f : Formula}

/-- **Junctions that are read have at least two operands.** -/
theorem minOperands (h : Derives σ ts f) : f.MinOperands 2 := by
  induction h with
  | atom name => exact .atom name
  | not _ ih => exact .not ih
  | brackets _ _ ih | single _ ih | chain _ ih | equivalence _ ih => exact ih
  | link j _ _ ihf ihg => exact ihf.chain ihg _ j
  | equivalent _ _ ihf ihg | imply _ _ ihf ihg | implication _ _ ihf ihg => exact .arrow _ ihf ihg

theorem mem_of_mem_occurrences (h : Derives σ ts f) {name : String} (hname : name ∈ f.occurrences) :
    .atom name ∈ ts := by
  induction h with
  | atom => exact List.mem_singleton.2 (congrArg _ (List.mem_singleton.1 hname))
  | not _ ih => exact List.mem_cons_of_mem _ (ih hname)
  | brackets _ _ ih => exact List.mem_cons_of_mem _ (List.mem_append_left _ (ih hname))
  | single _ ih | chain _ ih | equivalence _ ih => exact ih hname
  | link _ _ _ ihf ihg =>
    rw [Formula.occurrences_chain] at hname
    rcases List.mem_append.1 hname with hname | hname
    · exact List.mem_append_left _ (ihf hname)
    · exact List.mem_append_right _ (List.mem_cons_of_mem _ (ihg hname))
  | equivalent _ _ ihf ihg | imply _ _ ihf ihg | implication _ _ ihf ihg =>
    rcases List.mem_append.1 hname with hname | hname
    · exact List.mem_append_left _ (ihf hname)
    · exact List.mem_append_right _ (List.mem_cons_of_mem _ (ihg hname))

end Derives

/-- The formulas of a statement are derived from parts of its tokens. -/
theorem DerivesStatement.exists_derives {ts : List Token} {s : Statement}
    (h : DerivesStatement ts s) : ∀ f ∈ s.formulas, ∃ us ⊆ ts, Derives .implication us f := by
  induction h with
  | formula hf =>
    intro g hg
    obtain rfl := List.mem_singleton.1 hg
    exact ⟨_, fun _ h => h, hf⟩
  | rule hf hg hk =>
    intro g hmem
    simp only [Statement.formulas, List.mem_cons, List.not_mem_nil, or_false] at hmem
    rcases hmem with rfl | rfl | rfl
    · exact ⟨_, fun t ht => List.mem_append_left _ (List.mem_append_left _ ht), hf⟩
    · exact ⟨_, fun t ht => List.mem_append_left _
        (List.mem_append_right _ (List.mem_cons_of_mem _ ht)), hg⟩
    · exact ⟨_, fun t ht => List.mem_append_right _ (List.mem_cons_of_mem _ ht), hk⟩
  | brackets b _ ih =>
    intro g hg
    obtain ⟨us, hus, hderives⟩ := ih g hg
    exact ⟨us, fun t ht => List.mem_cons_of_mem _ (List.mem_append_left _ (hus ht)), hderives⟩

namespace Dialect

variable {d : Dialect}

/-! ## Names that are read -/

theorem atom_not_mem_symbols (name : String) : .atom name ∉ d.symbols := by
  cases d <;> simp [symbols]

theorem Split.isAlpha_head {c : Char} {cs : List Char} {ts : List Token} (h : d.Split (c :: cs) ts)
    (hc : Text.isAlphanumeric c = true) : c.isAlpha = true := by
  have hsymbols : ∀ u ∈ d.symbols, (d.spell u).toList.head?.any Text.isAlphanumeric = false := by
    cases d <;> decide +kernel
  obtain ⟨t, rest, us, cut, -, -⟩ := (split_cons_iff (Text.isBlank_eq_false hc)).1 h
  rcases cut.first with ⟨u, hu, hfirst⟩ | rfl | halpha
  · rw [(Option.any_eq_false _ _).1 (hsymbols u hu) c hfirst] at hc
    cases hc
  · exact absurd hc (by decide +kernel)
  · exact halpha

theorem endsWord_of_head? {w rest : List Char}
    (h : ∀ b ∈ rest.head?, Text.isAlphanumeric b = false) : endsWord w rest = true := by
  rw [endsWord, Bool.not_eq_true', Bool.and_eq_false_iff]
  cases hhead : rest.head? with
  | none => exact .inr rfl
  | some b => exact .inr (h b hhead)

theorem fits_markup (c : Connective) {rest : List Char}
    (h : ∀ b ∈ rest.head?, Text.isAlphanumeric b = false) :
    Fits .displayMarkup (.connective c) c.markup.toList rest :=
  ⟨mem_symbols_connective c, rfl, endsWord_of_head? h⟩

theorem atomPattern_markup (c : Connective) {b : Char} (hb : b.isAlpha = true) :
    AtomPattern (c.markup.toList ++ [b]) := by
  obtain ⟨letters, hletters, -, halpha⟩ := exists_letters c
  refine ⟨['\\'], letters ++ [b], [], ?_, .inr rfl, ?_, ?_, .inl rfl⟩
  · rw [hletters, List.append_nil]
    rfl
  · exact List.append_ne_nil_of_right_ne_nil letters (List.cons_ne_nil b [])
  · intro a ha
    rcases List.mem_append.1 ha with ha | ha
    · exact halpha a ha
    · rwa [List.mem_singleton.1 ha]

/-- **What is cut off as an atom is a name**, if the rest of the text can be split. -/
theorem Split.isName {cs : List Char} {ts : List Token} (h : d.Split cs ts) :
    ∀ name, .atom name ∈ ts → d.IsName name := by
  induction h with
  | nil => exact fun _ h => absurd h List.not_mem_nil
  | blank _ _ ih => exact ih
  | @token cs rest t ts cut tail ih =>
    intro name hname
    rcases List.mem_cons.1 hname with rfl | hname
    · cases cut with
      | symbol fits => exact absurd fits.symbol (atom_not_mem_symbols name)
      | @atom word _ pattern noSymbol longest =>
        refine ⟨by rwa [String.toList_ofList], ?_⟩
        rintro rfl c
        rw [String.toList_ofList]
        constructor
        · -- A command that is no symbol here runs on in a letter, so it is not the longest atom.
          rintro rfl
          refine noSymbol _ _ rest rfl (fits_markup c fun b hb => ?_)
          obtain ⟨rest, rfl⟩ := List.head?_eq_some_iff.1 hb
          refine Bool.eq_false_iff.2 fun halnum => ?_
          have hle := longest (c.markup.toList ++ [b]) rest (List.append_assoc _ _ _)
            (atomPattern_markup c (tail.isAlpha_head halnum))
          rw [List.length_append] at hle
          exact Nat.not_succ_le_self _ hle
        · rintro digit - rfl
          refine noSymbol _ _ ('_' :: digit :: rest) (List.append_assoc _ ['_', digit] rest).symm
            (fits_markup c fun b hb => ?_)
          obtain rfl := Option.some.inj hb
          decide +kernel
    · exact ih name hname

/-! ## Round trips -/

theorem Writes.split_nil {w : List Char} {ts : List Token} (h : d.Writes w ts) : d.Split w ts := by
  have hsplit := h.split [] [] (parted_of_head? rfl w) .nil
  rwa [List.append_nil, List.append_nil] at hsplit

/-- **What is written is read as it was**, junctions of single operands aside. -/
theorem parse_render_of_minOperands {s : Statement}
    (h : ∀ f ∈ s.formulas, f.MinOperands 1 ∧ ∀ name ∈ f.occurrences, d.IsName name) :
    d.parse (d.render s) = .ok (s.map Formula.collapsed) := by
  have htells : ∀ f ∈ s.formulas, d.Tells .primary (d.written f) f.collapsed :=
    fun f hf => tells_written (h f hf).1 (h f hf).2
  refine (parse_eq_ok_iff d _ _).2 ?_
  cases s with
  | formula f =>
    obtain ⟨ts, hw, hf⟩ := htells f (List.mem_singleton_self f)
    exact ⟨ts, hw.split_nil, .formula hf.toImplication⟩
  | rule r =>
    obtain ⟨p, j, c⟩ := r
    obtain ⟨ts, hp, hpre⟩ := htells p (by simp [Statement.formulas])
    obtain ⟨us, hj, hjus⟩ := htells j (by simp [Statement.formulas])
    obtain ⟨vs, hc, hcon⟩ := htells c (by simp [Statement.formulas])
    have hrule := (hp.joined (writes_spaced mem_symbols_colon) hj (parted_to_spaced _ _)
      (parted_spaced _ _)).joined (writes_spaced mem_symbols_slash) hc (parted_to_spaced _ _)
      (parted_spaced _ _)
    have htext : (d.renderRule ⟨p, j, c⟩).toList = d.written p ++ d.spaced .colon ++ d.written j ++
        d.spaced .slash ++ d.written c := by
      rw [spaced_colon, spaced_slash, renderRule]
      simp only [String.toList_append]
      rfl
    refine ⟨_, ?_, .rule hpre.toImplication hjus.toImplication hcon.toImplication⟩
    rw [render, htext]
    exact hrule.split_nil

/-- **Reading and writing are inverse to each other.**  What is read has junctions of two operands
or more, and is read again as it is once it is written.  Any statement of names and of junctions
with operands is read as it was once it is written, its junctions of single operands being
replaced. -/
theorem parse_render (d : Dialect) :
    (∀ text s, d.parse text = .ok s →
      (∀ f ∈ s.formulas, f.MinOperands 2) ∧ d.parse (d.render s) = .ok s) ∧
    ∀ s : Statement,
      (∀ f ∈ s.formulas, f.MinOperands 1 ∧ ∀ name ∈ f.occurrences, d.IsName name) →
        d.parse (d.render s) = .ok (s.map Formula.collapsed) := by
  refine ⟨fun text s h => ?_, fun s h => parse_render_of_minOperands h⟩
  obtain ⟨ts, hsplit, hderives⟩ := (parse_eq_ok_iff d text s).1 h
  have hmin : ∀ f ∈ s.formulas, f.MinOperands 2 := by
    intro f hf
    obtain ⟨us, -, hus⟩ := hderives.exists_derives f hf
    exact hus.minOperands
  refine ⟨hmin, ?_⟩
  have hread := parse_render_of_minOperands (d := d) (s := s) fun f hf => by
    obtain ⟨us, hsub, hus⟩ := hderives.exists_derives f hf
    refine ⟨(hmin f hf).mono (Nat.le_succ 1), fun name hname => ?_⟩
    exact hsplit.isName name (hsub (hus.mem_of_mem_occurrences hname))
  rwa [Statement.map_collapsed hmin] at hread

/-- A name may start like a command, and a conjunction of one operand is read as the operand. -/
theorem parse_render_top :
    let s : Statement := .formula (.or [.atom "\\top", .and [.atom "a"]])
    let t : Statement := .formula (.or [.atom "\\top", .atom "a"])
    displayMarkup.parse (displayMarkup.render s) = .ok t ∧
      displayMarkup.parse (displayMarkup.render t) = .ok t := by
  intro s t
  have ha : IsName .displayMarkup "a" := by
    refine ⟨⟨[], ['a'], [], rfl, .inl rfl, by decide, List.all_eq_true.1 rfl, .inl rfl⟩,
      fun _ c => ?_⟩
    rcases c with _ | (_ | _) | (_ | _ | _)
    all_goals exact ⟨by decide, fun _ _ h => nomatch h⟩
  have htop : IsName .displayMarkup "\\top" := by
    refine ⟨⟨['\\'], ['t', 'o', 'p'], [], rfl, .inr rfl, by decide, List.all_eq_true.1 rfl,
      .inl rfl⟩, fun _ c => ?_⟩
    rcases c with _ | (_ | _) | (_ | _ | _)
    all_goals exact ⟨by decide, fun _ _ h => nomatch h⟩
  have hmin : (Formula.or [.atom "\\top", .and [.atom "a"]]).MinOperands 1 := by
    refine .junction .or (by decide) fun f hf => ?_
    rcases List.mem_pair.1 hf with rfl | rfl
    · exact .atom _
    · refine .junction .and (by decide) fun f hf => ?_
      rw [List.mem_singleton.1 hf]
      exact .atom _
  have hnames : ∀ name ∈ ["\\top", "a"], IsName .displayMarkup name := by
    intro name hname
    rcases List.mem_pair.1 hname with rfl | rfl
    · exact htop
    · exact ha
  have hread := (parse_render .displayMarkup).2 s fun f hf => by
    rw [List.mem_singleton.1 hf]
    exact ⟨hmin, hnames⟩
  exact ⟨hread, ((parse_render .displayMarkup).1 _ t hread).2⟩

end Dialect

end DefaultLogic
