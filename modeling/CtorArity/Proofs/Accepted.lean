import CtorArity.Proofs.Normalizing

/-!
# What the normaliser accepts

Where the normaliser leaves a JSON document, the source laid out its tokens,
and every such source leaves one (`isDocument_normalize_iff`). These sources are
more than JSON with comments: a comment may stand inside a number or a word, the
last comment need not be closed, and a comma may stand between two brackets.
-/

namespace CtorArity.Jsonc

open Json

-- ---------------------------------------------------------------------------
-- Texts in quotes
-- ---------------------------------------------------------------------------

section
variable {held s rest w g : List Char} {comma : Bool} {c : Char} {t : Token} {us : List Token}

theorem head_quoted (h : quoted s = c :: rest) : ∃ tail, s = c :: tail := by
  cases s with
  | nil => cases h
  | cons d s =>
    by_cases hquote : d = '"'
    · subst hquote
      rw [quoted_quote] at h
      exact ⟨s, congrArg (· :: s) (List.cons.inj h).1⟩
    by_cases hslash : d = '\\'
    · subst hslash
      cases s with
      | nil => exact ⟨[], congrArg (· :: []) (List.cons.inj h).1⟩
      | cons e s =>
        rw [quoted_escape] at h
        exact ⟨e :: s, congrArg (· :: e :: s) (List.cons.inj h).1⟩
    · rw [quoted_plain hquote hslash] at h
      exact ⟨s, congrArg (· :: s) (List.cons.inj h).1⟩

theorem exists_quoted_plain (hquote : c ≠ '"') (hslash : c ≠ '\\') (h : quoted s = c :: rest) :
    ∃ tail, s = c :: tail ∧ quoted tail = rest := by
  obtain ⟨tail, rfl⟩ := head_quoted h
  rw [quoted_plain hquote hslash] at h
  exact ⟨tail, rfl, (List.cons.inj h).2⟩

theorem exists_quoted_escape (h : quoted s = '\\' :: c :: rest) :
    ∃ tail, s = '\\' :: c :: tail ∧ quoted tail = rest := by
  obtain ⟨_ | ⟨d, tail⟩, rfl⟩ := head_quoted h
  · cases h
  · rw [quoted_escape] at h
    obtain ⟨-, h⟩ := List.cons.inj h
    obtain ⟨rfl, hrest⟩ := List.cons.inj h
    exact ⟨tail, rfl, hrest⟩

theorem exists_quoted_body (hw : IsBody w) (h : quoted s = w ++ '"' :: rest) :
    ∃ tail, s = w ++ '"' :: tail ∧ code [] false tail = rest := by
  induction hw generalizing s with
  | nil =>
    obtain ⟨tail, rfl⟩ := head_quoted h
    rw [quoted_quote] at h
    exact ⟨tail, rfl, (List.cons.inj h).2⟩
  | plain hcontrol hquote hslash hw ih =>
    obtain ⟨s, rfl, hbody⟩ := exists_quoted_plain hquote hslash h
    obtain ⟨tail, rfl, hrest⟩ := ih hbody
    exact ⟨tail, rfl, hrest⟩
  | escape hc hw ih =>
    obtain ⟨s, rfl, hbody⟩ := exists_quoted_escape h
    obtain ⟨tail, rfl, hrest⟩ := ih hbody
    exact ⟨tail, rfl, hrest⟩
  | @code d₁ d₂ d₃ d₄ w hcode hw ih =>
    have hplain (d : Char) (hd : d ∈ [d₁, d₂, d₃, d₄]) {s rest : List Char}
        (h : quoted s = d :: rest) : ∃ tail, s = d :: tail ∧ quoted tail = rest :=
      exists_quoted_plain (plain_of_hexDigit (hcode d hd)).1 (plain_of_hexDigit (hcode d hd)).2 h
    obtain ⟨s₁, rfl, h₁⟩ := exists_quoted_escape h
    obtain ⟨s₂, rfl, h₂⟩ := hplain d₁ (by simp) h₁
    obtain ⟨s₃, rfl, h₃⟩ := hplain d₂ (by simp) h₂
    obtain ⟨s₄, rfl, h₄⟩ := hplain d₃ (by simp) h₃
    obtain ⟨s₅, rfl, h₅⟩ := hplain d₄ (by simp) h₄
    obtain ⟨tail, rfl, hrest⟩ := ih h₅
    exact ⟨tail, rfl, hrest⟩

-- ---------------------------------------------------------------------------
-- The first token
-- ---------------------------------------------------------------------------

theorem spelling_head (hsound : t.Sound) : ∃ c w, t.spelling = c :: w ∧ Text.isBlank c = false := by
  obtain rfl | ⟨w, rfl, -⟩ | ⟨c, w, h⟩ := comma_or_text_or_unquoted hsound
  · exact ⟨',', [], rfl, rfl⟩
  · exact ⟨'"', _, rfl, rfl⟩
  · exact ⟨c, w, h.spelling, h.blank⟩

theorem blank_append_inj {g' rest' : List Char} {c' : Char} (hg : ∀ d ∈ g, Text.isBlank d = true)
    (hg' : ∀ d ∈ g', Text.isBlank d = true) (hc : Text.isBlank c = false)
    (hc' : Text.isBlank c' = false) (h : g ++ c :: rest = g' ++ c' :: rest') :
    g = g' ∧ c = c' ∧ rest = rest' := by
  have htake {g rest : List Char} {c : Char} (hg : ∀ d ∈ g, Text.isBlank d = true)
      (hc : Text.isBlank c = false) : (g ++ c :: rest).takeWhile Text.isBlank = g := by
    rw [List.takeWhile_append_of_pos hg, List.takeWhile_cons_of_neg (by simp [hc]), List.append_nil]
  have hgap : g = g' := by rw [← htake hg hc, h, htake hg' hc']
  subst hgap
  exact ⟨rfl, List.cons.inj (List.append_cancel_left h)⟩

theorem lays_blank_append (hg : ∀ d ∈ g, Text.isBlank d = true) (hc : Text.isBlank c = false)
    (h : Layout.plain.Lays us (g ++ c :: rest)) :
    IsBlank g ∧ ∃ t us' w s, us = t :: us' ∧ t.Sound ∧ t.spelling = c :: w ∧ rest = w ++ s ∧
      Layout.plain.Lays us' s := by
  generalize hs : g ++ c :: rest = s at h
  cases h with
  | nil htail =>
    have hspace : Token.isSpace c = true := htail c (by simp [← hs])
    cases hc.symm.trans (isBlank_of_isSpace hspace)
  | @cons g' t w us s hgap hspells h =>
    obtain ⟨hsound, rfl⟩ := hspells
    obtain ⟨c', w, hspelling, hc'⟩ := spelling_head hsound
    rw [hspelling] at hs
    obtain ⟨rfl, rfl, rfl⟩ :=
      blank_append_inj hg (fun d hd => isBlank_of_isSpace (hgap d hd)) hc hc' hs
    exact ⟨hgap, t, us, w, s, rfl, hsound, hspelling, rfl, h⟩

theorem lays_blank (hg : ∀ d ∈ g, Text.isBlank d = true) (h : Layout.plain.Lays us g) :
    IsBlank g ∧ us = [] := by
  cases h with
  | nil htail => exact ⟨htail, rfl⟩
  | @cons g t w us s hgap hspells h =>
    obtain ⟨hsound, rfl⟩ := hspells
    obtain ⟨c, w, hspelling, hc⟩ := spelling_head hsound
    have hblank := hg c (by simp [hspelling])
    cases hc.symm.trans hblank

theorem lays_kept (h : Layout.plain.Lays us (kept comma ++ rest)) :
    ∃ us', us = heldTokens comma ++ us' ∧ Layout.plain.Lays us' rest := by
  cases comma with
  | false => exact ⟨us, rfl, h⟩
  | true =>
    obtain ⟨-, t, us', w, s, rfl, hsound, hspelling, rfl, hrest⟩ :=
      lays_blank_append (g := []) nofun rfl h
    obtain ⟨rfl, rfl⟩ := eq_comma_of_spelling hsound hspelling
    exact ⟨us', rfl, hrest⟩

theorem lays_kept_cons (hheld : ∀ d ∈ held, Text.isBlank d = true) (hc : Text.isBlank c = false)
    (h : Layout.plain.Lays us (kept comma ++ (held.reverse ++ c :: rest))) :
    IsBlank held ∧ ∃ t us' w s, us = heldTokens comma ++ t :: us' ∧ t.Sound ∧
      t.spelling = c :: w ∧ rest = w ++ s ∧ Layout.plain.Lays us' s := by
  obtain ⟨us, rfl, hus⟩ := lays_kept h
  obtain ⟨hblank, t, us', w, s, rfl, hsound, hspelling, hrest, hs⟩ :=
    lays_blank_append (fun d hd => hheld d (List.mem_reverse.mp hd)) hc hus
  exact ⟨by simpa [IsBlank] using hblank, t, us', w, s, rfl, hsound, hspelling, hrest, hs⟩

theorem Trailing.heldTokens_append {ds ts : List Token} (h : Trailing ds ts) :
    Trailing (heldTokens comma ++ ds) (heldTokens comma ++ ts) := by
  cases comma with
  | false => exact h
  | true => exact .cons h

end

-- ---------------------------------------------------------------------------
-- The source
-- ---------------------------------------------------------------------------

theorem Filler.lays {f s : List Char} {ts : List Token} (hf : Filler f) (h : lenient.Lays ts s) :
    lenient.Lays ts (f ++ s) := by
  have hgap {g : List Char} (hg : Gap g) : Gap (f ++ g) := .cons hf hg
  cases h with
  | nil htail =>
    refine .nil ?_
    obtain (hg | ⟨hg, ht⟩) | ⟨hg, ht⟩ := htail
    · exact .tail (.gap (hgap hg))
    · rw [← List.append_assoc]
      exact .tail (.openLine (hgap hg) ht)
    · rw [← List.append_assoc]
      exact .openBlock (hgap hg) ht
  | cons hg hspells h =>
    rw [← List.append_assoc]
    exact .cons (hgap hg) hspells h

theorem lays_loose {t : Token} {w s : List Char} {ts : List Token} (ht : Loose t w)
    (h : lenient.Lays ts s) : lenient.Lays (t :: ts) (w ++ s) :=
  .cons (g := []) Gap.nil ht h

theorem lays_end {held s breaks : List Char} {comma : Bool} {us : List Token} (hs : LooseTail s)
    (hheld : ∀ d ∈ held, Text.isBlank d = true) (hbreaks : ∀ d ∈ breaks, Text.isBlank d = true)
    (h : Layout.plain.Lays us (kept comma ++ (held.reverse ++ breaks))) :
    IsBlank held ∧ ∃ ts, Trailing us (heldTokens comma ++ ts) ∧ lenient.Lays ts s := by
  obtain ⟨us, rfl, hus⟩ := lays_kept h
  have hall : ∀ d ∈ held.reverse ++ breaks, Text.isBlank d = true := by
    simpa [or_imp, forall_and] using And.intro hheld hbreaks
  obtain ⟨hblank, rfl⟩ := lays_blank hall hus
  have hheld : IsBlank held := fun d hd => hblank d (by simp [hd])
  exact ⟨hheld, [], Trailing.nil.heldTokens_append, .nil hs⟩

theorem Trailing.heldTokens_cons {ds ts : List Token} {t : Token} {comma : Bool}
    (h : Trailing ds ts) :
    Trailing (heldTokens (comma && !t.closes) ++ t :: ds) (heldTokens comma ++ t :: ts) := by
  cases comma with
  | false => exact .cons h
  | true =>
    cases hcloses : t.closes with
    | false => exact .cons (.cons h)
    | true => exact .comma hcloses h

/-- Where plain tokens are written, tokens with comments about them have been
read, and with a comma before some of the closing brackets. -/
theorem lays_of_code {held s : List Char} {comma : Bool} {us : List Token}
    (hheld : ∀ d ∈ held, Text.isBlank d = true) (h : Layout.plain.Lays us (code held comma s)) :
    IsBlank held ∧ ∃ ts, Trailing us (heldTokens comma ++ ts) ∧ lenient.Lays ts s := by
  have hnil : ∀ d ∈ ([] : List Char), Text.isBlank d = true := List.forall_mem_nil _
  induction s using scan_induction generalizing held comma us with
  | nil =>
    rw [code_nil, ← List.append_nil held.reverse] at h
    exact lays_end (.tail (.gap .nil)) hheld hnil h
  | blank c s hc ih =>
    rw [code_blank hc] at h
    obtain ⟨hblank, ts, hus, hs⟩ := ih (List.forall_mem_cons.mpr ⟨hc, hheld⟩) h
    obtain ⟨hc, hblank⟩ := List.forall_mem_cons.mp hblank
    exact ⟨hblank, ts, hus, (Filler.space hc).lays hs⟩
  | comma s ih =>
    rw [code_comma] at h
    obtain ⟨us, rfl, hrest⟩ := lays_kept h
    obtain ⟨hblank, ts, hus, hs⟩ := ih hheld hrest
    have hcomma : Loose .comma [','] := .whole trivial
    exact ⟨hblank, .comma :: ts, hus.heldTokens_append, lays_loose hcomma hs⟩
  | quote s ih =>
    rw [code_quote] at h
    obtain ⟨hblank, t, us, w, rest, rfl, hsound, hspelling, hquoted, hus⟩ :=
      lays_kept_cons hheld rfl h
    obtain ⟨body, rfl, hbody, rfl⟩ := eq_text_of_spelling hsound hspelling
    rw [List.append_assoc] at hquoted
    obtain ⟨tail, rfl, rfl⟩ := exists_quoted_body hbody hquoted
    have hsuffix : tail <:+ body ++ '"' :: tail := ⟨body ++ ['"'], by simp⟩
    obtain ⟨-, ts, hts, hs⟩ := ih tail hsuffix hnil hus
    refine ⟨hblank, .text body :: ts, Trailing.heldTokens_append (.cons hts), ?_⟩
    simpa [Token.spelling] using lays_loose (.whole hsound) hs
  | solid c s hc ih =>
    rw [code_solid hc] at h
    obtain ⟨hblank, t, us, w, rest, rfl, hsound, hspelling, hcode, hus⟩ :=
      lays_kept_cons hheld hc.blank h
    have ht := unquoted_of_spelling hsound hspelling hc.comma hc.quote
    -- The token goes on without a gap in what is written, so it does in the source
    -- but for comments that leave nothing.
    obtain ⟨b, tail, rfl, hb, rfl⟩ := exists_interrupted ht.inner hcode
    obtain ⟨-, ts, hts, hs⟩ := ih tail (List.suffix_append b tail) hnil hus
    refine ⟨hblank, t :: ts, ?_, lays_loose (.interrupted hsound hspelling hc.quote hb) hs⟩
    rw [ht.closes]
    exact hts.heldTokens_cons
  | line t s ht ih =>
    rw [code_line ht] at h
    obtain ⟨hblank, ts, hus, hs⟩ := ih (List.forall_mem_cons.mpr ⟨by decide, hheld⟩) h
    refine ⟨(List.forall_mem_cons.mp hblank).2, ts, hus, ?_⟩
    simpa using (Filler.line ht).lays hs
  | openLine t ht =>
    rw [code_openLine ht, ← List.append_nil held.reverse] at h
    exact lays_end (.tail (.openLine .nil ht)) hheld hnil h
  | block t s ht ih =>
    rw [code_block ht] at h
    obtain ⟨hblank, ts, hus, hs⟩ := ih (forall_mem_held rfl hheld) h
    refine ⟨fun d hd => hblank d (by simp [hd]), ts, hus, ?_⟩
    simpa using (Filler.block ht).lays hs
  | openBlock t ht =>
    rw [code_openBlock ht] at h
    exact lays_end (.openBlock .nil ht) hheld (forall_mem_lineBreaks rfl) h

theorem exists_lays_of_normalize {v : Value} {source : String}
    (h : Layout.plain.Lays v.tokens (normalize source).toList) :
    ∃ ts, Trailing v.tokens ts ∧ lenient.Lays ts source.toList := by
  rw [toList_normalize] at h
  exact (lays_of_code (List.forall_mem_nil _) h).2

/-- If a JSON document is left, the source lays out its tokens, with comments
about them and a comma before some of the closing brackets. -/
theorem lenient_of_isDocument {source : String} (h : IsDocument (normalize source).toList) :
    ∃ v ts, Layout.plain.Lays (Value.tokens v) (normalize source).toList ∧
      Trailing v.tokens ts ∧ lenient.Lays ts source.toList := by
  obtain ⟨v, hv⟩ := h
  obtain ⟨ts, hts, hs⟩ := exists_lays_of_normalize hv
  exact ⟨v, ts, hv, hts, hs⟩

def twelve : Numeral := ⟨['1', '2'], .positive ⟨['1', '2'], [],
  .digits rfl (by decide) (by simp [AllDigits]), ⟨[], [], .absent, .absent, rfl⟩, rfl⟩⟩

theorem lenient_of_isDocument_twelve :
    ∃ v ts, Layout.plain.Lays (Value.tokens v) (normalize "[1/**/2,]/*").toList ∧
      Trailing v.tokens ts ∧ lenient.Lays ts "[1/**/2,]/*".toList := by
  refine lenient_of_isDocument ⟨.array [.number twelve], ?_⟩
  exact lays_plain (t := .openBracket) trivial <| lays_plain (t := .number twelve.1) twelve.2 <|
    lays_plain (t := .closeBracket) trivial <| .nil (List.forall_mem_nil _)

theorem isDocument_normalize_iff {source : String} :
    IsDocument (normalize source).toList ↔
      ∃ v ts, Trailing (Value.tokens v) ts ∧ lenient.Lays ts source.toList := by
  constructor
  · rintro ⟨v, hv⟩
    exact ⟨v, exists_lays_of_normalize hv⟩
  · rintro ⟨v, ts, hts, hs⟩
    exact ⟨v, lays_normalize hts hs⟩

-- ---------------------------------------------------------------------------
-- The limits
-- ---------------------------------------------------------------------------

/-- JSON with comments: comments are closed and stand between tokens, and a
comma is added only after the last part of what has parts. -/
def IsCommented (s : List Char) : Prop :=
  ∃ v ts, Trailing (Value.tokens v) ts ∧
    ts.IsChain (fun a b => ¬ (a.opens = true ∧ b = .comma)) ∧ commented.Lays ts s

theorem head_gap {g : List Char} (hg : Gap g) :
    ∀ c ∈ g.head?, Token.isSpace c = true ∨ c = '/' := by
  cases hg with
  | nil => nofun
  | cons hf hg =>
    cases hf with
    | space hc =>
      rintro _ ⟨⟩
      exact .inl hc
    | line ht | block ht =>
      rintro _ ⟨⟩
      exact .inr rfl

theorem lays_commented_cons {t : Token} {ts : List Token} {c : Char} {s : List Char}
    (h : commented.Lays (t :: ts) (c :: s)) (hspace : Token.isSpace c = false) (hslash : c ≠ '/') :
    ∃ rest, c :: s = t.spelling ++ rest ∧ commented.Lays ts rest := by
  generalize hs : c :: s = u at h
  cases h with
  | @cons g t w ts s hgap hspells h =>
    obtain ⟨-, rfl⟩ := hspells
    cases g with
    | nil => exact ⟨s, rfl, h⟩
    | cons d g =>
      obtain ⟨rfl, -⟩ := List.cons.inj hs
      obtain hc | hc := head_gap hgap c rfl
      · cases hspace.symm.trans hc
      · exact absurd hc hslash

theorem not_tail_openBlock : ¬ Tail ['/', '*'] := by
  intro h
  generalize hs : ['/', '*'] = e at h
  cases h with
  | gap hg =>
    cases hg with
    | nil => cases hs
    | cons hf hg =>
      cases hf with
      | space hc =>
        obtain ⟨rfl, -⟩ := List.cons.inj hs
        cases hc
      | line ht => cases (List.cons.inj (List.cons.inj hs).2).1
      | block ht => simp at hs
  | @openLine g t hg ht =>
    have hlength := congrArg List.length hs
    obtain rfl : g = [] := by
      refine List.eq_nil_of_length_eq_zero ?_
      simp at hlength
      omega
    cases (List.cons.inj (List.cons.inj hs).2).1

theorem Trailing.of_single {t : Token} {ts : List Token} (h : Trailing [t] ts)
    (ht : t.closes = false) : ts = [t] := by
  obtain _ | ⟨⟨⟩⟩ | ⟨hcloses, -⟩ := h
  · rfl
  · cases ht.symm.trans hcloses

/-- A JSON document is left though the source is no JSON with comments. -/
def MadeUp (source : String) : Prop :=
  IsDocument (normalize source).toList ∧ ¬ IsCommented source.toList

theorem madeUp_comma : MadeUp "[,]" := by
  constructor
  · exact ⟨.array [], lays_plain (t := .openBracket) trivial <|
      lays_plain (t := .closeBracket) trivial <| .nil (List.forall_mem_nil _)⟩
  · rintro ⟨v, ts, hts, hchain, hs⟩
    have htokens : v.tokens = [.openBracket, .closeBracket] :=
      (tokens_normalize hts (lenient_of_commented hs)).symm.trans (by decide +kernel)
    rw [htokens] at hts
    obtain _ | ⟨hts⟩ | ⟨⟨⟩⟩ := hts
    obtain _ | ⟨⟨⟩⟩ | ⟨-, ⟨⟩⟩ := hts
    · obtain ⟨rest, hrest, hs⟩ := lays_commented_cons hs rfl (by decide)
      obtain rfl : [',', ']'] = rest := (List.cons.inj hrest).2
      obtain ⟨rest, hrest, -⟩ := lays_commented_cons hs rfl (by decide)
      cases hrest
    · exact (List.isChain_cons.mp hchain).1 .comma rfl ⟨rfl, rfl⟩

theorem madeUp_interrupted : MadeUp "1/**/2" := by
  constructor
  · exact ⟨.number twelve, lays_plain (t := .number twelve.1) twelve.2 <|
      .nil (List.forall_mem_nil _)⟩
  · rintro ⟨v, ts, hts, -, hs⟩
    have htokens : v.tokens = [.number ['1', '2']] :=
      (tokens_normalize hts (lenient_of_commented hs)).symm.trans (by decide +kernel)
    rw [htokens] at hts
    obtain rfl := hts.of_single rfl
    obtain ⟨rest, hrest, -⟩ := lays_commented_cons hs rfl (by decide)
    cases hrest

theorem madeUp_open : MadeUp "1/*" := by
  constructor
  · exact ⟨.number one, lays_plain (t := .number one.1) one.2 <| .nil (List.forall_mem_nil _)⟩
  · rintro ⟨v, ts, hts, -, hs⟩
    have htokens : v.tokens = [.number ['1']] :=
      (tokens_normalize hts (lenient_of_commented hs)).symm.trans (by decide +kernel)
    rw [htokens] at hts
    obtain rfl := hts.of_single rfl
    obtain ⟨rest, hrest, htail⟩ := lays_commented_cons hs rfl (by decide)
    obtain rfl : ['/', '*'] = rest := (List.cons.inj hrest).2
    cases htail with
    | nil htail => exact not_tail_openBlock htail

theorem madeUp_sources : MadeUp "[,]" ∧ MadeUp "1/**/2" ∧ MadeUp "1/*" :=
  ⟨madeUp_comma, madeUp_interrupted, madeUp_open⟩

end CtorArity.Jsonc
