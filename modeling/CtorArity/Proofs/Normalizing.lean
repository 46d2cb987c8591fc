import CtorArity.Config
import CtorArity.Proofs.Lexing
import CtorArity.Proofs.Scanning

/-!
# Normalising JSON with comments

In JSON with comments, spaces and comments stand between the tokens of a value
and a further comma may stand before a closing bracket. The normaliser leaves
the tokens of the value, laid out plainly. The scanner holds a comma and blank
characters back, so the induction over the layout is about any of these held at
its start (`lays_code`).
-/

namespace CtorArity.Jsonc

open Json

-- ---------------------------------------------------------------------------
-- JSON with comments
-- ---------------------------------------------------------------------------

/-- What stands for nothing: a space or a comment. -/
inductive Filler : List Char → Prop
  | space (hc : Token.isSpace c = true) : Filler [c]
  | line (ht : NoLineBreak t) : Filler ('/' :: '/' :: (t ++ ['\n']))
  | block (ht : NoBlockEnd t) : Filler ('/' :: '*' :: (t ++ ['*', '/']))

inductive Gap : List Char → Prop
  | nil : Gap []
  | cons (hf : Filler f) (hg : Gap g) : Gap (f ++ g)

/-- The last comment may end with the text. -/
inductive Tail : List Char → Prop
  | gap (hg : Gap g) : Tail g
  | openLine (hg : Gap g) (ht : NoLineBreak t) : Tail (g ++ '/' :: '/' :: t)

/-- Spaces and comments between tokens. -/
def commented : Layout := ⟨Gap, Token.SpelledBy, Tail⟩

/-- A token that may have comments inside, unless it is a text. -/
inductive Loose : Token → List Char → Prop
  | whole (hsound : t.Sound) : Loose t t.spelling
  | interrupted (hsound : t.Sound) (hspelling : t.spelling = c :: w) (hquote : c ≠ '"')
    (h : Interrupted w b) : Loose t (c :: b)

theorem Loose.sound {t : Token} {w : List Char} (h : Loose t w) : t.Sound := by
  obtain h | h := h <;> exact h

theorem Loose.comma {w : List Char} (h : Loose .comma w) : w = [','] := by
  cases h with
  | whole => rfl
  | interrupted hsound hspelling hquote h =>
    obtain ⟨rfl, rfl⟩ := List.cons.inj hspelling
    cases h
    rfl

/-- The last comment need not be closed. -/
inductive LooseTail : List Char → Prop
  | tail (h : Tail e) : LooseTail e
  | openBlock (hg : Gap g) (ht : NoBlockEnd t) : LooseTail (g ++ '/' :: '*' :: t)

/-- Comments inside numbers and words, too. -/
def lenient : Layout := ⟨Gap, Loose, LooseTail⟩

theorem gap_of_isBlank {g : List Char} (hg : IsBlank g) : Gap g := by
  induction g with
  | nil => exact .nil
  | cons c g ih =>
    obtain ⟨hc, hg⟩ := List.forall_mem_cons.mp hg
    exact .cons (.space hc) (ih hg)

theorem commented_of_plain {ts : List Token} {s : List Char} (h : Layout.plain.Lays ts s) :
    commented.Lays ts s :=
  h.mono (l := Layout.plain) (fun _ => gap_of_isBlank) (fun _ _ => id)
    fun _ he => .gap (gap_of_isBlank he)

theorem lenient_of_commented {ts : List Token} {s : List Char} (h : commented.Lays ts s) :
    lenient.Lays ts s :=
  h.mono (l := commented) (fun _ => id) (fun _ _ hw => hw.2 ▸ .whole hw.1) fun _ => .tail

/-- Tokens with a further comma right before some of the closing brackets. -/
inductive Trailing : List Token → List Token → Prop
  | nil : Trailing [] []
  | cons (h : Trailing ds ts) : Trailing (t :: ds) (t :: ts)
  | comma (hcloses : t.closes = true) (h : Trailing ds ts) : Trailing (t :: ds) (.comma :: t :: ts)

-- ---------------------------------------------------------------------------
-- Tokens in the scanner
-- ---------------------------------------------------------------------------

section
variable {c : Char} {w s held : List Char} {comma : Bool} {t : Token}

theorem isBlank_of_isSpace (hc : Token.isSpace c = true) : Text.isBlank c = true := by
  simp only [Token.isSpace, Bool.or_eq_true, beq_iff_eq] at hc
  rcases hc with ((rfl | rfl) | rfl) | rfl <;> decide

theorem isInner_of_next? {phase next : Token.NumberPhase} (h : phase.next? c = some next) :
    isInner c = true := by
  have hchars : c.isDigit = true ∨ c = '.' ∨ (c = 'e' ∨ c = 'E') ∨ c = '+' ∨ c = '-' := by
    cases phase <;> simp only [Token.NumberPhase.next?, Bool.or_eq_true, beq_iff_eq] at h <;>
      split_ifs at h <;> simp_all
  obtain hc | rfl | (rfl | rfl) | rfl | rfl := hchars
  · exact isInner_of_isDigit hc
  all_goals rfl

theorem isInner_of_rest {phase : Token.NumberPhase} (hw : phase.Rest w) :
    ∀ c ∈ w, isInner c = true := by
  induction w generalizing phase with
  | nil => nofun
  | cons c w ih =>
    obtain ⟨next, hnext, hrest⟩ := (phase.rest_cons c w).mp hw
    exact List.forall_mem_cons.mpr ⟨isInner_of_next? hnext, ih hrest⟩

theorem isInner_of_isNumber (hw : IsNumber w) : ∀ c ∈ w, isInner c = true := by
  have hrest {w : List Char} (h : Then IsWhole (Then IsFraction IsExponent) w) :
      ∀ c ∈ w, isInner c = true := by
    change Token.NumberPhase.Rest .minus w at h
    exact isInner_of_rest h
  obtain h | h := hw
  · exact hrest h
  · exact List.forall_mem_cons.mpr ⟨by decide, hrest h⟩

theorem plain_of_hexDigit (hc : (Escape.hexDigit? c).isSome = true) : c ≠ '"' ∧ c ≠ '\\' := by
  constructor <;> (rintro rfl; revert hc; decide)

theorem quoted_body (hw : IsBody w) : quoted (w ++ '"' :: s) = w ++ '"' :: code [] false s := by
  induction hw with
  | nil => exact quoted_quote
  | plain hcontrol hquote hslash h ih => rw [List.cons_append, quoted_plain hquote hslash, ih]; rfl
  | escape hc h ih => rw [List.cons_append, List.cons_append, quoted_escape, ih]; rfl
  | @code d₁ d₂ d₃ d₄ w hcode h ih =>
    have hplain (d : Char) (hd : d ∈ [d₁, d₂, d₃, d₄]) (rest : List Char) :
        quoted (d :: rest) = d :: quoted rest :=
      quoted_plain (plain_of_hexDigit (hcode d hd)).1 (plain_of_hexDigit (hcode d hd)).2
    simp only [List.cons_append]
    rw [quoted_escape, hplain d₁ (by simp), hplain d₂ (by simp), hplain d₃ (by simp),
      hplain d₄ (by simp), ih]

structure Unquoted (t : Token) (c : Char) (w : List Char) : Prop where
  spelling : t.spelling = c :: w
  blank : Text.isBlank c = false
  comma : c ≠ ','
  quote : c ≠ '"'
  slash : c ≠ '/'
  closes : State.closes c = t.closes
  inner : ∀ d ∈ w, isInner d = true

theorem Unquoted.solid (h : Unquoted t c w) (s : List Char) : Solid c s :=
  ⟨h.blank, h.comma, h.quote, fun hslash => absurd hslash h.slash⟩

theorem Unquoted.of_inner (hspelling : t.spelling = c :: w) (hcloses : t.closes = false)
    (h : ∀ d ∈ c :: w, isInner d = true) : Unquoted t c w := by
  obtain ⟨hc, hw⟩ := List.forall_mem_cons.mp h
  obtain ⟨hblank, hcomma, hquote, hslash, hc⟩ := isInner_iff.mp hc
  exact ⟨hspelling, hblank, hcomma, hquote, hslash, hc.trans hcloses.symm, hw⟩

theorem comma_or_text_or_unquoted (hsound : t.Sound) :
    t = .comma ∨ (∃ w, t = .text w ∧ IsBody w) ∨ ∃ c w, Unquoted t c w := by
  have hsymbol {t : Token} {c : Char} (hspelling : t.spelling = [c])
      (hc : Text.isBlank c = false ∧ c ≠ ',' ∧ c ≠ '"' ∧ c ≠ '/')
      (hcloses : State.closes c = t.closes) : ∃ c w, Unquoted t c w :=
    ⟨c, [], hspelling, hc.1, hc.2.1, hc.2.2.1, hc.2.2.2, hcloses, nofun⟩
  cases t with
  | comma => exact .inl rfl
  | text w => exact .inr (.inl ⟨w, rfl, hsound⟩)
  | stray => exact hsound.elim
  | number w =>
    cases w with
    | nil => exact (Token.not_isNumber_nil hsound).elim
    | cons c w => exact .inr (.inr ⟨c, w, .of_inner rfl rfl (isInner_of_isNumber hsound)⟩)
  | null => exact .inr (.inr ⟨_, _, .of_inner rfl rfl (List.all_eq_true.mp rfl)⟩)
  | bool value =>
    cases value <;> exact .inr (.inr ⟨_, _, .of_inner rfl rfl (List.all_eq_true.mp rfl)⟩)
  | _ => exact .inr (.inr (hsymbol rfl (by decide) rfl))

theorem eq_comma_of_spelling (hsound : t.Sound) (h : t.spelling = ',' :: w) :
    t = .comma ∧ w = [] := by
  obtain rfl | ⟨body, rfl, -⟩ | ⟨c, v, ht⟩ := comma_or_text_or_unquoted hsound
  · exact ⟨rfl, (List.cons.inj h).2.symm⟩
  · cases h
  · exact absurd (List.cons.inj (ht.spelling.symm.trans h)).1 ht.comma

theorem eq_text_of_spelling (hsound : t.Sound) (h : t.spelling = '"' :: w) :
    ∃ body, t = .text body ∧ IsBody body ∧ w = body ++ ['"'] := by
  obtain rfl | ⟨body, rfl, hbody⟩ | ⟨c, v, ht⟩ := comma_or_text_or_unquoted hsound
  · cases h
  · exact ⟨body, rfl, hbody, (List.cons.inj h).2.symm⟩
  · exact absurd (List.cons.inj (ht.spelling.symm.trans h)).1 ht.quote

theorem unquoted_of_spelling (hsound : t.Sound) (h : t.spelling = c :: w) (hcomma : c ≠ ',')
    (hquote : c ≠ '"') : Unquoted t c w := by
  obtain rfl | ⟨body, rfl, -⟩ | ⟨d, v, ht⟩ := comma_or_text_or_unquoted hsound
  · exact absurd (List.cons.inj h).1.symm hcomma
  · exact absurd (List.cons.inj h).1.symm hquote
  · obtain ⟨rfl, rfl⟩ := List.cons.inj (ht.spelling.symm.trans h)
    exact ht

theorem code_loose (hw : Loose t w) (hcomma : t ≠ .comma) :
    code held comma (w ++ s) =
      kept (comma && !t.closes) ++ (held.reverse ++ (t.spelling ++ code [] false s)) := by
  have hinterrupted {c : Char} {w b : List Char} (ht : Unquoted t c w) (hb : Interrupted w b) :
      code held comma (c :: b ++ s) =
        kept (comma && !t.closes) ++ (held.reverse ++ (t.spelling ++ code [] false s)) := by
    rw [List.cons_append, code_solid (ht.solid _), code_interrupted hb ht.inner, ht.closes,
      ht.spelling]
    rfl
  cases hw with
  | whole hsound =>
    obtain rfl | ⟨w, rfl, hw⟩ | ⟨c, w, ht⟩ := comma_or_text_or_unquoted hsound
    · exact absurd rfl hcomma
    · have hspelling (rest : List Char) :
          (Token.text w).spelling ++ rest = '"' :: (w ++ '"' :: rest) := by simp [Token.spelling]
      have hcloses : (comma && !(Token.text w).closes) = comma := Bool.and_true comma
      rw [hspelling, hspelling, hcloses, code_quote, quoted_body hw]
    · have hwhole := hinterrupted ht (.refl w)
      rwa [← ht.spelling] at hwhole
  | @interrupted _ c w b hsound hspelling hquote h =>
    refine hinterrupted (unquoted_of_spelling hsound hspelling ?_ hquote) h
    rintro rfl
    exact hcomma (eq_comma_of_spelling hsound hspelling).1

end

-- ---------------------------------------------------------------------------
-- Nothing is lost
-- ---------------------------------------------------------------------------

section
variable {g e s held : List Char} {comma : Bool}

theorem code_filler (hg : Filler g) (hheld : IsBlank held) :
    ∃ held', IsBlank held' ∧ ∀ comma s, code held comma (g ++ s) = code held' comma s := by
  cases hg with
  | @space c hc =>
    exact ⟨c :: held, List.forall_mem_cons.mpr ⟨hc, hheld⟩,
      fun _ _ => code_blank (isBlank_of_isSpace hc)⟩
  | @line t ht =>
    refine ⟨'\n' :: held, List.forall_mem_cons.mpr ⟨rfl, hheld⟩, fun comma s => ?_⟩
    simpa using code_line (s := s) ht
  | @block t ht =>
    refine ⟨(lineBreaks t).reverse ++ held, forall_mem_held rfl hheld, fun comma s => ?_⟩
    simpa using code_block (s := s) ht

theorem code_gap (hg : Gap g) (hheld : IsBlank held) :
    ∃ held', IsBlank held' ∧ ∀ comma s, code held comma (g ++ s) = code held' comma s := by
  induction hg generalizing held with
  | nil => exact ⟨held, hheld, fun _ _ => rfl⟩
  | cons hf hg ih =>
    obtain ⟨middle, hmiddle, hf⟩ := code_filler hf hheld
    obtain ⟨held', hheld', hg⟩ := ih hmiddle
    refine ⟨held', hheld', fun comma s => ?_⟩
    rw [List.append_assoc, hf, hg]

theorem code_tail (he : LooseTail e) (hheld : IsBlank held) :
    ∃ held', IsBlank held' ∧ ∀ comma, code held comma e = kept comma ++ held' := by
  obtain (hg | @⟨g, t, hg, ht⟩) | @⟨g, t, hg, ht⟩ := he
  · obtain ⟨held', hheld', hcode⟩ := code_gap hg hheld
    refine ⟨held'.reverse, by simpa [IsBlank] using hheld', fun comma => ?_⟩
    rw [← List.append_nil e, hcode, code_nil]
  · obtain ⟨held', hheld', hcode⟩ := code_gap hg hheld
    refine ⟨held'.reverse, by simpa [IsBlank] using hheld', fun comma => ?_⟩
    rw [hcode, code_openLine ht]
  · obtain ⟨held', hheld', hcode⟩ := code_gap hg hheld
    refine ⟨held'.reverse ++ lineBreaks t, fun c hc => ?_, fun comma => ?_⟩
    · obtain hc | hc := List.mem_append.mp hc
      · exact hheld' c (List.mem_reverse.mp hc)
      · exact forall_mem_lineBreaks rfl c hc
    · rw [hcode, code_openBlock ht]

theorem Trailing.of_ne_comma {ds ts : List Token} {t : Token} (h : Trailing ds (t :: ts))
    (ht : t ≠ .comma) : ∃ ds', ds = t :: ds' ∧ Trailing ds' ts := by
  cases h with
  | cons h => exact ⟨_, rfl, h⟩
  | comma => exact absurd rfl ht

theorem Trailing.of_comma {ds ts : List Token} {t : Token} (h : Trailing ds (.comma :: t :: ts))
    (ht : t ≠ .comma) (hfits : ds.IsChain Token.Fits) :
    ∃ ds', ds = (if t.closes then [t] else [.comma, t]) ++ ds' ∧ Trailing ds' ts := by
  cases h with
  | cons h =>
    obtain ⟨ds', rfl, hrest⟩ := h.of_ne_comma ht
    have hcloses : t.closes = false := by
      simpa using ((List.isChain_cons.mp hfits).1 t rfl).1
    exact ⟨ds', by simp [hcloses], hrest⟩
  | comma hcloses h => exact ⟨_, by simp [hcloses], h⟩

def heldTokens (comma : Bool) : List Token := if comma then [.comma] else []

/-- The scanner writes the tokens plainly that it has held back or reads, less the
commas added before closing brackets. -/
theorem lays_code {ds ts : List Token} (h : lenient.Lays ts s) (hheld : IsBlank held)
    (hds : Trailing ds (heldTokens comma ++ ts)) (hfits : ds.IsChain Token.Fits) :
    Layout.plain.Lays ds (code held comma s) := by
  have hcomma {ds s} (h : Layout.plain.Lays ds s) : Layout.plain.Lays (.comma :: ds) (',' :: s) :=
    .cons (g := []) (w := [',']) nofun ⟨trivial, rfl⟩ h
  induction h generalizing ds held comma with
  | nil htail =>
    obtain ⟨held', hheld', hcode⟩ := code_tail htail hheld
    rw [hcode]
    cases comma with
    | false =>
      cases hds
      exact .nil hheld'
    | true =>
      obtain _ | ⟨⟨⟩⟩ | _ := hds
      exact hcomma (.nil hheld')
  | @cons g t w ts s hgap hspells h ih =>
    obtain ⟨held', hheld', hcode⟩ := code_gap hgap hheld
    have hreverse : IsBlank held'.reverse := by simpa [IsBlank] using hheld'
    rw [hcode]
    -- A comma waits for the next token, and any other token settles it.
    by_cases ht : t = .comma
    · subst ht
      obtain rfl := Loose.comma hspells
      change Layout.plain.Lays ds (code held' comma (',' :: s))
      rw [code_comma]
      cases comma with
      | false => exact ih hheld' hds hfits
      | true =>
        cases hds with
        | cons h => exact hcomma (ih hheld' h hfits.tail)
        | comma hcloses => cases hcloses
    · have htoken {ds : List Token} (hds : Trailing ds ts) (hfits : ds.IsChain Token.Fits) :
          Layout.plain.Lays (t :: ds) (held'.reverse ++ (t.spelling ++ code [] false s)) := by
        have hnil : IsBlank [] := by simp [IsBlank]
        have hds : Trailing ds (heldTokens false ++ ts) := hds
        exact .cons hreverse ⟨hspells.sound, rfl⟩ (ih hnil hds hfits)
      rw [code_loose hspells ht]
      cases comma with
      | false =>
        obtain ⟨ds, rfl, hrest⟩ := hds.of_ne_comma ht
        exact htoken hrest hfits.tail
      | true =>
        obtain ⟨ds, rfl, hrest⟩ := hds.of_comma ht hfits
        cases hcloses : t.closes with
        | false =>
          simp only [hcloses] at hfits
          exact hcomma (htoken hrest hfits.tail.tail)
        | true =>
          simp only [hcloses] at hfits
          exact htoken hrest hfits.tail

end

theorem Trailing.refl : ∀ ts : List Token, Trailing ts ts
  | [] => .nil
  | _ :: ts => .cons (refl ts)

theorem toList_normalize (source : String) :
    (normalize source).toList = code [] false source.toList := String.toList_ofList ..

theorem lays_normalize {ts : List Token} {v : Value} {source : String} (hts : Trailing v.tokens ts)
    (h : lenient.Lays ts source.toList) : Layout.plain.Lays v.tokens (normalize source).toList := by
  rw [toList_normalize]
  exact lays_code h (List.forall_mem_nil _) hts v.framed.fits

theorem tokens_normalize {ts : List Token} {v : Value} {source : String}
    (hts : Trailing v.tokens ts) (h : lenient.Lays ts source.toList) :
    Json.tokens (normalize source).toList = v.tokens :=
  tokens_of_lays (lays_normalize hts h) v.framed.fits

/-- The reader answers all plain texts of a value alike. -/
def IgnoresLayout (read : String → α) : Prop := ∀ (v : Value) (s t : String),
  Layout.plain.Lays v.tokens s.toList → Layout.plain.Lays v.tokens t.toList → read s = read t

theorem ignoresLayout_tokens : IgnoresLayout fun s => Json.tokens s.toList :=
  fun v _ _ hs ht => (tokens_of_lays hs v.framed.fits).trans (tokens_of_lays ht v.framed.fits).symm

theorem ignoresLayout_decode {α : Type} (d : Decoder α) : IgnoresLayout (Json.decode d) := by
  intro v s t hs ht
  have htokens : Json.tokens s.toList = Json.tokens t.toList := ignoresLayout_tokens v s t hs ht
  simp only [Json.decode, htokens]

/-- Comments and commas before closing brackets make no difference: what is
left is the plain text of the same tokens, so every reader that ignores the
layout, that of configurations among them, reads it as any plain text of these. -/
theorem normalize_commented {ts : List Token} {v : Value} {source : String}
    (hts : Trailing v.tokens ts) (h : commented.Lays ts source.toList) :
    Layout.plain.Lays v.tokens (normalize source).toList ∧
      Json.tokens (normalize source).toList = v.tokens ∧
      ∀ plain : String, Layout.plain.Lays v.tokens plain.toList →
        (∀ {α : Type} (read : String → α), IgnoresLayout read →
          read (normalize source) = read (normalize plain)) ∧
        Config.decode source = Config.decode plain := by
  have hsource := lenient_of_commented h
  refine ⟨lays_normalize hts hsource, tokens_normalize hts hsource, fun plain h => ?_⟩
  have hplain := lenient_of_commented (commented_of_plain h)
  have hread {α : Type} (read : String → α) (hignores : IgnoresLayout read) :
      read (normalize source) = read (normalize plain) :=
    hignores v _ _ (lays_normalize hts hsource) (lays_normalize (.refl v.tokens) hplain)
  exact ⟨hread, hread _ (ignoresLayout_decode Config.record.decoder)⟩

theorem lays_plain {t : Token} {ts : List Token} {s : List Char} (ht : t.Sound)
    (h : Layout.plain.Lays ts s) : Layout.plain.Lays (t :: ts) (t.spelling ++ s) :=
  .cons (g := []) (List.forall_mem_nil _) ⟨ht, rfl⟩ h

theorem lays_commented {t : Token} {ts : List Token} {s : List Char} (ht : t.Sound)
    (h : commented.Lays ts s) : commented.Lays (t :: ts) (t.spelling ++ s) :=
  .cons (g := []) Gap.nil ⟨ht, rfl⟩ h

def one : Numeral := ⟨['1'], .positive ⟨['1'], [], .digits rfl (by decide) allDigits_nil,
  ⟨[], [], .absent, .absent, rfl⟩, rfl⟩⟩

def slashes : Literal := ⟨['/', '/'],
  .plain (by decide) (by decide) (by decide) (.plain (by decide) (by decide) (by decide) .nil)⟩

theorem normalize_commented_slashes :
    Json.tokens (normalize r#"{"//":[1,/*,*/],}//"#).toList =
        Json.tokens (normalize r#"{"//":[1]}"#).toList ∧
      Config.decode r#"{"//":[1,/*,*/],}//"# = Config.decode r#"{"//":[1]}"# := by
  let v : Value := .object [(slashes, .array [.number one])]
  have hplain : Layout.plain.Lays v.tokens r#"{"//":[1]}"#.toList := by
    exact lays_plain (t := .openBrace) trivial <| lays_plain (t := .text slashes.1) slashes.2 <|
      lays_plain (t := .colon) trivial <| lays_plain (t := .openBracket) trivial <|
      lays_plain (t := .number one.1) one.2 <| lays_plain (t := .closeBracket) trivial <|
      lays_plain (t := .closeBrace) trivial <| .nil (List.forall_mem_nil _)
  have hsource : commented.Lays
      [.openBrace, .text slashes.1, .colon, .openBracket, .number one.1, .comma, .closeBracket,
        .comma, .closeBrace] r#"{"//":[1,/*,*/],}//"#.toList := by
    have hgap : Gap ['/', '*', ',', '*', '/'] := .cons (.block (t := [',']) (by decide)) .nil
    have hclose : Token.SpelledBy .closeBracket [']'] := ⟨trivial, rfl⟩
    have htail : Tail ['/', '/'] := .openLine .nil (t := []) (by decide)
    exact lays_commented (t := .openBrace) trivial <|
      lays_commented (t := .text slashes.1) slashes.2 <| lays_commented (t := .colon) trivial <|
      lays_commented (t := .openBracket) trivial <| lays_commented (t := .number one.1) one.2 <|
      lays_commented (t := .comma) trivial <| .cons hgap hclose <|
      lays_commented (t := .comma) trivial <| lays_commented (t := .closeBrace) trivial <|
      .nil htail
  have htrailing : Trailing v.tokens
      [.openBrace, .text slashes.1, .colon, .openBracket, .number one.1, .comma, .closeBracket,
        .comma, .closeBrace] :=
    .cons <| .cons <| .cons <| .cons <| .cons <| .comma rfl <| .comma rfl .nil
  obtain ⟨hread, hdecode⟩ := (normalize_commented htrailing hsource).2.2 _ hplain
  exact ⟨hread _ ignoresLayout_tokens, hdecode⟩

end CtorArity.Jsonc
