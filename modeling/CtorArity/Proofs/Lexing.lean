import CtorArity.Proofs.Grammar

/-!
# Reading tokens

A text that lays out tokens, no two numbers side by side, is read as those
tokens (`tokens_of_lays`). Numbers are where this takes an argument: a number
ends only before a character that cannot go on with it, so what follows it in
the layout matters.
-/

namespace CtorArity.Json

-- ---------------------------------------------------------------------------
-- Numbers
-- ---------------------------------------------------------------------------

section
variable {c : Char} {w : List Char} {P Q : List Char → Prop}

theorem then_nil : Then P Q [] ↔ P [] ∧ Q [] := by
  simp only [Then, List.append_eq_nil_iff]
  constructor
  · rintro ⟨a, b, ha, hb, rfl, rfl⟩
    exact ⟨ha, hb⟩
  · rintro ⟨ha, hb⟩
    exact ⟨[], [], ha, hb, rfl, rfl⟩

theorem then_cons : Then P Q (c :: w) ↔ P [] ∧ Q (c :: w) ∨ Then (fun a => P (c :: a)) Q w := by
  constructor
  · rintro ⟨a, b, ha, hb, heq⟩
    cases a with
    | nil => exact .inl ⟨ha, heq ▸ hb⟩
    | cons d a =>
      obtain ⟨rfl, rfl⟩ := List.cons.inj heq
      exact .inr ⟨a, b, ha, hb, rfl⟩
  · rintro (⟨ha, hb⟩ | ⟨a, b, ha, hb, rfl⟩)
    · exact ⟨[], c :: w, ha, hb, rfl⟩
    · exact ⟨c :: a, b, ha, hb, rfl⟩

theorem and_then (p : Prop) : Then (fun a => p ∧ P a) Q w ↔ p ∧ Then P Q w := by
  constructor
  · rintro ⟨a, b, ⟨hp, ha⟩, hb, heq⟩
    exact ⟨hp, a, b, ha, hb, heq⟩
  · rintro ⟨hp, a, b, ha, hb, heq⟩
    exact ⟨a, b, ⟨hp, ha⟩, hb, heq⟩

theorem or_then {P' : List Char → Prop} :
    Then (fun a => P a ∨ P' a) Q w ↔ Then P Q w ∨ Then P' Q w := by
  constructor
  · rintro ⟨a, b, ha | ha, hb, heq⟩
    · exact .inl ⟨a, b, ha, hb, heq⟩
    · exact .inr ⟨a, b, ha, hb, heq⟩
  · rintro (⟨a, b, ha, hb, heq⟩ | ⟨a, b, ha, hb, heq⟩)
    · exact ⟨a, b, .inl ha, hb, heq⟩
    · exact ⟨a, b, .inr ha, hb, heq⟩

theorem nil_then : Then (· = []) Q w ↔ Q w := by
  constructor
  · rintro ⟨_, b, rfl, hb, rfl⟩
    exact hb
  · exact fun h => ⟨[], w, rfl, h, rfl⟩

@[simp] theorem allDigits_nil : AllDigits [] := by simp [AllDigits]

theorem allDigits_cons : AllDigits (c :: w) ↔ c.isDigit = true ∧ AllDigits w := by
  simp [AllDigits]

theorem not_isDigits_nil : ¬ IsDigits [] := fun h => h.1 rfl

theorem isDigits_cons : IsDigits (c :: w) ↔ c.isDigit = true ∧ AllDigits w := by
  simp [IsDigits, allDigits_cons]

theorem not_isWhole_nil : ¬ IsWhole [] := nofun

theorem isWhole_cons :
    IsWhole (c :: w) ↔ c = '0' ∧ w = [] ∨ (c.isDigit = true ∧ c ≠ '0') ∧ AllDigits w := by
  constructor
  · rintro (_ | ⟨hc, hzero, hw⟩)
    · exact .inl ⟨rfl, rfl⟩
    · exact .inr ⟨⟨hc, hzero⟩, hw⟩
  · rintro (⟨rfl, rfl⟩ | ⟨⟨hc, hzero⟩, hw⟩)
    · exact .zero
    · exact .digits hc hzero hw

theorem isFraction_cons : IsFraction (c :: w) ↔ c = '.' ∧ IsDigits w := by
  constructor
  · rintro (_ | hw)
    exact ⟨rfl, hw⟩
  · rintro ⟨rfl, hw⟩
    exact .digits hw

theorem isSign_cons : IsSign (c :: w) ↔ (c = '+' ∨ c = '-') ∧ w = [] := by
  constructor
  · rintro (_ | _)
    · exact ⟨.inl rfl, rfl⟩
    · exact ⟨.inr rfl, rfl⟩
  · rintro ⟨rfl | rfl, rfl⟩
    · exact .plus
    · exact .minus

theorem isExponent_cons :
    IsExponent (c :: w) ↔ (c = 'e' ∨ c = 'E') ∧ Then IsSign IsDigits w := by
  constructor
  · rintro (_ | ⟨hc, hw⟩)
    exact ⟨hc, hw⟩
  · rintro ⟨hc, hw⟩
    exact .digits hc hw

end

namespace Token.NumberPhase

/-- What may follow what has been read of a number. -/
def Rest : NumberPhase → List Char → Prop
  | .minus => Then IsWhole (Then IsFraction IsExponent)
  | .zero => Then IsFraction IsExponent
  | .whole => Then AllDigits (Then IsFraction IsExponent)
  | .point => Then IsDigits IsExponent
  | .fraction => Then AllDigits IsExponent
  | .letter => Then IsSign IsDigits
  | .sign => IsDigits
  | .exponent => AllDigits

theorem rest_nil (phase : NumberPhase) : phase.Rest [] ↔ phase.isComplete = true := by
  cases phase <;>
    simp [Rest, isComplete, then_nil, not_isDigits_nil, not_isWhole_nil, IsFraction.absent,
      IsExponent.absent, IsSign.absent]

theorem rest_cons (phase : NumberPhase) (c : Char) (w : List Char) :
    phase.Rest (c :: w) ↔ ∃ next ∈ phase.next? c, next.Rest w := by
  have hparts : phase.Rest (c :: w) ↔ match phase with
      | .minus => c = '0' ∧ Rest .zero w ∨ (c.isDigit = true ∧ c ≠ '0') ∧ Rest .whole w
      | .zero => (c = 'e' ∨ c = 'E') ∧ Rest .letter w ∨ c = '.' ∧ Rest .point w
      | .whole => ((c = 'e' ∨ c = 'E') ∧ Rest .letter w ∨ c = '.' ∧ Rest .point w) ∨
          c.isDigit = true ∧ Rest .whole w
      | .point => c.isDigit = true ∧ Rest .fraction w
      | .fraction => (c = 'e' ∨ c = 'E') ∧ Rest .letter w ∨ c.isDigit = true ∧ Rest .fraction w
      | .letter => c.isDigit = true ∧ Rest .exponent w ∨ (c = '+' ∨ c = '-') ∧ Rest .sign w
      | .sign | .exponent => c.isDigit = true ∧ Rest .exponent w := by
    cases phase <;>
      simp only [Rest, then_cons, and_then, or_then, nil_then, not_isWhole_nil, isWhole_cons,
        IsFraction.absent, isFraction_cons, isExponent_cons, IsSign.absent, isSign_cons,
        not_isDigits_nil, isDigits_cons, allDigits_nil, allDigits_cons, false_and, true_and,
        false_or]
  have hdigit : c.isDigit = true → c ≠ '.' ∧ c ≠ 'e' ∧ c ≠ 'E' ∧ c ≠ '+' ∧ c ≠ '-' := by
    intro h
    refine ⟨?_, ?_, ?_, ?_, ?_⟩ <;> (rintro rfl; revert h; decide)
  have hzero : c = '0' → c.isDigit = true := by
    rintro rfl
    rfl
  rw [hparts]
  cases phase <;> simp only [next?, beq_iff_eq, Bool.or_eq_true] <;> split_ifs <;> simp_all

end Token.NumberPhase

-- ---------------------------------------------------------------------------
-- The rest of a text
-- ---------------------------------------------------------------------------

namespace Token

/-- The state with other tokens read before. -/
def State.after (s : State) (earlier : List Token) : State := ⟨s.done ++ earlier, s.mode⟩

variable {s : State} {earlier : List Token} {c : Char}

theorem begin_after : begin (s.after earlier) c = (begin s c).after earlier := by
  unfold begin
  split
  · rfl
  · split
    · rfl
    · split <;> rfl

theorem read_after : read (s.after earlier) c = (read s c).after earlier := by
  obtain ⟨done, mode⟩ := s
  cases mode with
  | between => exact begin_after
  | word letters token =>
    match letters with
    | [] => exact begin_after (s := State.give ⟨done, _⟩ token)
    | [last] => simp only [read, State.after]; split <;> rfl
    | next :: second :: rest => simp only [read, State.after]; split <;> rfl
  | number phase written =>
    simp only [read, State.after]
    split
    · rfl
    · split
      · exact begin_after (s := State.give ⟨done, _⟩ (.number written.reverse))
      · rfl
  | text phase written =>
    simp only [read, State.after]
    split
    · rfl
    · split <;> rfl
  | stuck => rfl

theorem finish_after : finish (s.after earlier) = earlier.reverse ++ finish s := by
  obtain ⟨done, mode⟩ := s
  cases mode <;> simp [finish, State.after]

/-- The tokens that the rest of a text adds, something being read. -/
def resume (mode : Mode) (rest : List Char) : List Token := finish (rest.foldl read ⟨[], mode⟩)

theorem finish_foldl (s : State) (rest : List Char) :
    finish (rest.foldl read s) = s.done.reverse ++ resume s.mode rest := by
  calc finish (rest.foldl read s)
      = finish (rest.foldl read (State.after ⟨[], s.mode⟩ s.done)) := rfl
    _ = finish ((rest.foldl read ⟨[], s.mode⟩).after s.done) := by
      rw [List.foldl_hom (State.after · s.done) fun _ _ => read_after]
    _ = _ := finish_after

theorem resume_cons (mode : Mode) (c : Char) (rest : List Char) :
    resume mode (c :: rest) =
      (read ⟨[], mode⟩ c).done.reverse ++ resume (read ⟨[], mode⟩ c).mode rest :=
  finish_foldl _ rest

variable {w rest : List Char}

theorem resume_blank (hw : IsBlank w) (rest : List Char) :
    resume .between (w ++ rest) = resume .between rest := by
  induction w with
  | nil => rfl
  | cons c w ih =>
    obtain ⟨hc, hw⟩ := List.forall_mem_cons.mp hw
    have hread : read ⟨[], .between⟩ c = ⟨[], .between⟩ := by simp [read, begin, hc]
    rw [List.cons_append, resume_cons, hread]
    exact ih hw

-- ---------------------------------------------------------------------------
-- One token
-- ---------------------------------------------------------------------------

theorem resume_text_cons (phase next : TextPhase) (hnext : phase.next? c = some next)
    (hquote : phase = .plain → c ≠ '"') (written : List Char) :
    resume (.text phase written) (c :: rest) = resume (.text next (c :: written)) rest := by
  have hgoes : (phase == .plain && c == '"') = false := by simpa using hquote
  have hread : read ⟨[], .text phase written⟩ c = ⟨[], .text next (c :: written)⟩ := by
    simp [read, hgoes, hnext]
  rw [resume_cons, hread]
  rfl

theorem resume_text (hw : IsBody w) (written : List Char) :
    resume (.text .plain written) (w ++ '"' :: rest) =
      .text (written.reverse ++ w) :: resume .between rest := by
  induction hw generalizing written with
  | nil => simp [resume_cons, read, State.give]
  | @plain c w hcontrol hquote hslash h ih =>
    have hnext : TextPhase.next? .plain c = some .plain := by
      simpa [TextPhase.next?, hslash] using hcontrol
    rw [List.cons_append, resume_text_cons .plain .plain hnext fun _ => hquote, ih]
    simp
  | @escape c w hc h ih =>
    have hnext : TextPhase.next? .escape c = some .plain := by
      simp only [List.mem_cons, List.not_mem_nil, or_false] at hc
      rcases hc with rfl | rfl | rfl | rfl | rfl | rfl | rfl | rfl <;> rfl
    rw [List.cons_append, List.cons_append,
      resume_text_cons .plain .escape rfl fun _ => by decide,
      resume_text_cons .escape .plain hnext nofun, ih]
    simp
  | @code d₁ d₂ d₃ d₄ w hcode h ih =>
    have hnext (n : Nat) : ∀ d ∈ [d₁, d₂, d₃, d₄],
        TextPhase.next? (.code n) d = some (if n ≤ 1 then .plain else .code (n - 1)) :=
      fun d hd => by simp [TextPhase.next?, hcode d hd]
    simp only [List.cons_append]
    rw [resume_text_cons .plain .escape rfl fun _ => by decide,
      resume_text_cons .escape (.code 4) rfl nofun,
      resume_text_cons (.code 4) (.code 3) (hnext 4 d₁ (by simp)) nofun,
      resume_text_cons (.code 3) (.code 2) (hnext 3 d₂ (by simp)) nofun,
      resume_text_cons (.code 2) (.code 1) (hnext 2 d₃ (by simp)) nofun,
      resume_text_cons (.code 1) .plain (hnext 1 d₄ (by simp)) nofun, ih]
    simp

/-- A complete number ends before this character. -/
def endsNumber (c : Char) : Bool := !c.isDigit && c != '.' && c != 'e' && c != 'E'

theorem NumberPhase.ends {phase : NumberPhase} (hcomplete : phase.isComplete = true)
    (hc : endsNumber c = true) : phase.next? c = none ∧ phase.endsBefore c = true := by
  simp only [endsNumber, Bool.and_eq_true, bne_iff_ne, Bool.not_eq_true'] at hc
  obtain ⟨⟨⟨hdigit, hpoint⟩, he⟩, hE⟩ := hc
  cases phase <;> simp_all [isComplete, endsBefore, next?]

theorem resume_number {phase : NumberPhase} (hw : phase.Rest w)
    (hends : ∀ c ∈ rest.head?, endsNumber c = true) (written : List Char) :
    resume (.number phase written) (w ++ rest) =
      .number (written.reverse ++ w) :: resume .between rest := by
  induction w generalizing phase written with
  | nil =>
    have hcomplete := phase.rest_nil.mp hw
    cases rest with
    | nil => simp [resume, finish, hcomplete]
    | cons c rest =>
      obtain ⟨hnext, hbefore⟩ := NumberPhase.ends hcomplete (hends c rfl)
      have hread : read ⟨[], .number phase written⟩ c =
          (begin ⟨[], .between⟩ c).after [.number written.reverse] := by
        rw [← begin_after]
        simp only [read, hnext, hbefore, if_true]
        rfl
      rw [List.nil_append, resume_cons, hread, resume_cons]
      simp [State.after, read]
  | cons c w ih =>
    obtain ⟨next, hnext, hrest⟩ := (phase.rest_cons c w).mp hw
    have hread : read ⟨[], .number phase written⟩ c = ⟨[], .number next (c :: written)⟩ := by
      simp only [read, Option.mem_def.mp hnext]
    rw [List.cons_append, resume_cons, hread]
    simpa using ih hrest (c :: written)

theorem not_isNumber_nil : ¬ IsNumber [] := by
  rintro (h | _)
  exact not_isWhole_nil (then_nil.mp h).1

theorem begin_digit {next : NumberPhase} (hnext : NumberPhase.next? .minus c = some next) :
    begin ⟨[], .between⟩ c = ⟨[], .number next [c]⟩ := by
  have hspace : c.isDigit = true → isSpace c = false := by
    intro hc
    simp only [isSpace, Bool.or_eq_false_iff, beq_eq_false_iff_ne]
    refine ⟨⟨⟨?_, ?_⟩, ?_⟩, ?_⟩ <;> (rintro rfl; revert hc; decide)
  simp only [NumberPhase.next?, beq_iff_eq] at hnext
  split_ifs at hnext with hzero hc
  · cases hnext
    rw [hzero]
    rfl
  · cases hnext
    simp [begin, hc, hzero, hspace hc]

theorem resume_spelling {t : Token} (hsound : t.Sound)
    (hends : t.isNumber = true → ∀ c ∈ rest.head?, endsNumber c = true) :
    resume .between (t.spelling ++ rest) = t :: resume .between rest := by
  cases t with
  | number w =>
    obtain hw | hw : IsNumber w := hsound
    · cases w with
      | nil => exact (not_isNumber_nil (.positive hw)).elim
      | cons c w =>
        obtain ⟨next, hnext, hrest⟩ := (NumberPhase.rest_cons .minus c w).mp hw
        simpa [spelling, resume_cons, read, begin_digit hnext] using
          resume_number hrest (hends rfl) [c]
    · have hrest : NumberPhase.Rest .minus _ := hw
      exact (resume_cons ..).trans (resume_number hrest (hends rfl) ['-'])
  | text w =>
    have hspelling : (Token.text w).spelling ++ rest = '"' :: (w ++ '"' :: rest) := by
      simp [spelling]
    rw [hspelling]
    exact (resume_cons ..).trans (resume_text hsound [])
  | stray => exact hsound.elim
  | bool value => cases value <;> exact finish_foldl ⟨[_], .between⟩ rest
  | _ => exact finish_foldl ⟨[_], .between⟩ rest

-- ---------------------------------------------------------------------------
-- A whole text
-- ---------------------------------------------------------------------------

theorem endsNumber_of_isSpace (hc : isSpace c = true) : endsNumber c = true := by
  simp only [isSpace, Bool.or_eq_true, beq_iff_eq] at hc
  rcases hc with ((rfl | rfl) | rfl) | rfl <;> rfl

theorem exists_spelling_eq_cons {t : Token} (hsound : t.Sound) :
    ∃ c w, t.spelling = c :: w ∧ (t.isNumber = false → endsNumber c = true) := by
  cases t with
  | number w =>
    cases w with
    | nil => exact (not_isNumber_nil hsound).elim
    | cons c w => exact ⟨c, w, rfl, nofun⟩
  | bool value => cases value <;> exact ⟨_, _, rfl, fun _ => rfl⟩
  | stray => exact hsound.elim
  | _ => exact ⟨_, _, rfl, fun _ => rfl⟩

end Token

theorem Layout.Lays.endsNumber_head {ts : List Token} {s : List Char} (h : plain.Lays ts s)
    (hts : ∀ t ∈ ts.head?, t.isNumber = false) : ∀ c ∈ s.head?, Token.endsNumber c = true := by
  have hblank {g s : List Char} (hg : IsBlank g) (hs : ∀ c ∈ s.head?, Token.endsNumber c = true) :
      ∀ c ∈ (g ++ s).head?, Token.endsNumber c = true := by
    cases g with
    | nil => exact hs
    | cons c g =>
      rintro _ ⟨⟩
      exact Token.endsNumber_of_isSpace (hg c (by simp))
  cases h with
  | nil htail => simpa using hblank htail (s := []) nofun
  | @cons g t w ts s hgap hspells h =>
    obtain ⟨hsound, rfl⟩ := hspells
    obtain ⟨c, w, hw, hends⟩ := Token.exists_spelling_eq_cons hsound
    refine hblank hgap ?_
    rw [hw]
    rintro _ ⟨⟩
    exact hends (hts t rfl)

/-- A text is read as the tokens it lays out. -/
theorem tokens_of_lays {ts : List Token} {s : List Char} (h : Layout.plain.Lays ts s)
    (hfits : ts.IsChain Token.Fits) : tokens s = ts := by
  change Token.resume .between s = ts
  induction h with
  | @nil e htail => simpa [Token.resume, Token.finish] using Token.resume_blank htail []
  | @cons g t w ts s hgap hspells h ih =>
    obtain ⟨hfirst, hfits⟩ := List.isChain_cons.mp hfits
    obtain ⟨hsound, rfl⟩ := hspells
    rw [Token.resume_blank hgap, Token.resume_spelling hsound, ih hfits]
    intro hnumber
    refine h.endsNumber_head fun next hnext => ?_
    simpa [hnumber] using (hfirst next hnext).2

end CtorArity.Json
