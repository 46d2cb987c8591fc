import CtorArity.Jsonc
import Mathlib.Data.List.Infix

/-!
# The scanner

What the scanner does from a character outside quotes on (`code`), told by what
stands there: one equation for each way in which a text may begin
(`Opening`). A text in quotes is taken over up to its closing quote.
-/

namespace CtorArity.Jsonc

-- ---------------------------------------------------------------------------
-- The rest of a text
-- ---------------------------------------------------------------------------

def State.after (s : State) (earlier : List Char) : State := { s with out := s.out ++ earlier }

section
variable {s : State} {earlier : List Char} {c : Char} {mode : Mode}

theorem settled_after {keep : Bool} :
    (s.after earlier).settled keep = s.settled keep ++ earlier := by
  obtain ⟨mode, out, held, comma⟩ := s
  cases comma <;> cases keep <;> simp [State.settled, State.after]

theorem solid_after : (s.after earlier).solid c mode = (s.solid c mode).after earlier := by
  simp only [State.solid, settled_after]
  rfl

theorem readCode_after : readCode (s.after earlier) c = (readCode s c).after earlier := by
  unfold readCode
  split
  · exact solid_after
  · split
    · rfl
    · split
      · obtain ⟨mode, out, held, comma⟩ := s
        cases comma <;> rfl
      · split
        · rfl
        · exact solid_after

theorem read_after : read (s.after earlier) c = (read s c).after earlier := by
  have hmode : (s.after earlier).mode = s.mode := rfl
  unfold read
  rw [hmode]
  split
  · exact readCode_after
  · split
    · rfl
    · split
      · rfl
      · rw [solid_after, readCode_after]
  · split
    · rfl
    · split <;> rfl
  · rfl
  · split <;> rfl
  -- the two modes inside a block comment
  all_goals
    split
    · rfl
    · by_cases hline : (c == '\n') = true
      · simp only [hline, if_true]
        rfl
      · simp only [hline]
        rfl

theorem finish_after : finish (s.after earlier) = earlier.reverse ++ finish s := by
  have hmode : (s.after earlier).mode = s.mode := rfl
  unfold finish
  rw [hmode]
  split <;> simp [solid_after, settled_after]

end

/-- What is written from here on, a comma and blank characters being held. -/
def ahead (mode : Mode) (held : List Char) (comma : Bool) (s : List Char) : List Char :=
  finish (s.foldl read ⟨mode, [], held, comma⟩)

theorem finish_foldl (state : State) (s : List Char) :
    finish (s.foldl read state) =
      state.out.reverse ++ ahead state.mode state.held state.comma s := by
  calc finish (s.foldl read state)
      = finish (s.foldl read
          (State.after ⟨state.mode, [], state.held, state.comma⟩ state.out)) := rfl
    _ = finish ((s.foldl read ⟨state.mode, [], state.held, state.comma⟩).after state.out) := by
      rw [List.foldl_hom (State.after · state.out) fun _ _ => read_after]
    _ = _ := finish_after

theorem ahead_cons (mode : Mode) (held : List Char) (comma : Bool) (c : Char) (s : List Char) :
    ahead mode held comma (c :: s) =
      (read ⟨mode, [], held, comma⟩ c).out.reverse ++
        ahead (read ⟨mode, [], held, comma⟩ c).mode (read ⟨mode, [], held, comma⟩ c).held
          (read ⟨mode, [], held, comma⟩ c).comma s :=
  finish_foldl _ s

def kept (comma : Bool) : List Char := if comma then [','] else []

@[simp] theorem kept_false : kept false = [] := rfl

@[simp] theorem kept_true : kept true = [','] := rfl

def code (held : List Char) (comma : Bool) (s : List Char) : List Char := ahead .code held comma s

def quoted (s : List Char) : List Char := ahead .quoted [] false s

section
variable {held s t : List Char} {comma : Bool} {c d : Char}

-- ---------------------------------------------------------------------------
-- Characters that stay
-- ---------------------------------------------------------------------------

theorem reverse_settled (mode : Mode) (held : List Char) (comma keep : Bool) :
    (State.settled ⟨mode, [], held, comma⟩ keep).reverse =
      kept (comma && keep) ++ held.reverse := by
  cases comma <;> cases keep <;> simp [State.settled]

theorem finish_solid (mode before : Mode) (c : Char) (s : List Char) :
    finish (s.foldl read (State.solid ⟨before, [], held, comma⟩ c mode)) =
      kept (comma && !State.closes c) ++ (held.reverse ++ c :: ahead mode [] false s) := by
  rw [finish_foldl]
  simp [State.solid, reverse_settled]

theorem code_nil : code held comma [] = kept comma ++ held.reverse := by
  rw [← Bool.and_true comma, ← reverse_settled .code, Bool.and_true]
  rfl

theorem finish_solid_of_not_closes (mode before : Mode) (hc : State.closes c = false)
    (s : List Char) :
    finish (s.foldl read (State.solid ⟨before, [], held, comma⟩ c mode)) =
      kept comma ++ (held.reverse ++ c :: ahead mode [] false s) := by
  rw [finish_solid, hc, Bool.not_false, Bool.and_true]

theorem code_blank (hc : Text.isBlank c = true) :
    code held comma (c :: s) = code (c :: held) comma s := by
  have hne : c ≠ '"' ∧ c ≠ '/' ∧ c ≠ ',' := by
    refine ⟨?_, ?_, ?_⟩ <;> (rintro rfl; revert hc; decide)
  have hread : read ⟨.code, [], held, comma⟩ c = ⟨.code, [], c :: held, comma⟩ := by
    simp [read, readCode, hne, hc, State.blank]
  rw [code, ahead_cons, hread]
  rfl

theorem code_comma : code held comma (',' :: s) = kept comma ++ code held true s := by
  cases comma <;> exact ahead_cons ..

def NoComment (s : List Char) : Prop := ∀ c ∈ s.head?, c ≠ '/' ∧ c ≠ '*'

/-- A character outside quotes that is written down as it stands. -/
structure Solid (c : Char) (s : List Char) : Prop where
  blank : Text.isBlank c = false
  comma : c ≠ ','
  quote : c ≠ '"'
  slash : c = '/' → NoComment s

theorem ahead_slash (hs : NoComment s) :
    ahead .slash held comma s = kept comma ++ (held.reverse ++ '/' :: code [] false s) := by
  refine Eq.trans ?_ (finish_solid_of_not_closes .code .slash rfl s)
  cases s with
  | nil => rfl
  | cons d s =>
    have hread : read ⟨.slash, [], held, comma⟩ d =
        readCode (State.solid ⟨.slash, [], held, comma⟩ '/' .code) d := by
      simp [read, hs d rfl]
    rw [ahead, List.foldl_cons, hread]
    rfl

theorem code_solid (hc : Solid c s) :
    code held comma (c :: s) =
      kept (comma && !State.closes c) ++ (held.reverse ++ c :: code [] false s) := by
  by_cases hslash : c = '/'
  · subst hslash
    have hcloses : (comma && !State.closes '/') = comma := Bool.and_true comma
    rw [hcloses]
    exact ahead_slash (hc.slash rfl)
  · have hread : read ⟨.code, [], held, comma⟩ c =
        State.solid ⟨.code, [], held, comma⟩ c .code := by
      simp [read, readCode, hc.blank, hc.comma, hc.quote, hslash]
    rw [code, ahead, List.foldl_cons, hread]
    exact finish_solid ..

theorem code_quote :
    code held comma ('"' :: s) = kept comma ++ (held.reverse ++ '"' :: quoted s) :=
  finish_solid_of_not_closes .quoted .code rfl s

theorem quoted_quote : quoted ('"' :: s) = '"' :: code [] false s := ahead_cons ..

theorem quoted_escape : quoted ('\\' :: c :: s) = '\\' :: c :: quoted s :=
  (ahead_cons ..).trans (congrArg ('\\' :: ·) (ahead_cons ..))

theorem quoted_plain (hquote : c ≠ '"') (hslash : c ≠ '\\') :
    quoted (c :: s) = c :: quoted s := by
  have hread : read ⟨.quoted, [], [], false⟩ c = ⟨.quoted, [c], [], false⟩ := by
    simp [read, hquote, hslash, State.verbatim]
  rw [quoted, ahead_cons, hread]
  rfl

-- ---------------------------------------------------------------------------
-- Comments
-- ---------------------------------------------------------------------------

def NoLineBreak (t : List Char) : Prop := '\n' ∉ t

/-- The text does not end a block comment. -/
def NoBlockEnd (t : List Char) : Prop := ¬ ['*', '/'] <:+: t

instance : Decidable (NoLineBreak t) := inferInstanceAs (Decidable (_ ∉ _))

instance : Decidable (NoBlockEnd t) := inferInstanceAs (Decidable (¬ _ <:+: _))

def lineBreaks (t : List Char) : List Char := t.filter (· == '\n')

theorem forall_mem_lineBreaks {p : Char → Bool} (hp : p '\n' = true) :
    ∀ d ∈ lineBreaks t, p d = true := by
  intro d hd
  obtain ⟨-, hd⟩ := List.mem_filter.mp hd
  rwa [beq_iff_eq.mp hd]

theorem forall_mem_held {p : Char → Bool} (hp : p '\n' = true) (hheld : ∀ d ∈ held, p d = true) :
    ∀ d ∈ (lineBreaks t).reverse ++ held, p d = true := by
  intro d hd
  obtain hd | hd := List.mem_append.mp hd
  · exact forall_mem_lineBreaks hp d (List.mem_reverse.mp hd)
  · exact hheld d hd

theorem ahead_lineComment (ht : NoLineBreak t) (held : List Char) (comma : Bool) (s : List Char) :
    ahead .lineComment held comma (t ++ s) = ahead .lineComment held comma s := by
  induction t with
  | nil => rfl
  | cons c t ih =>
    obtain ⟨hc, ht⟩ := List.ne_and_not_mem_of_not_mem_cons ht
    have hread : read ⟨.lineComment, [], held, comma⟩ c = ⟨.lineComment, [], held, comma⟩ := by
      simp [read, hc.symm]
    rw [List.cons_append, ahead_cons, hread]
    exact ih ht

theorem code_line (ht : NoLineBreak t) :
    code held comma ('/' :: '/' :: (t ++ '\n' :: s)) = code ('\n' :: held) comma s :=
  ahead_lineComment ht held comma ('\n' :: s)

theorem code_openLine (ht : NoLineBreak t) :
    code held comma ('/' :: '/' :: t) = kept comma ++ held.reverse := by
  have hcomment := ahead_lineComment ht held comma []
  rw [List.append_nil] at hcomment
  exact hcomment.trans code_nil

theorem NoBlockEnd.tail (ht : NoBlockEnd (c :: t)) : NoBlockEnd t :=
  fun h => ht (h.trans (List.suffix_cons c t).isInfix)

theorem NoBlockEnd.ne_slash (ht : NoBlockEnd (c :: d :: t)) : c = '*' → d ≠ '/' := by
  rintro rfl rfl
  exact ht ⟨[], t, rfl⟩

/-- Inside a block comment, and the next character does not end it. -/
def Inside (mode : Mode) (t : List Char) : Prop :=
  mode = .blockComment ∨ mode = .star ∧ ∀ c ∈ t.head?, c ≠ '/'

theorem read_inside {mode : Mode} (hmode : Inside mode (c :: t)) :
    read ⟨mode, [], held, comma⟩ c =
      ⟨if c = '*' then .star else .blockComment, [], lineBreaks [c] ++ held, comma⟩ := by
  have hheld : (if c == '\n' then State.blank ⟨mode, [], held, comma⟩ c
      else ⟨mode, [], held, comma⟩) = ⟨mode, [], lineBreaks [c] ++ held, comma⟩ := by
    by_cases hc : c = '\n' <;> simp [lineBreaks, State.blank, hc]
  obtain rfl | ⟨rfl, hslash⟩ := hmode
  · simp only [read, hheld]
    simp
  · simp only [read, hheld]
    simp [hslash c rfl]

theorem ahead_blockComment (ht : NoBlockEnd t) {mode : Mode} (hmode : Inside mode t)
    (held : List Char) (comma : Bool) (s : List Char) :
    ∃ last, Inside last [] ∧
      ahead mode held comma (t ++ s) = ahead last ((lineBreaks t).reverse ++ held) comma s := by
  induction t generalizing held mode with
  | nil => exact ⟨mode, hmode, rfl⟩
  | cons c t ih =>
    have hnext : Inside (if c = '*' then .star else .blockComment) t := by
      split
      · refine .inr ⟨rfl, ?_⟩
        cases t with
        | nil => nofun
        | cons d t =>
          rintro _ ⟨⟩
          exact ht.ne_slash ‹_›
      · exact .inl rfl
    obtain ⟨last, hlast, heq⟩ := ih ht.tail hnext (lineBreaks [c] ++ held)
    have hheld : (lineBreaks t).reverse ++ (lineBreaks [c] ++ held) =
        (lineBreaks (c :: t)).reverse ++ held := by
      by_cases hc : c = '\n' <;> simp [lineBreaks, hc]
    refine ⟨last, hlast, ?_⟩
    rw [List.cons_append, ahead_cons, read_inside hmode, ← hheld]
    exact heq

theorem code_block (ht : NoBlockEnd t) :
    code held comma ('/' :: '*' :: (t ++ '*' :: '/' :: s)) =
      code ((lineBreaks t).reverse ++ held) comma s := by
  obtain ⟨last, hlast, heq⟩ :=
    ahead_blockComment ht (.inl rfl) held comma ('*' :: '/' :: s)
  refine Eq.trans heq ?_
  obtain rfl | ⟨rfl, -⟩ := hlast <;> rfl

theorem code_openBlock (ht : NoBlockEnd t) :
    code held comma ('/' :: '*' :: t) = kept comma ++ (held.reverse ++ lineBreaks t) := by
  obtain ⟨last, hlast, heq⟩ :=
    ahead_blockComment ht (.inl rfl) held comma []
  rw [List.append_nil] at heq
  refine Eq.trans heq ?_
  have hend : kept comma ++ ((lineBreaks t).reverse ++ held).reverse =
      kept comma ++ (held.reverse ++ lineBreaks t) := by simp
  rw [← hend, ← code_nil]
  obtain rfl | ⟨rfl, -⟩ := hlast <;> rfl

end

-- ---------------------------------------------------------------------------
-- How a text goes on
-- ---------------------------------------------------------------------------

inductive Opening : List Char → Prop
  | nil : Opening []
  | blank (hc : Text.isBlank c = true) : Opening (c :: s)
  | comma : Opening (',' :: s)
  | quote : Opening ('"' :: s)
  | solid (hc : Solid c s) : Opening (c :: s)
  | line (ht : NoLineBreak t) : Opening ('/' :: '/' :: (t ++ '\n' :: s))
  | openLine (ht : NoLineBreak t) : Opening ('/' :: '/' :: t)
  | block (ht : NoBlockEnd t) : Opening ('/' :: '*' :: (t ++ '*' :: '/' :: s))
  | openBlock (ht : NoBlockEnd t) : Opening ('/' :: '*' :: t)

theorem noBlockEnd_or_append (u : List Char) :
    NoBlockEnd u ∨ ∃ t s, NoBlockEnd t ∧ u = t ++ '*' :: '/' :: s := by
  induction u with
  | nil => exact .inl (by simp [NoBlockEnd])
  | cons c u ih =>
    by_cases hend : ['*', '/'] <+: c :: u
    · obtain ⟨s, hs⟩ := hend
      exact .inr ⟨[], s, by simp [NoBlockEnd], hs.symm⟩
    · have hcons {t : List Char} (ht : NoBlockEnd t) (hstart : ¬ ['*', '/'] <+: c :: t) :
          NoBlockEnd (c :: t) := by
        rw [NoBlockEnd, List.infix_cons_iff]
        exact not_or.mpr ⟨hstart, ht⟩
      obtain hu | ⟨t, s, ht, rfl⟩ := ih
      · exact .inl (hcons hu hend)
      · refine .inr ⟨c :: t, s, hcons ht fun h => hend ?_, rfl⟩
        exact h.trans (List.prefix_append (c :: t) _)

theorem opening_comment {s : List Char} (hs : ¬ NoComment s) : Opening ('/' :: s) := by
  cases s with
  | nil => exact absurd nofun hs
  | cons d s =>
    have hd : d = '/' ∨ d = '*' := by
      by_contra hd
      refine hs ?_
      rintro _ ⟨⟩
      exact not_or.mp hd
    obtain rfl | rfl := hd
    · by_cases hline : '\n' ∈ s
      · obtain ⟨t, s, rfl, ht⟩ := List.eq_append_cons_of_mem hline
        exact .line ht
      · exact .openLine hline
    · obtain hs | ⟨t, s, ht, rfl⟩ := noBlockEnd_or_append s
      · exact .openBlock hs
      · exact .block ht

theorem opening (s : List Char) : Opening s := by
  cases s with
  | nil => exact .nil
  | cons c s =>
    by_cases hblank : Text.isBlank c = true
    · exact .blank hblank
    by_cases hcomma : c = ','
    · exact hcomma ▸ .comma
    by_cases hquote : c = '"'
    · exact hquote ▸ .quote
    by_cases hslash : c = '/' → NoComment s
    · exact .solid ⟨by simpa using hblank, hcomma, hquote, hslash⟩
    · obtain ⟨rfl, hs⟩ := Classical.not_imp.mp hslash
      exact opening_comment hs

/-- A text outside quotes is gone through opening by opening. After a quote or a
character that stays, what is left may be any suffix. -/
theorem scan_induction {motive : List Char → Prop} (nil : motive [])
    (blank : ∀ c s, Text.isBlank c = true → motive s → motive (c :: s))
    (comma : ∀ s, motive s → motive (',' :: s))
    (quote : ∀ s, (∀ rest, rest <:+ s → motive rest) → motive ('"' :: s))
    (solid : ∀ c s, Solid c s → (∀ rest, rest <:+ s → motive rest) → motive (c :: s))
    (line : ∀ t s, NoLineBreak t → motive s → motive ('/' :: '/' :: (t ++ '\n' :: s)))
    (openLine : ∀ t, NoLineBreak t → motive ('/' :: '/' :: t))
    (block : ∀ t s, NoBlockEnd t → motive s → motive ('/' :: '*' :: (t ++ '*' :: '/' :: s)))
    (openBlock : ∀ t, NoBlockEnd t → motive ('/' :: '*' :: t)) (s : List Char) : motive s := by
  induction hn : s.length using Nat.strong_induction_on generalizing s with
  | _ n ih =>
    have hshorter (rest : List Char) (hrest : rest.length < s.length) : motive rest :=
      ih rest.length (hn ▸ hrest) rest rfl
    have hsuffix {c : Char} {tail : List Char} (hs : s = c :: tail) (rest : List Char)
        (hrest : rest <:+ tail) : motive rest := by
      have hle := hrest.length_le
      exact hshorter rest (by simpa [hs] using Nat.lt_succ_of_le hle)
    cases opening s with
    | nil => exact nil
    | blank hc => exact blank _ _ hc (hsuffix rfl _ (List.suffix_refl _))
    | comma => exact comma _ (hsuffix rfl _ (List.suffix_refl _))
    | quote => exact quote _ (hsuffix rfl)
    | solid hc => exact solid _ _ hc (hsuffix rfl)
    | line ht => exact line _ _ ht (hshorter _ (by simp; omega))
    | openLine ht => exact openLine _ ht
    | block ht => exact block _ _ ht (hshorter _ (by simp; omega))
    | openBlock ht => exact openBlock _ ht

-- ---------------------------------------------------------------------------
-- Characters of numbers and words
-- ---------------------------------------------------------------------------

/-- A character that is written down as it stands and keeps a comma before it. -/
def isInner (c : Char) : Bool :=
  !Text.isBlank c && c != ',' && c != '"' && c != '/' && !State.closes c

theorem isInner_iff {c : Char} :
    isInner c = true ↔ Text.isBlank c = false ∧ c ≠ ',' ∧ c ≠ '"' ∧ c ≠ '/' ∧
      State.closes c = false := by
  simp [isInner, and_assoc]

theorem isInner_of_isDigit {c : Char} (hc : c.isDigit = true) : isInner c = true := by
  have hrange : 48 ≤ c.toNat ∧ c.toNat ≤ 57 := by
    simp only [Char.isDigit, Bool.and_eq_true, decide_eq_true_eq, UInt32.le_iff_toNat_le] at hc
    exact hc
  have hblank : Text.isBlank c = false := by
    simp only [Text.isBlank, Bool.or_eq_false_iff, Bool.and_eq_false_iff, decide_eq_false_iff_not,
      beq_eq_false_iff_ne]
    omega
  have hother : c ≠ ',' ∧ c ≠ '"' ∧ c ≠ '/' ∧ c ≠ '}' ∧ c ≠ ']' := by
    refine ⟨?_, ?_, ?_, ?_, ?_⟩ <;> (rintro rfl; revert hrange; decide)
  simp [isInner, hblank, hother, State.closes]

theorem solid_of_isInner {c : Char} (hc : isInner c = true) (s : List Char) : Solid c s := by
  obtain ⟨hblank, hcomma, hquote, hslash, -⟩ := isInner_iff.mp hc
  exact ⟨hblank, hcomma, hquote, fun h => absurd h hslash⟩

theorem not_isInner_kept {held tail rest : List Char} {comma : Bool} {c : Char}
    (h : kept comma ++ (held.reverse ++ tail) = c :: rest) (hsome : held ≠ [] ∨ comma = true)
    (hheld : ∀ d ∈ held, Text.isBlank d = true) : isInner c = false := by
  cases comma with
  | true =>
    obtain ⟨rfl, -⟩ := List.cons.inj h
    rfl
  | false =>
    have hne : held.reverse ≠ [] := by simpa using hsome
    obtain ⟨d, ds, hds⟩ := List.exists_cons_of_ne_nil hne
    rw [hds] at h
    obtain ⟨rfl, -⟩ := List.cons.inj h
    have hblank := hheld d (List.mem_reverse.mp (hds ▸ List.mem_cons_self))
    simp [isInner, hblank]

theorem not_isInner_code {held s rest : List Char} {comma : Bool} {c : Char}
    (h : code held comma s = c :: rest) (hsome : held ≠ [] ∨ comma = true)
    (hheld : ∀ d ∈ held, Text.isBlank d = true) : isInner c = false := by
  induction s using scan_induction generalizing held comma with
  | nil =>
    rw [code_nil, ← List.append_nil held.reverse] at h
    exact not_isInner_kept h hsome hheld
  | blank d s hd ih =>
    rw [code_blank hd] at h
    exact ih h (.inl nofun) (List.forall_mem_cons.mpr ⟨hd, hheld⟩)
  | comma s ih =>
    rw [code_comma] at h
    cases comma with
    | true =>
      obtain ⟨rfl, -⟩ := List.cons.inj h
      rfl
    | false => exact ih h (.inr rfl) hheld
  | quote s ih =>
    rw [code_quote] at h
    exact not_isInner_kept h hsome hheld
  | solid d s hd ih =>
    rw [code_solid hd] at h
    by_cases hkept : held ≠ [] ∨ (comma && !State.closes d) = true
    · exact not_isInner_kept h hkept hheld
    · -- Only a comma was held, and this bracket drops it.
      obtain ⟨hempty, hdropped⟩ := not_or.mp hkept
      obtain rfl : held = [] := not_not.mp hempty
      obtain rfl : comma = true := by simpa using hsome
      have hcloses : State.closes d = true := by simpa using hdropped
      rw [hcloses] at h
      obtain ⟨rfl, -⟩ := List.cons.inj h
      simp [isInner, hcloses]
  | line t s ht ih =>
    rw [code_line ht] at h
    exact ih h (.inl nofun) (List.forall_mem_cons.mpr ⟨by decide, hheld⟩)
  | openLine t ht =>
    rw [code_openLine ht, ← List.append_nil held.reverse] at h
    exact not_isInner_kept h hsome hheld
  | block t s ht ih =>
    rw [code_block ht] at h
    refine ih h ?_ (forall_mem_held rfl hheld)
    exact hsome.imp_left fun hne heq => hne (List.append_eq_nil_iff.mp heq).2
  | openBlock t ht =>
    rw [code_openBlock ht] at h
    exact not_isInner_kept h hsome hheld

/-- Characters of a number or a word, with comments of one line between them. -/
inductive Interrupted : List Char → List Char → Prop
  | nil : Interrupted [] []
  | char (h : Interrupted w b) : Interrupted (c :: w) (c :: b)
  | comment (hend : NoBlockEnd t) (hline : NoLineBreak t) (h : Interrupted (c :: w) b) :
    Interrupted (c :: w) ('/' :: '*' :: (t ++ '*' :: '/' :: b))

theorem Interrupted.refl : ∀ w : List Char, Interrupted w w
  | [] => .nil
  | _ :: w => .char (refl w)

theorem code_interrupted {w b : List Char} (h : Interrupted w b)
    (hw : ∀ c ∈ w, isInner c = true) (s : List Char) :
    code [] false (b ++ s) = w ++ code [] false s := by
  induction h with
  | nil => rfl
  | @char w b c h ih =>
    obtain ⟨hc, hw⟩ := List.forall_mem_cons.mp hw
    rw [List.cons_append, code_solid (solid_of_isInner hc _), ih hw]
    rfl
  | @comment t c w b hend hline h ih =>
    have hbreaks : lineBreaks t = [] :=
      List.filter_eq_nil_iff.mpr fun d hd heq => hline (beq_iff_eq.mp heq ▸ hd)
    calc code [] false ('/' :: '*' :: (t ++ '*' :: '/' :: b) ++ s)
        = code [] false ('/' :: '*' :: (t ++ '*' :: '/' :: (b ++ s))) := by simp
      _ = code ((lineBreaks t).reverse ++ []) false (b ++ s) := code_block hend
      _ = c :: w ++ code [] false s := by rw [hbreaks]; exact ih hw

theorem exists_interrupted_cons {c : Char} {w s rest : List Char}
    (hw : ∀ d ∈ c :: w, isInner d = true) (h : code [] false s = c :: (w ++ rest)) :
    ∃ b tail, s = b ++ tail ∧ Interrupted (c :: w) b ∧ code [] false tail = rest := by
  induction s using scan_induction generalizing c w with
  | nil => cases h
  | solid d s hd ih =>
    have hafter := (List.forall_mem_cons.mp hw).2
    rw [code_solid hd] at h
    obtain ⟨rfl, hrest⟩ := List.cons.inj h
    cases w with
    | nil => exact ⟨[d], s, rfl, .char .nil, hrest⟩
    | cons c w =>
      obtain ⟨b, tail, rfl, hb, htail⟩ := ih s (List.suffix_refl s) hafter hrest
      exact ⟨d :: b, tail, rfl, .char hb, htail⟩
  | block t s ht ih =>
    rw [code_block ht] at h
    by_cases hline : lineBreaks t = []
    · rw [hline] at h
      obtain ⟨b, tail, rfl, hb, htail⟩ := ih hw h
      have hnone : NoLineBreak t := by
        intro hmem
        simpa using List.filter_eq_nil_iff.mp hline _ hmem
      exact ⟨'/' :: '*' :: (t ++ '*' :: '/' :: b), tail, by simp, .comment ht hnone hb, htail⟩
    · have hheld := forall_mem_held (t := t) (p := Text.isBlank) rfl (List.forall_mem_nil _)
      have hc := not_isInner_code h (.inl (by simpa using hline)) hheld
      cases hc.symm.trans (hw c List.mem_cons_self)
  | blank d s hd ih =>
    rw [code_blank hd] at h
    have hc := not_isInner_code h (.inl nofun) (by simp [hd])
    cases hc.symm.trans (hw c List.mem_cons_self)
  | comma s ih =>
    rw [code_comma] at h
    have hc := not_isInner_code h (.inr rfl) (by simp)
    cases hc.symm.trans (hw c List.mem_cons_self)
  | quote s ih =>
    rw [code_quote] at h
    obtain ⟨rfl, -⟩ := List.cons.inj h
    cases hw _ List.mem_cons_self
  | line t s ht ih =>
    rw [code_line ht] at h
    have hc := not_isInner_code h (.inl nofun) (List.forall_mem_singleton.mpr rfl)
    cases hc.symm.trans (hw c List.mem_cons_self)
  | openLine t ht =>
    rw [code_openLine ht] at h
    cases h
  | openBlock t ht =>
    rw [code_openBlock ht] at h
    have hmem : c ∈ lineBreaks t := by
      have hbreaks : lineBreaks t = c :: (w ++ rest) := h
      simp [hbreaks]
    have hblank := forall_mem_lineBreaks (p := Text.isBlank) rfl c hmem
    have hc := (isInner_iff.mp (hw c List.mem_cons_self)).1
    cases hblank.symm.trans hc

/-- Where the scanner writes characters of a number or a word, it has read them. -/
theorem exists_interrupted {w s rest : List Char} (hw : ∀ c ∈ w, isInner c = true)
    (h : code [] false s = w ++ rest) :
    ∃ b tail, s = b ++ tail ∧ Interrupted w b ∧ code [] false tail = rest := by
  cases w with
  | nil => exact ⟨[], s, rfl, .nil, h⟩
  | cons c w => exact exists_interrupted_cons hw h

end CtorArity.Jsonc
