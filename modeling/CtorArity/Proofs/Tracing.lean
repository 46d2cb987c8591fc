import CtorArity.Proofs.Scanning

/-!
# Lines of the normalised text

The scanner once more, on characters that carry their place in the source, so that
each character it writes tells where it was read (`written`). All that is written
stands on its line, but for commas outside quotes: they go before the blank
characters in front of them, and so they may end up some lines earlier
(`normalize_lines`).
-/

namespace CtorArity.Jsonc

structure Mark where
  char : Char
  place : Nat
  deriving DecidableEq, Repr

/-- A state of the scanner, with the places of what it has read. -/
structure Trace where
  mode : Mode
  out : List Mark
  held : List Mark
  comma : Option Nat
  deriving DecidableEq, Repr

namespace Trace

def start : Trace := ⟨.code, [], [], none⟩

def pending (t : Trace) : List Mark := (t.comma.map (⟨',', ·⟩)).toList

def settled (t : Trace) (keep : Bool) : List Mark :=
  t.held ++ if keep then t.pending ++ t.out else t.out

def blank (t : Trace) (m : Mark) : Trace := { t with held := m :: t.held }

def solid (t : Trace) (m : Mark) (mode : Mode) : Trace :=
  ⟨mode, m :: t.settled (!State.closes m.char), [], none⟩

def verbatim (t : Trace) (m : Mark) (mode : Mode) : Trace :=
  { t with mode := mode, out := m :: t.out }

def holdComma (t : Trace) (place : Nat) : Trace :=
  { t with out := t.pending ++ t.out, comma := some place }

def readCode (t : Trace) (m : Mark) : Trace :=
  if m.char == '"' then t.solid m .quoted
  else if m.char == '/' then { t with mode := .slash }
  else if m.char == ',' then t.holdComma m.place
  else if Text.isBlank m.char then t.blank m
  else t.solid m .code

/-- A slash that starts no comment was read right before. -/
def read (t : Trace) (m : Mark) : Trace :=
  match t.mode with
  | .code => t.readCode m
  | .slash =>
    if m.char == '/' then { t with mode := .lineComment }
    else if m.char == '*' then { t with mode := .blockComment }
    else (t.solid ⟨'/', m.place - 1⟩ .code).readCode m
  | .quoted =>
    if m.char == '\\' then t.verbatim m .escaped
    else if m.char == '"' then t.verbatim m .code
    else t.verbatim m .quoted
  | .escaped => t.verbatim m .quoted
  | .lineComment => if m.char == '\n' then { t.blank m with mode := .code } else t
  | .blockComment | .star =>
    if t.mode == .star && m.char == '/' then { t with mode := .code }
    else
      let t := if m.char == '\n' then t.blank m else t
      { t with mode := if m.char == '*' then .star else .blockComment }

def finish (t : Trace) (length : Nat) : List Mark :=
  let t := if t.mode = .slash then t.solid ⟨'/', length - 1⟩ .code else t
  (t.settled true).reverse

def state (t : Trace) : State := ⟨t.mode, t.out.map (·.char), t.held.map (·.char), t.comma.isSome⟩

end Trace

/-- The trace after these first characters of a source. -/
def trace (source : List Char) : Trace :=
  source.zipIdx.foldl (fun t (c, place) => t.read ⟨c, place⟩) .start

/-- The characters of the normalised text, each with the place where it was read. -/
def written (source : List Char) : List Mark := (trace source).finish source.length

-- ---------------------------------------------------------------------------
-- Places change nothing
-- ---------------------------------------------------------------------------

namespace Trace

variable {t : Trace} {m : Mark} {mode : Mode}

theorem state_settled (t : Trace) (keep : Bool) :
    (t.settled keep).map (·.char) = t.state.settled keep := by
  obtain ⟨mode, out, held, comma⟩ := t
  cases comma <;> cases keep <;> simp [settled, pending, state, State.settled]

theorem state_solid : (t.solid m mode).state = t.state.solid m.char mode := by
  simp [solid, state, State.solid, state_settled]

theorem state_holdComma (place : Nat) : (t.holdComma place).state = t.state.holdComma := by
  obtain ⟨mode, out, held, comma⟩ := t
  cases comma <;> simp [holdComma, pending, state, State.holdComma]

theorem state_readCode (t : Trace) (m : Mark) :
    (t.readCode m).state = Jsonc.readCode t.state m.char := by
  unfold readCode Jsonc.readCode
  split
  · exact state_solid
  · split
    · rfl
    · split
      · exact state_holdComma m.place
      · split
        · rfl
        · exact state_solid

theorem state_read (t : Trace) (m : Mark) : (t.read m).state = Jsonc.read t.state m.char := by
  obtain ⟨mode, out, held, comma⟩ := t
  cases mode <;> simp only [read, Jsonc.read, state]
  case code => exact state_readCode _ m
  case slash =>
    split
    · rfl
    · split
      · rfl
      · exact (state_readCode _ m).trans (by rw [state_solid]; rfl)
  case quoted =>
    split
    · rfl
    · split <;> rfl
  case escaped => rfl
  case lineComment => split <;> rfl
  case blockComment | star =>
    by_cases hend : m.char = '/' <;> by_cases hline : m.char = '\n' <;>
      simp [hend, hline, blank, State.blank]

theorem state_finish (t : Trace) (length : Nat) :
    (t.finish length).map (·.char) = Jsonc.finish t.state := by
  have hmode : t.state.mode = t.mode := rfl
  unfold finish Jsonc.finish
  rw [hmode]
  split <;> simp [state_settled, state_solid]

end Trace

theorem trace_concat (source : List Char) (c : Char) :
    trace (source ++ [c]) = (trace source).read ⟨c, source.length⟩ := by
  simp [trace, List.zipIdx_append]

theorem state_trace (source : List Char) : (trace source).state = source.foldl read .start := by
  induction source using List.reverseRecOn with
  | nil => rfl
  | append_singleton source c ih =>
    rw [trace_concat, Trace.state_read, ih, List.foldl_append]
    rfl

theorem map_char_written (source : List Char) :
    (written source).map (·.char) = normalizeChars source := by
  rw [written, Trace.state_finish, state_trace]
  rfl

-- ---------------------------------------------------------------------------
-- Lines
-- ---------------------------------------------------------------------------

def breaks (w : List Mark) : Nat := (w.map (·.char)).count '\n'

section
variable {w a b before after : List Mark} {m x : Mark}

@[simp] theorem breaks_nil : breaks [] = 0 := rfl

@[simp] theorem breaks_append (a b : List Mark) : breaks (a ++ b) = breaks a + breaks b := by
  simp [breaks]

@[simp] theorem breaks_cons (m : Mark) (w : List Mark) :
    breaks (m :: w) = breaks w + [m.char].count '\n' := by
  simp [breaks, List.count_cons]

theorem append_eq_append_cons (h : a ++ b = before ++ m :: after) :
    (∃ mid, a = before ++ m :: mid ∧ after = mid ++ b) ∨
      ∃ mid, before = a ++ mid ∧ b = mid ++ m :: after := by
  rcases List.append_eq_append_iff.mp h with ⟨mid, hbefore, hb⟩ | ⟨mid, rfl, hmid⟩
  · exact .inr ⟨mid, hbefore, hb⟩
  · cases mid with
    | nil => exact .inr ⟨[], by simp, hmid.symm⟩
    | cons y mid =>
      obtain ⟨rfl, rfl⟩ := List.cons.inj hmid
      exact .inl ⟨mid, rfl, rfl⟩

theorem insert_eq_append_cons (h : a ++ x :: b = before ++ m :: after) :
    (∃ mid, a = before ++ m :: mid ∧ after = mid ++ x :: b) ∨
      (before = a ∧ m = x ∧ after = b) ∨
      ∃ mid, before = a ++ x :: mid ∧ b = mid ++ m :: after := by
  refine (append_eq_append_cons h).imp_right ?_
  rintro ⟨mid, rfl, hmid⟩
  cases mid with
  | nil =>
    obtain ⟨rfl, rfl⟩ := List.cons.inj hmid
    exact .inl ⟨by simp, rfl, rfl⟩
  | cons y mid =>
    obtain ⟨rfl, rfl⟩ := List.cons.inj hmid
    exact .inr ⟨mid, rfl, rfl⟩

end

/-- What may be written before what: characters keep their order, but commas go before
blank characters. -/
def Mark.GoesBefore (m d : Mark) : Prop :=
  m.place < d.place ∨ d.place < m.place ∧ m.char = ',' ∧ Text.isBlank d.char = true

/-- How what is written stands to the source. -/
structure Aligned (source : List Char) (w : List Mark) : Prop where
  read : ∀ m ∈ w, source[m.place]? = some m.char
  order : w.Pairwise Mark.GoesBefore
  /-- What stands before a character in the source stands before it or was passed by it. -/
  lines : ∀ before m after, w = before ++ m :: after →
    breaks before + breaks (after.filter (·.place < m.place)) =
      (source.take m.place).count '\n'
  total : breaks w = source.count '\n'

namespace Aligned

variable {source : List Char} {c : Char} {w a b before after : List Mark} {m x : Mark}

theorem nil : Aligned [] [] where
  read _ hm := nomatch hm
  order := .nil
  lines _ _ _ h := by simp at h
  total := rfl

theorem place_lt (h : Aligned source w) (hm : m ∈ w) : m.place < source.length :=
  (List.getElem?_eq_some_iff.mp (h.read m hm)).1

theorem skip (h : Aligned source w) (hc : c ≠ '\n') : Aligned (source ++ [c]) w where
  read m hm := by
    rw [List.getElem?_append_left (h.place_lt hm)]
    exact h.read m hm
  order := h.order
  lines before m after hw := by
    have hlt := h.place_lt (hw ▸ List.mem_append_right before List.mem_cons_self)
    rw [List.take_append_of_le_length (Nat.le_of_lt hlt)]
    exact h.lines before m after hw
  total := by simp [h.total, hc]

theorem order_insert (h : Aligned source (a ++ b))
    (hb : ∀ d ∈ b, c = ',' ∧ Text.isBlank d.char = true) :
    (a ++ ⟨c, source.length⟩ :: b).Pairwise Mark.GoesBefore := by
  obtain ⟨hordera, horderb, hcross⟩ := List.pairwise_append.mp h.order
  refine List.pairwise_append.mpr ⟨hordera, List.pairwise_cons.mpr ⟨?_, horderb⟩, ?_⟩
  · exact fun d hd => .inr ⟨h.place_lt (List.mem_append_right a hd), hb d hd⟩
  · intro m hm d hd
    rcases List.mem_cons.mp hd with rfl | hd
    · exact .inl (h.place_lt (List.mem_append_left b hm))
    · exact hcross m hm d hd

theorem lines_insert (h : Aligned source (a ++ b)) (hb : ∀ d ∈ b, c = ',')
    (hw : a ++ ⟨c, source.length⟩ :: b = before ++ m :: after) :
    breaks before + breaks (after.filter (·.place < m.place)) =
      ((source ++ [c]).take m.place).count '\n' := by
  have htake (n : Nat) (hn : n ≤ source.length) : (source ++ [c]).take n = source.take n :=
    List.take_append_of_le_length hn
  rcases insert_eq_append_cons hw with ⟨mid, rfl, rfl⟩ | ⟨rfl, rfl, rfl⟩ | ⟨mid, rfl, rfl⟩
  · -- The new character comes later, in the source too.
    have hlt : m.place < source.length := h.place_lt (by simp)
    have hlines := h.lines before m (mid ++ b) (by simp)
    rw [htake _ (Nat.le_of_lt hlt), ← hlines]
    simp [Nat.not_lt.mpr (Nat.le_of_lt hlt)]
  · -- All that is behind the new character comes earlier in the source.
    have hall : after.filter (·.place < source.length) = after :=
      List.filter_eq_self.mpr fun d hd =>
        decide_eq_true (h.place_lt (List.mem_append_right before hd))
    rw [hall, htake _ (Nat.le_refl _), List.take_length, ← h.total, breaks_append]
  · -- The new character is a comma, and no line break.
    have hlt : m.place < source.length := h.place_lt (by simp)
    obtain rfl := hb m (by simp)
    have hlines := h.lines (a ++ mid) m after (by simp)
    rw [htake _ (Nat.le_of_lt hlt), ← hlines]
    simp

theorem insert (h : Aligned source (a ++ b))
    (hb : ∀ d ∈ b, c = ',' ∧ Text.isBlank d.char = true) :
    Aligned (source ++ [c]) (a ++ ⟨c, source.length⟩ :: b) where
  read m hm := by
    rcases List.mem_cons.mp (List.perm_middle.mem_iff.mp hm) with rfl | hm
    · exact List.getElem?_concat_length
    · rw [List.getElem?_append_left (h.place_lt hm)]
      exact h.read m hm
  order := h.order_insert hb
  lines _ _ _ hw := h.lines_insert (fun d hd => (hb d hd).1) hw
  total := by
    have htotal := h.total
    simp only [breaks_append, breaks_cons, List.count_append] at htotal ⊢
    omega

theorem drop (h : Aligned source (a ++ x :: b)) (hx : x.char ≠ '\n') : Aligned source (a ++ b) := by
  have hsub : (a ++ b).Sublist (a ++ x :: b) := (List.sublist_cons_self x b).append_left a
  have hnone : [x.char].count '\n' = 0 := by simp [hx]
  refine ⟨fun m hm => h.read m (hsub.subset hm), h.order.sublist hsub, ?_, ?_⟩
  · intro before m after hw
    rcases append_eq_append_cons hw with ⟨mid, rfl, rfl⟩ | ⟨mid, rfl, rfl⟩
    · have hlines := h.lines before m (mid ++ x :: b) (by simp)
      rw [List.filter_append, List.filter_cons] at hlines
      split at hlines <;> simpa [hnone] using hlines
    · have hlines := h.lines (a ++ x :: mid) m after (by simp)
      simpa [hnone] using hlines
  · have htotal := h.total
    simp only [breaks_append, breaks_cons] at htotal ⊢
    omega

theorem concat (h : Aligned source w) (c : Char) :
    Aligned (source ++ [c]) (w ++ [⟨c, source.length⟩]) :=
  insert (by rwa [List.append_nil]) fun _ hd => nomatch hd

/-- Only commas leave their line. -/
theorem breaks_eq_of_ne_comma (h : Aligned source w) (hw : w = before ++ m :: after)
    (hm : m.char ≠ ',') : breaks before = (source.take m.place).count '\n' := by
  have hnone : after.filter (·.place < m.place) = [] := by
    refine List.filter_eq_nil_iff.mpr fun d hd => ?_
    have horder := (List.pairwise_cons.mp (List.pairwise_append.mp (hw ▸ h.order)).2.1).1 d hd
    rcases horder with hlt | ⟨-, hcomma, -⟩
    · simpa using Nat.le_of_lt hlt
    · exact absurd hcomma hm
  have hlines := h.lines before m after hw
  rwa [hnone, breaks_nil, Nat.add_zero] at hlines

end Aligned

-- ---------------------------------------------------------------------------
-- What a trace keeps
-- ---------------------------------------------------------------------------

namespace Trace

variable {t : Trace} {source : List Char} {c : Char}

def text (t : Trace) : List Mark := (t.settled true).reverse

theorem reverse_settled (t : Trace) (keep : Bool) : (t.settled keep).reverse =
    t.out.reverse ++ ((if keep then t.pending else []) ++ t.held.reverse) := by
  obtain ⟨mode, out, held, comma⟩ := t
  cases comma <;> cases keep <;> simp [settled, pending]

/-- The text is aligned to this much of the source, and only blank characters are held. -/
structure Follows (t : Trace) (source : List Char) : Prop where
  aligned : Aligned source t.text
  blank : ∀ m ∈ t.held, Text.isBlank m.char = true

namespace Follows

theorem settled (h : t.Follows source) (keep : Bool) :
    Aligned source (t.settled keep).reverse := by
  obtain ⟨mode, out, held, comma⟩ := t
  cases keep with
  | true => exact h.aligned
  | false =>
    have haligned := h.aligned
    rw [text, reverse_settled] at haligned
    rw [reverse_settled]
    cases comma with
    | none => exact haligned
    | some place => exact haligned.drop (by simp)

theorem skip (h : t.Follows source) (hc : c ≠ '\n') (mode : Mode) :
    { t with mode := mode }.Follows (source ++ [c]) :=
  ⟨h.aligned.skip hc, h.blank⟩

theorem solid (h : t.Follows source) (c : Char) (mode : Mode) :
    (t.solid ⟨c, source.length⟩ mode).Follows (source ++ [c]) where
  aligned := by
    rw [text, reverse_settled]
    simpa [Trace.solid, pending] using (h.settled (!State.closes c)).concat c
  blank _ hm := nomatch hm

theorem hold (h : t.Follows source) (hc : Text.isBlank c = true) :
    (t.blank ⟨c, source.length⟩).Follows (source ++ [c]) where
  aligned := by
    have haligned := h.aligned.concat c
    rw [text, reverse_settled] at haligned ⊢
    simpa [Trace.blank, pending] using haligned
  blank := List.forall_mem_cons.mpr ⟨hc, h.blank⟩

theorem holdComma (h : t.Follows source) :
    (t.holdComma source.length).Follows (source ++ [',']) where
  aligned := by
    have haligned := h.aligned
    rw [text, reverse_settled, ← List.append_assoc] at haligned
    have hinsert := haligned.insert (c := ',') fun d hd =>
      ⟨rfl, h.blank d (List.mem_reverse.mp hd)⟩
    rw [text, reverse_settled]
    obtain ⟨mode, out, held, comma⟩ := t
    cases comma <;> simpa [Trace.holdComma, pending] using hinsert
  blank := h.blank

theorem verbatim (h : t.Follows source) (hheld : t.held = []) (hcomma : t.comma = none) (c : Char)
    (mode : Mode) : (t.verbatim ⟨c, source.length⟩ mode).Follows (source ++ [c]) where
  aligned := by
    have haligned := h.aligned.concat c
    rw [text, reverse_settled] at haligned ⊢
    simpa [Trace.verbatim, pending, hheld, hcomma] using haligned
  blank := h.blank

end Follows

/-- What a trace keeps in each mode. A slash that has been read is not written yet, and
inside quotes nothing is held. -/
def Ready (t : Trace) (source : List Char) : Prop :=
  match t.mode with
  | .slash => ∃ earlier, source = earlier ++ ['/'] ∧ t.Follows earlier
  | .quoted | .escaped => t.Follows source ∧ t.held = [] ∧ t.comma = none
  | .code | .lineComment | .blockComment | .star => t.Follows source

theorem ready_readCode (h : t.Follows source) (hmode : t.mode = .code) (c : Char) :
    (t.readCode ⟨c, source.length⟩).Ready (source ++ [c]) := by
  obtain ⟨mode, out, held, comma⟩ := t
  obtain rfl : mode = .code := hmode
  unfold readCode
  split
  · exact ⟨h.solid c .quoted, rfl, rfl⟩
  · split
    · next hslash =>
      obtain rfl : c = '/' := beq_iff_eq.mp hslash
      exact ⟨source, rfl, h.aligned, h.blank⟩
    · split
      · next hcomma =>
        obtain rfl : c = ',' := beq_iff_eq.mp hcomma
        exact h.holdComma
      · split
        · next hblank => exact h.hold hblank
        · exact h.solid c .code

theorem ready_comment (h : t.Follows source) (c : Char) :
    Ready { (if c == '\n' then t.blank ⟨c, source.length⟩ else t) with
      mode := if c == '*' then .star else .blockComment } (source ++ [c]) := by
  split
  · next hline =>
    obtain rfl : c = '\n' := beq_iff_eq.mp hline
    have hheld := h.hold (c := '\n') rfl
    exact Follows.mk hheld.aligned hheld.blank
  · next hline =>
    have hskip := h.skip (c := c) (by simpa using hline)
    split
    · exact hskip .star
    · exact hskip .blockComment

theorem ready_read (h : t.Ready source) (c : Char) :
    (t.read ⟨c, source.length⟩).Ready (source ++ [c]) := by
  obtain ⟨mode, out, held, comma⟩ := t
  cases mode <;> simp only [read]
  case code => exact ready_readCode h rfl c
  case slash =>
    obtain ⟨earlier, rfl, h⟩ := h
    have hslash := h.skip (c := '/') (by decide) .slash
    split
    · next hline =>
      obtain rfl : c = '/' := beq_iff_eq.mp hline
      exact hslash.skip (by decide) .lineComment
    · split
      · next hblock =>
        obtain rfl : c = '*' := beq_iff_eq.mp hblock
        exact hslash.skip (by decide) .blockComment
      · have hplace : (earlier ++ ['/']).length - 1 = earlier.length := by simp
        have hready := ready_readCode (h.solid '/' .code) rfl c
        rwa [← hplace] at hready
  case quoted =>
    obtain ⟨h, hheld, hcomma⟩ := h
    split
    · exact ⟨h.verbatim hheld hcomma c .escaped, hheld, hcomma⟩
    · split
      · exact h.verbatim hheld hcomma c .code
      · exact ⟨h.verbatim hheld hcomma c .quoted, hheld, hcomma⟩
  case escaped =>
    obtain ⟨h, hheld, hcomma⟩ := h
    exact ⟨h.verbatim hheld hcomma c .quoted, hheld, hcomma⟩
  case lineComment =>
    split
    · next hline =>
      obtain rfl : c = '\n' := beq_iff_eq.mp hline
      have hheld := h.hold (c := '\n') rfl
      exact ⟨hheld.aligned, hheld.blank⟩
    · next hline => exact h.skip (by simpa using hline) .lineComment
  case blockComment => exact ready_comment h c
  case star =>
    split
    · next hend =>
      obtain rfl : c = '/' := by simpa using hend
      exact h.skip (by decide) .code
    · exact ready_comment h c

end Trace

theorem ready_trace (source : List Char) : (trace source).Ready source := by
  induction source using List.reverseRecOn with
  | nil => exact ⟨.nil, fun _ hm => nomatch hm⟩
  | append_singleton source c ih =>
    rw [trace_concat]
    exact Trace.ready_read ih c

theorem written_aligned (source : List Char) : Aligned source (written source) := by
  have hready := ready_trace source
  unfold written Trace.finish
  generalize trace source = t at hready
  obtain ⟨mode, out, held, comma⟩ := t
  cases mode
  case slash =>
    obtain ⟨earlier, rfl, h⟩ := hready
    have hplace : (earlier ++ ['/']).length - 1 = earlier.length := by simp
    rw [hplace]
    exact (h.solid '/' .code).aligned
  case quoted | escaped => exact hready.1.aligned
  all_goals exact hready.aligned

/-- The normalised text has the line breaks of its source. What it keeps stands on its
line and in its order, but for commas: a comma goes before blank characters in front of
it, and leaves as many lines as there are line breaks among these. -/
theorem normalize_lines (source : String) :
    (written source.toList).map (·.char) = (normalize source).toList ∧
      (normalize source).toList.count '\n' = source.toList.count '\n' ∧
      Aligned source.toList (written source.toList) ∧
      ∀ before m after, written source.toList = before ++ m :: after → m.char ≠ ',' →
        breaks before = (source.toList.take m.place).count '\n' := by
  have haligned := written_aligned source.toList
  have htext : (written source.toList).map (·.char) = (normalize source).toList := by
    rw [map_char_written, normalize, String.toList_ofList]
  refine ⟨htext, ?_, haligned, fun _ _ _ hw hm => haligned.breaks_eq_of_ne_comma hw hm⟩
  rw [← htext]
  exact haligned.total

/-- After a line break a comma leaves its line: however the characters of the normalised
text are traced to the source, not all of them are on their lines. -/
theorem not_lines_of_comma_after_break : ¬ ∃ w : List Mark,
    w.map (·.char) = (normalize "[1\n,2]").toList ∧
      ∀ before m after, w = before ++ m :: after →
        "[1\n,2]".toList[m.place]? = some m.char ∧
          breaks before = ("[1\n,2]".toList.take m.place).count '\n' := by
  rintro ⟨w, hw, hlines⟩
  have htext : (normalize "[1\n,2]").toList = ['[', '1'] ++ ',' :: ['\n', '2', ']'] := by decide
  rw [htext, List.map_eq_append_iff] at hw
  obtain ⟨before, rest, rfl, hbefore, hrest⟩ := hw
  obtain ⟨m, after, rfl, hm, -⟩ := List.map_eq_cons_iff.mp hrest
  obtain ⟨hread, hbreaks⟩ := hlines before m after rfl
  -- The comma is the fourth character, and a line break stands before it.
  have hcomma : ∀ n < 6, "[1\n,2]".toList[n]? = some ',' →
      ("[1\n,2]".toList.take n).count '\n' = 1 := by decide
  rw [hm] at hread
  have hone := hcomma m.place (List.getElem?_eq_some_iff.mp hread).1 hread
  rw [hone, breaks, hbefore] at hbreaks
  revert hbreaks
  decide

end CtorArity.Jsonc
