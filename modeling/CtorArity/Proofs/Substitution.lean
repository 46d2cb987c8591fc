import CtorArity.Proofs.Wording

/-!
# Filling as one substitution

Filling replaces the place of one argument after the other, each time all over the
text so far. A substitution goes over the text once: it puts the arguments into their
places (`substitute_place`) and copies what begins none (`substitute_cons`). The two
are one when each open brace of the template is closed before the next one and no
argument brings a new one (`fill_eq_substitute`): then no replacement makes a place,
breaks one or runs into one.
-/

namespace CtorArity

variable {args : List (List Char)} {arg body digits text rest : List Char} {c : Char}
  {index k n : Nat}

-- ---------------------------------------------------------------------------
-- Numerals
-- ---------------------------------------------------------------------------

/-- The number that the characters write in decimal, with no zero before other
digits. -/
def numeral? : List Char → Option Nat
  | [] => none
  | c :: rest =>
    if (c :: rest).all Char.isDigit && (c != '0' || rest.isEmpty) then
      some (Nat.ofDigitChars 10 (c :: rest) 0)
    else none

theorem digitChar_of_isDigit (hc : c.isDigit = true) :
    c.toNat - '0'.toNat < 10 ∧ Nat.digitChar (c.toNat - '0'.toNat) = c := by
  obtain ⟨hlow, hhigh⟩ := Char.isDigit_iff_toNat.mp hc
  have hzero : '0'.toNat = 48 := rfl
  have hnine : '9'.toNat = 57 := rfl
  have hlt : c.toNat - '0'.toNat < 10 := by omega
  refine ⟨hlt, Char.toNat_inj.mp ?_⟩
  rw [Nat.toNat_digitChar_of_lt_ten hlt]
  omega

theorem toDigits_ofDigitChars (hn : 0 < n) (h : ∀ c ∈ digits, c.isDigit = true) :
    Nat.toDigits 10 (Nat.ofDigitChars 10 digits n) = Nat.toDigits 10 n ++ digits := by
  induction digits generalizing n with
  | nil => simp [Nat.ofDigitChars]
  | cons c rest ih =>
    obtain ⟨hc, hrest⟩ := List.forall_mem_cons.mp h
    obtain ⟨hlt, hchar⟩ := digitChar_of_isDigit hc
    rw [Nat.ofDigitChars_cons, ih (by omega) hrest,
      ← Nat.toDigits_append_toDigits (by decide) hn hlt, Nat.toDigits_of_lt_base hlt, hchar,
      List.append_assoc, List.singleton_append]

theorem isDigit_of_mem_toDigits (h : c ∈ Nat.toDigits 10 n) : c.isDigit = true :=
  Nat.isDigit_of_mem_toDigits (by decide) (by decide) h

theorem head?_toDigits_ne_zero (hn : 0 < n) : (Nat.toDigits 10 n).head? ≠ some '0' := by
  induction n using Nat.strongRecOn with
  | _ n ih =>
    rcases Nat.lt_or_ge n 10 with hlt | hge
    · rw [Nat.toDigits_of_lt_base hlt, List.head?_cons, ne_eq, Option.some.injEq,
        Nat.digitChar_eq_zero]
      omega
    · rw [Nat.toDigits_of_base_le (by decide) hge,
        List.head?_append_of_ne_nil _ Nat.toDigits_ne_nil]
      exact ih _ (by omega) (by omega)

theorem digits_of_numeral? (h : numeral? digits = some n) : digits = Nat.toDigits 10 n := by
  cases digits with
  | nil => cases h
  | cons c rest =>
    obtain ⟨hnumeral, hn⟩ := Option.ite_none_right_eq_some.mp h
    obtain rfl := Option.some.inj hn
    obtain ⟨hdigits, hzero⟩ := Bool.and_eq_true_iff.mp hnumeral
    obtain ⟨hc, hrest⟩ := List.forall_mem_cons.mp (List.all_eq_true.mp hdigits)
    by_cases hc0 : c = '0'
    · obtain rfl : rest = [] := by simpa [hc0] using hzero
      rw [hc0]
      rfl
    · obtain ⟨hlt, hchar⟩ := digitChar_of_isDigit hc
      have hpos : 0 < 10 * 0 + (c.toNat - '0'.toNat) := by
        refine Nat.pos_of_ne_zero fun hd => hc0 ?_
        rw [← hchar, Nat.digitChar_eq_zero]
        omega
      rw [Nat.ofDigitChars_cons, toDigits_ofDigitChars hpos hrest, Nat.mul_zero, Nat.zero_add,
        Nat.toDigits_of_lt_base hlt, hchar, List.singleton_append]

theorem numeral?_toDigits (n : Nat) : numeral? (Nat.toDigits 10 n) = some n := by
  obtain ⟨c, rest, heq⟩ := List.exists_cons_of_ne_nil (Nat.toDigits_ne_nil : Nat.toDigits 10 n ≠ [])
  have hdigits : (c :: rest).all Char.isDigit = true := List.all_eq_true.mpr fun d hd =>
    isDigit_of_mem_toDigits (heq ▸ hd)
  have hzero : (c != '0' || rest.isEmpty) = true := by
    rcases Nat.eq_zero_or_pos n with rfl | hn
    · obtain ⟨rfl, rfl⟩ := List.cons_eq_cons.mp (heq.symm.trans (rfl : Nat.toDigits 10 0 = ['0']))
      rfl
    · have hne := head?_toDigits_ne_zero hn
      rw [heq, List.head?_cons] at hne
      have hc : c ≠ '0' := fun hc => hne (congrArg some hc)
      simp [hc]
  rw [heq, numeral?, hdigits, hzero, ← heq, Nat.ofDigitChars_toDigits (by decide) (by decide)]
  rfl

theorem toDigits_inj {m : Nat} (h : Nat.toDigits 10 m = Nat.toDigits 10 n) : m = n := by
  have hm := numeral?_toDigits m
  rw [h, numeral?_toDigits] at hm
  exact (Option.some.inj hm).symm

-- ---------------------------------------------------------------------------
-- Places
-- ---------------------------------------------------------------------------

theorem place_append (k : Nat) (rest : List Char) :
    place k ++ rest = '{' :: (Nat.toDigits 10 k ++ '}' :: rest) := by
  simp [place]

theorem length_place (k : Nat) : (place k).length = (Nat.toDigits 10 k).length + 2 := by
  simp [place]

def Braceless (text : List Char) : Prop := '{' ∉ text ∧ '}' ∉ text

theorem braceless_toDigits (k : Nat) : Braceless (Nat.toDigits 10 k) :=
  ⟨fun h => brace_notMem_repr k (Nat.toList_repr.symm ▸ h),
    fun h => absurd (isDigit_of_mem_toDigits h) (by decide)⟩

theorem no_place_of_ne (hc : c ≠ '{') : ¬ place k <+: c :: rest := by
  intro h
  exact hc (List.cons_prefix_cons.mp h).1.symm

theorem no_place_of_notMem (h : '}' ∉ text) : ¬ place k <:+: text :=
  fun hplace => h (hplace.subset (by simp [place]))

theorem takeWhile_closing (h : '}' ∉ text) (rest : List Char) :
    (text ++ '}' :: rest).takeWhile (· != '}') = text := by
  rw [List.takeWhile_append_of_pos, List.takeWhile_cons_of_neg (by simp), List.append_nil]
  intro c hc
  simpa using ne_of_mem_of_not_mem hc h

theorem place_prefix_iff (hbody : '}' ∉ body) :
    place k <+: '{' :: (body ++ '}' :: rest) ↔ body = Nat.toDigits 10 k := by
  constructor
  · rintro ⟨after, heq⟩
    rw [place_append] at heq
    have hboth := congrArg (List.takeWhile (· != '}')) (List.cons_eq_cons.mp heq).2
    rw [takeWhile_closing hbody, takeWhile_closing (braceless_toDigits k).2] at hboth
    exact hboth.symm
  · rintro rfl
    exact ⟨rest, place_append k rest⟩

-- ---------------------------------------------------------------------------
-- Substitution
-- ---------------------------------------------------------------------------

/-- The argument whose place the text starts with, and the length of the place. -/
def argumentAt? (args : List (List Char)) : List Char → Option (List Char × Nat)
  | [] => none
  | c :: rest =>
    let digits := rest.takeWhile Char.isDigit
    if c = '{' ∧ (rest.dropWhile Char.isDigit).head? = some '}' then
      ((numeral? digits).bind (args[·]?)).map (·, digits.length + 2)
    else none

/-- Goes over the text once: a place of an argument becomes the argument, and any
other character stays. The number counts the characters still covered by the last
place found. -/
def substituteFrom (args : List (List Char)) : Nat → List Char → List Char
  | _, [] => []
  | covered + 1, _ :: rest => substituteFrom args covered rest
  | 0, c :: rest =>
    match argumentAt? args (c :: rest) with
    | some (arg, length) => arg ++ substituteFrom args (length - 1) rest
    | none => c :: substituteFrom args 0 rest

def substitute (args : List (List Char)) (text : List Char) : List Char :=
  substituteFrom args 0 text

theorem argumentAt?_of_prefix (harg : args[k]? = some arg) (h : place k <+: text) :
    argumentAt? args text = some (arg, (place k).length) := by
  obtain ⟨after, rfl⟩ := h
  have hdigits : ∀ c ∈ Nat.toDigits 10 k, c.isDigit = true := fun _ => isDigit_of_mem_toDigits
  have htake : (Nat.toDigits 10 k ++ '}' :: after).takeWhile Char.isDigit =
      Nat.toDigits 10 k := by
    rw [List.takeWhile_append_of_pos hdigits, List.takeWhile_cons_of_neg (by decide),
      List.append_nil]
  have hdrop : (Nat.toDigits 10 k ++ '}' :: after).dropWhile Char.isDigit = '}' :: after := by
    rw [List.dropWhile_append_of_pos hdigits, List.dropWhile_cons_of_neg (by decide)]
  rw [place_append, argumentAt?, htake, hdrop, numeral?_toDigits, length_place]
  simp [harg]

theorem exists_place_of_argumentAt? (h : argumentAt? args text = some (arg, n)) :
    ∃ k, args[k]? = some arg ∧ place k <+: text := by
  cases text with
  | nil => cases h
  | cons c rest =>
    obtain ⟨⟨rfl, hclose⟩, hfound⟩ := Option.ite_none_right_eq_some.mp h
    obtain ⟨arg', hbind, heq⟩ := Option.map_eq_some_iff.mp hfound
    obtain ⟨rfl, -⟩ := Prod.mk.inj heq
    obtain ⟨k, hk, harg⟩ := Option.bind_eq_some_iff.mp hbind
    obtain ⟨after, hafter⟩ := List.head?_eq_some_iff.mp hclose
    have hsplit := List.takeWhile_append_dropWhile (p := Char.isDigit) (l := rest)
    rw [digits_of_numeral? hk, hafter] at hsplit
    exact ⟨k, harg, after, by rw [place_append, hsplit]⟩

theorem substituteFrom_eq (args : List (List Char)) (covered : Nat) (text : List Char) :
    substituteFrom args covered text = substitute args (text.drop covered) := by
  induction text generalizing covered with
  | nil => cases covered <;> rfl
  | cons c rest ih =>
    cases covered with
    | zero => rfl
    | succ covered => exact ih covered

theorem substitute_place (harg : args[k]? = some arg) (rest : List Char) :
    substitute args (place k ++ rest) = arg ++ substitute args rest := by
  have hfound := argumentAt?_of_prefix harg (List.prefix_append (place k) rest)
  rw [place_append] at hfound ⊢
  rw [substitute, substituteFrom, hfound, length_place]
  simp [substituteFrom_eq]

theorem substitute_cons (h : ∀ k < args.length, ¬ place k <+: c :: rest) :
    substitute args (c :: rest) = c :: substitute args rest := by
  have hnone : argumentAt? args (c :: rest) = none := by
    refine Option.eq_none_iff_forall_ne_some.mpr fun ⟨arg, n⟩ hfound => ?_
    obtain ⟨k, harg, hplace⟩ := exists_place_of_argumentAt? hfound
    exact h k (List.getElem?_eq_some_iff.mp harg).1 hplace
  rw [substitute, substituteFrom, hnone]
  rfl

-- ---------------------------------------------------------------------------
-- What is copied
-- ---------------------------------------------------------------------------

def CopiesPlain (f : List Char → List Char) : Prop :=
  ∀ c rest, c ≠ '{' → f (c :: rest) = c :: f rest

section
variable {f : List Char → List Char}

theorem CopiesPlain.append (hf : CopiesPlain f) (h : '{' ∉ text) (rest : List Char) :
    f (text ++ rest) = text ++ f rest := by
  induction text with
  | nil => rfl
  | cons c text ih =>
    have hc : c ≠ '{' := fun hc => h (hc ▸ List.mem_cons_self)
    rw [List.cons_append, hf c _ hc, ih fun hmem => h (List.mem_cons_of_mem c hmem),
      List.cons_append]

theorem CopiesPlain.braces (hf : CopiesPlain f) (hbody : Braceless body)
    (hopen : f ('{' :: (body ++ '}' :: rest)) = '{' :: f (body ++ '}' :: rest)) :
    f ('{' :: (body ++ '}' :: rest)) = '{' :: (body ++ '}' :: f rest) := by
  rw [hopen, hf.append hbody.1, hf '}' rest (by decide)]

end

theorem copiesPlain_replaceAll (k : Nat) (arg : List Char) :
    CopiesPlain (replaceAll (place k) arg) :=
  fun _ _ hc => replaceAll_cons (no_place_of_ne hc) arg

theorem copiesPlain_fillFrom (index : Nat) (args : List (List Char)) :
    CopiesPlain (fillFrom index args) := by
  intro c rest hc
  induction args generalizing index rest with
  | nil => rfl
  | cons arg args ih => rw [fillFrom, copiesPlain_replaceAll index arg c rest hc, ih, fillFrom]

theorem copiesPlain_substitute (args : List (List Char)) : CopiesPlain (substitute args) :=
  fun _ _ hc => substitute_cons fun _ _ => no_place_of_ne hc

theorem replaceAll_braces (hbody : Braceless body) (h : body ≠ Nat.toDigits 10 k)
    (arg rest : List Char) : replaceAll (place k) arg ('{' :: (body ++ '}' :: rest)) =
      '{' :: (body ++ '}' :: replaceAll (place k) arg rest) :=
  (copiesPlain_replaceAll k arg).braces hbody
    (replaceAll_cons (mt (place_prefix_iff hbody.2).mp h) arg)

theorem substitute_braces (hbody : Braceless body)
    (h : ∀ k < args.length, body ≠ Nat.toDigits 10 k) (rest : List Char) :
    substitute args ('{' :: (body ++ '}' :: rest)) =
      '{' :: (body ++ '}' :: substitute args rest) :=
  (copiesPlain_substitute args).braces hbody
    (substitute_cons fun k hk => mt (place_prefix_iff hbody.2).mp (h k hk))

theorem fillFrom_braces (hbody : Braceless body)
    (h : ∀ k < args.length, body ≠ Nat.toDigits 10 (index + k)) (rest : List Char) :
    fillFrom index args ('{' :: (body ++ '}' :: rest)) =
      '{' :: (body ++ '}' :: fillFrom index args rest) := by
  induction args generalizing index rest with
  | nil => rfl
  | cons arg args ih =>
    have hfirst : body ≠ Nat.toDigits 10 index := h 0 (Nat.zero_lt_succ _)
    have hlater : ∀ k < args.length, body ≠ Nat.toDigits 10 (index + 1 + k) := by
      intro k hk
      rw [Nat.add_right_comm]
      exact h (k + 1) (Nat.succ_lt_succ hk)
    rw [fillFrom, replaceAll_braces hbody hfirst, ih hlater, fillFrom]

theorem fillFrom_eq_self (h : '}' ∉ text) : fillFrom index args text = text := by
  induction args generalizing index with
  | nil => rfl
  | cons arg args ih => rw [fillFrom, replaceAll_eq_self (no_place_of_notMem h), ih]

theorem substitute_eq_self (h : '}' ∉ text) : substitute args text = text := by
  induction text with
  | nil => rfl
  | cons c text ih =>
    rw [substitute_cons fun k _ hplace => no_place_of_notMem h hplace.isInfix,
      ih fun hmem => h (List.mem_cons_of_mem c hmem)]

theorem fillFrom_place (hargs : ∀ arg ∈ args, '{' ∉ arg) (harg : args[k]? = some arg)
    (index : Nat) (rest : List Char) :
    fillFrom index args (place (index + k) ++ rest) = arg ++ fillFrom index args rest := by
  induction args generalizing index k rest with
  | nil => cases harg
  | cons first args ih =>
    obtain ⟨hfirst, hargs⟩ := List.forall_mem_cons.mp hargs
    cases k with
    | zero =>
      -- Later turns pass over the argument: it has no open brace.
      obtain rfl : first = arg := Option.some.inj harg
      rw [Nat.add_zero, fillFrom, replaceAll_append (by simp [place]),
        (copiesPlain_fillFrom _ _).append hfirst, fillFrom]
    | succ k =>
      have hother : Nat.toDigits 10 (index + (k + 1)) ≠ Nat.toDigits 10 index := by
        intro heq
        have hk := toDigits_inj heq
        omega
      have hnext := ih hargs harg (index + 1) (replaceAll (place index) first rest)
      rw [place_append, Nat.add_right_comm, Nat.add_assoc] at hnext
      rw [place_append, fillFrom, replaceAll_braces (braceless_toDigits _) hother, hnext, fillFrom]

-- ---------------------------------------------------------------------------
-- Templates
-- ---------------------------------------------------------------------------

/-- No open brace follows another one without a close brace between them. -/
def Unnested (text : List Char) : Prop :=
  ∀ before between after, text = before ++ '{' :: (between ++ '{' :: after) → '}' ∈ between

def isBrace (c : Char) : Bool := c == '{' || c == '}'

theorem braceless_iff : Braceless text ↔ ∀ c ∈ text, isBrace c = false := by
  constructor
  · rintro ⟨hopen, hclose⟩ c hc
    simp [isBrace, ne_of_mem_of_not_mem hc hopen, ne_of_mem_of_not_mem hc hclose]
  · intro h
    exact ⟨fun hmem => absurd (h _ hmem) (by decide), fun hmem => absurd (h _ hmem) (by decide)⟩

theorem Unnested.of_append (front : List Char) (h : Unnested (front ++ text)) :
    Unnested text := by
  rintro before between after rfl
  exact h (front ++ before) between after (List.append_assoc _ _ _).symm

theorem unnested_nil : Unnested [] := by
  intro before between after h
  simp at h

theorem unnested_cons :
    Unnested (c :: rest) ↔ (c = '{' → rest.find? isBrace ≠ some '{') ∧ Unnested rest := by
  constructor
  · refine fun h => ⟨?_, Unnested.of_append [c] h⟩
    rintro rfl hfind
    obtain ⟨-, between, after, rfl, hbetween⟩ := List.find?_eq_some_iff_append.mp hfind
    have hbraceless : Braceless between := braceless_iff.mpr (by simpa using hbetween)
    exact hbraceless.2 (h [] between after rfl)
  · rintro ⟨hfirst, hrest⟩ before between after heq
    cases before with
    | cons d before => exact hrest before between after (List.cons_eq_cons.mp heq).2
    | nil =>
      obtain ⟨rfl, rfl⟩ := List.cons_eq_cons.mp heq
      by_contra hclose
      refine hfirst rfl ?_
      rw [List.find?_append]
      cases hfind : between.find? isBrace with
      | none => rfl
      | some d =>
        have hmem := List.mem_of_find?_eq_some hfind
        have hd : d ≠ '}' := ne_of_mem_of_not_mem hmem hclose
        have hbrace := List.find?_some hfind
        simpa [isBrace, hd] using hbrace

instance : (text : List Char) → Decidable (Unnested text)
  | [] => isTrue unnested_nil
  | _ :: rest =>
    have : Decidable (Unnested rest) := instDecidableUnnested rest
    decidable_of_iff _ unnested_cons.symm

/-- A text cut at its braces: single characters, pairs of braces with no other
inside, and in the end an open brace with none to close it. -/
inductive Pieces : List Char → Prop
  | nil : Pieces []
  | plain {c : Char} {rest : List Char} (hc : c ≠ '{') (h : Pieces rest) : Pieces (c :: rest)
  | braces {body rest : List Char} (hbody : Braceless body) (h : Pieces rest) :
    Pieces ('{' :: (body ++ '}' :: rest))
  | unclosed {rest : List Char} (hrest : '}' ∉ rest) : Pieces ('{' :: rest)

theorem Unnested.cut (h : Unnested ('{' :: rest)) :
    '}' ∉ rest ∨ ∃ body after, rest = body ++ '}' :: after ∧ Braceless body ∧ Unnested after := by
  obtain ⟨hfirst, hrest⟩ := unnested_cons.mp h
  cases hfind : rest.find? isBrace with
  | none =>
    have hbraceless : Braceless rest := braceless_iff.mpr (by simpa using hfind)
    exact .inl hbraceless.2
  | some d =>
    obtain ⟨hbrace, body, after, rfl, hbody⟩ := List.find?_eq_some_iff_append.mp hfind
    have hd : d ≠ '{' := fun hd => hfirst rfl (hd ▸ hfind)
    obtain rfl : d = '}' := by simpa [isBrace, hd] using hbrace
    refine .inr ⟨body, after, rfl, braceless_iff.mpr (by simpa using hbody), ?_⟩
    exact .of_append (body ++ ['}']) (by simpa using hrest)

theorem Unnested.pieces (h : Unnested text) : Pieces text := by
  induction hn : text.length using Nat.strong_induction_on generalizing text with
  | _ n ih =>
    subst hn
    cases text with
    | nil => exact .nil
    | cons c rest =>
      by_cases hc : c = '{'
      · subst hc
        rcases h.cut with hclose | ⟨body, after, rfl, hbody, hafter⟩
        · exact .unclosed hclose
        · have hlt : after.length < ('{' :: (body ++ '}' :: after)).length := by
            simp only [List.length_cons, List.length_append]
            omega
          exact .braces hbody (ih _ hlt hafter rfl)
      · exact .plain hc (ih _ (Nat.lt_succ_self _) (unnested_cons.mp h).2 rfl)

theorem fillFrom_eq_substitute (h : Pieces text) (hargs : ∀ arg ∈ args, '{' ∉ arg) :
    fillFrom 0 args text = substitute args text := by
  induction h with
  | nil => exact fillFrom_eq_self List.not_mem_nil
  | plain hc _ ih =>
    rw [copiesPlain_fillFrom 0 args _ _ hc, copiesPlain_substitute args _ _ hc, ih]
  | @braces body rest hbody _ ih =>
    by_cases hplace : ∃ k < args.length, body = Nat.toDigits 10 k
    · obtain ⟨k, hk, rfl⟩ := hplace
      have harg := List.getElem?_eq_getElem hk
      have hfill := fillFrom_place hargs harg 0 rest
      rw [Nat.zero_add] at hfill
      rw [← place_append, hfill, substitute_place harg, ih]
    · have hnone : ∀ k < args.length, body ≠ Nat.toDigits 10 k := fun k hk heq =>
        hplace ⟨k, hk, heq⟩
      rw [fillFrom_braces hbody (by simpa using hnone), substitute_braces hbody hnone, ih]
  | @unclosed rest hrest =>
    have hclose : '}' ∉ '{' :: rest := by simpa using hrest
    rw [fillFrom_eq_self hclose, substitute_eq_self hclose]

/-- Where no open brace of the template follows another one before a close brace,
and none is in an argument, filling is one pass over the template that puts each
argument into its places and copies all else, other places included. A close brace
in an argument does no harm. -/
theorem fill_eq_substitute (template : String) (args : List String)
    (htemplate : Unnested template.toList) (hargs : ∀ arg ∈ args, '{' ∉ arg.toList) :
    fill template args =
      String.ofList (substitute (args.map String.toList) template.toList) := by
  have hlists : ∀ arg ∈ args.map String.toList, '{' ∉ arg := by
    intro arg harg
    obtain ⟨text, htext, rfl⟩ := List.mem_map.mp harg
    exact hargs text htext
  rw [fill, fillFrom_eq_substitute htemplate.pieces hlists]

/-- Places that repeat, touch one another, share digits, name no argument or are
none. -/
def patchwork : String := "{1}{0}{1} {11}{2}{01}{} \x7d{0}\x7d \x7b1"

theorem fill_patchwork : Unnested patchwork.toList ∧ (∀ arg ∈ ["A", "2"], '{' ∉ arg.toList) ∧
    fill patchwork ["A", "2"] =
      String.ofList (substitute [['A'], ['2']] patchwork.toList) ∧
    fill patchwork ["A", "2"] = "2A2 {11}{2}{01}{} \x7dA\x7d \x7b1" := by
  have htemplate : Unnested patchwork.toList := by decide +kernel
  have hargs : ∀ arg ∈ ["A", "2"], '{' ∉ arg.toList := by decide
  exact ⟨htemplate, hargs, fill_eq_substitute patchwork ["A", "2"] htemplate hargs,
    by decide +kernel⟩

/-- Inside other braces an argument may make a place for the next one. -/
example : fill "{{0}}" ["1", "A"] = "A" ∧
    substitute [['1'], ['A']] "{{0}}".toList = "{1}".toList := by
  decide +kernel

end CtorArity
