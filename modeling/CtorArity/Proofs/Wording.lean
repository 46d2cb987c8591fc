import CtorArity.Proofs.Binding
import CtorArity.Proofs.Report
import Mathlib.Data.List.Infix

/-!
# The wording of messages

Filling replaces the place of an argument all over the text, also in what an
argument before it has put there. So a class with the second place in its name
is not named as declared, and all others are (`nameInMessage_eq_iff`).
Every issue of every run, stopped or not, has the message of the class that it
blames (`Issue.Blames`).
-/

namespace CtorArity

-- ---------------------------------------------------------------------------
-- Replacing
-- ---------------------------------------------------------------------------

section
variable {pattern replacement text : List Char} {c : Char}

theorem replaceFrom_eq (pattern replacement : List Char) (covered : Nat) (text : List Char) :
    replaceFrom pattern replacement covered text =
      replaceAll pattern replacement (text.drop covered) := by
  induction text generalizing covered with
  | nil => cases covered <;> rfl
  | cons c rest ih =>
    cases covered with
    | zero => rfl
    | succ covered => exact ih covered

theorem replaceAll_append (h : pattern ≠ []) (replacement rest : List Char) :
    replaceAll pattern replacement (pattern ++ rest) =
      replacement ++ replaceAll pattern replacement rest := by
  obtain ⟨c, tail, rfl⟩ := List.exists_cons_of_ne_nil h
  have hstarts : (c :: tail).isPrefixOf (c :: (tail ++ rest)) = true :=
    List.isPrefixOf_iff_prefix.mpr (List.prefix_append (c :: tail) rest)
  rw [List.cons_append, replaceAll, replaceFrom, if_pos hstarts, replaceFrom_eq]
  simp

theorem replaceAll_self (h : pattern ≠ []) (replacement : List Char) :
    replaceAll pattern replacement pattern = replacement := by
  have happend := replaceAll_append h replacement []
  rw [List.append_nil] at happend
  exact happend.trans (List.append_nil replacement)

theorem replaceAll_cons (h : ¬ pattern <+: c :: text) (replacement : List Char) :
    replaceAll pattern replacement (c :: text) = c :: replaceAll pattern replacement text := by
  rw [replaceAll, replaceFrom, if_neg (fun hp => h (List.isPrefixOf_iff_prefix.mp hp))]
  rfl

/-- A text is read from occurrence to occurrence of the pattern. -/
theorem occurrences_induction {P : List Char → Prop} (h : pattern ≠ []) (nil : P [])
    (found : ∀ rest, P rest → P (pattern ++ rest))
    (passed : ∀ c rest, ¬ pattern <+: c :: rest → P rest → P (c :: rest)) (text : List Char) :
    P text := by
  induction hn : text.length using Nat.strong_induction_on generalizing text with
  | _ n ih =>
    cases text with
    | nil => exact nil
    | cons c rest =>
      by_cases hstarts : pattern <+: c :: rest
      · obtain ⟨rest', heq⟩ := hstarts
        have hlength := congrArg List.length heq
        rw [List.length_append, hn] at hlength
        have hpos := List.length_pos_of_ne_nil h
        rw [← heq]
        exact found rest' (ih rest'.length (by omega) rest' rfl)
      · exact passed c rest hstarts (ih rest.length (by simp [← hn]) rest rfl)

theorem replaceAll_eq_self (h : ¬ pattern <:+: text) (replacement : List Char) :
    replaceAll pattern replacement text = text := by
  induction text with
  | nil => rfl
  | cons c rest ih =>
    rw [replaceAll_cons (fun hp => h hp.isInfix), ih (fun hi => h (List.infix_cons hi))]

theorem prefix_of_prefix_append {rest : List Char} (hc : c ∉ pattern)
    (h : pattern <+: text ++ c :: rest) : pattern <+: text := by
  rcases Nat.le_total pattern.length text.length with hle | hle
  · exact List.prefix_of_prefix_length_le h (List.prefix_append text _) hle
  · rcases Nat.eq_or_lt_of_le hle with heq | hlt
    · exact List.prefix_of_prefix_length_le h (List.prefix_append text _) (Nat.le_of_eq heq.symm)
    · have hupto : text ++ [c] <+: pattern :=
        List.prefix_of_prefix_length_le ⟨rest, by simp⟩ h (by simpa using Nat.succ_le_of_lt hlt)
      exact absurd (hupto.subset (by simp)) hc

theorem replaceAll_append_cons (h : pattern ≠ []) (hc : c ∉ pattern)
    (replacement text rest : List Char) :
    replaceAll pattern replacement (text ++ c :: rest) =
      replaceAll pattern replacement text ++ c :: replaceAll pattern replacement rest := by
  induction text using occurrences_induction h with
  | nil =>
    rw [List.nil_append, replaceAll_cons]
    · rfl
    · exact fun hp => h (List.prefix_nil.mp (prefix_of_prefix_append hc hp))
  | found text ih => rw [List.append_assoc, replaceAll_append h, ih, replaceAll_append h,
      List.append_assoc]
  | passed d text hd ih =>
    have hd' : ¬ pattern <+: d :: (text ++ c :: rest) := fun hp =>
      hd (prefix_of_prefix_append hc hp)
    rw [List.cons_append, replaceAll_cons hd', ih, replaceAll_cons hd, List.cons_append]

theorem count_replaceAll (hpattern : c ∈ pattern) (hreplacement : c ∉ replacement)
    (text : List Char) :
    (replaceAll pattern replacement text).count c ≤ text.count c ∧
      (pattern <:+: text → (replaceAll pattern replacement text).count c < text.count c) := by
  have hnonempty := List.ne_nil_of_mem hpattern
  have hpos := List.count_pos_iff.mpr hpattern
  induction text using occurrences_induction hnonempty with
  | nil => exact ⟨Nat.le_refl _, fun hi => absurd (List.infix_nil.mp hi) hnonempty⟩
  | found rest ih =>
    rw [replaceAll_append hnonempty, List.count_append, List.count_append,
      List.count_eq_zero_of_not_mem hreplacement]
    omega
  | passed d rest hd ih =>
    rw [replaceAll_cons hd, List.count_cons, List.count_cons]
    refine ⟨Nat.add_le_add_right ih.1 _, fun hi => Nat.add_lt_add_right (ih.2 ?_) _⟩
    exact (List.infix_cons_iff.mp hi).resolve_left hd

theorem replaceAll_eq_self_iff (hpattern : c ∈ pattern) (hreplacement : c ∉ replacement) :
    replaceAll pattern replacement text = text ↔ ¬ pattern <:+: text := by
  refine ⟨fun heq hi => ?_, fun h => replaceAll_eq_self h replacement⟩
  have hless := (count_replaceAll hpattern hreplacement text).2 hi
  rw [heq] at hless
  exact Nat.lt_irrefl _ hless

end

theorem brace_notMem_repr (n : Nat) : '{' ∉ (Nat.repr n).toList := by
  intro h
  rw [Nat.repr, String.toList_ofList] at h
  have hdigit := Nat.isDigit_of_mem_toDigits (by decide) (by decide) h
  revert hdigit
  decide

-- ---------------------------------------------------------------------------
-- The message
-- ---------------------------------------------------------------------------

/-- What the message about a class is to say. -/
def worded (name : String) (n : UInt32) : String :=
  "CS1729: The type '" ++ name ++ "' does not contain a constructor that takes '" ++
    Nat.repr n.toNat ++ "' arguments"

/-- The name as the message gives it: the second place in it is filled too. -/
def nameInMessage (name : String) (n : UInt32) : String :=
  String.ofList (replaceAll (place 1) (Nat.repr n.toNat).toList name.toList)

theorem toList_constructorArity : Template.constructorArity.text.toList =
    "The type ".toList ++ '\'' :: (place 0 ++
      '\'' :: (" does not contain a constructor that takes ".toList ++
        '\'' :: (place 1 ++ '\'' :: " arguments".toList))) := by
  decide +kernel

theorem place_apart : ∀ k < 2, place k ≠ [] ∧ '\'' ∉ place k ∧ ¬ place k <:+: "The type ".toList ∧
    ¬ place k <:+: " does not contain a constructor that takes ".toList ∧
    ¬ place k <:+: " arguments".toList := by decide +kernel

theorem fillFrom_constructorArity (name digits : List Char) :
    fillFrom 0 [name, digits] Template.constructorArity.text.toList =
      "The type ".toList ++ '\'' :: (replaceAll (place 1) digits name ++
        '\'' :: (" does not contain a constructor that takes ".toList ++
          '\'' :: (digits ++ '\'' :: " arguments".toList))) := by
  obtain ⟨hne₀, hquote₀, htype₀, htakes₀, harguments₀⟩ := place_apart 0 (by decide)
  obtain ⟨hne₁, hquote₁, htype₁, htakes₁, harguments₁⟩ := place_apart 1 (by decide)
  have hother : ¬ place 0 <:+: place 1 := by decide
  rw [fillFrom, fillFrom, fillFrom, toList_constructorArity]
  simp only [replaceAll_append_cons hne₀ hquote₀, replaceAll_self hne₀,
    replaceAll_eq_self htype₀, replaceAll_eq_self htakes₀, replaceAll_eq_self harguments₀,
    replaceAll_eq_self hother]
  simp only [replaceAll_append_cons hne₁ hquote₁, replaceAll_self hne₁,
    replaceAll_eq_self htype₁, replaceAll_eq_self htakes₁, replaceAll_eq_self harguments₁]

theorem toList_worded (name : String) (n : UInt32) : (worded name n).toList =
    "CS1729: The type '".toList ++ (name.toList ++
      ("' does not contain a constructor that takes '".toList ++
        ((Nat.repr n.toNat).toList ++ "' arguments".toList))) := by
  unfold worded
  rw [String.toList_append, String.toList_append, String.toList_append, String.toList_append,
    List.append_assoc, List.append_assoc, List.append_assoc]

theorem arityMessage_eq (name : String) (n : UInt32) :
    arityMessage name n = worded (nameInMessage name n) n := by
  have hcode : Template.codeText Template.constructorArity.code = "CS1729" := by decide +kernel
  have hstart : "CS1729: The type '".toList =
      "CS1729".toList ++ ": ".toList ++ ("The type ".toList ++ ['\'']) := by decide +kernel
  have htakes : "' does not contain a constructor that takes '".toList =
      '\'' :: (" does not contain a constructor that takes ".toList ++ ['\'']) := by
    decide +kernel
  have hend : "' arguments".toList = '\'' :: " arguments".toList := by decide +kernel
  have hname : (nameInMessage name n).toList =
      replaceAll (place 1) (Nat.repr n.toNat).toList name.toList := String.toList_ofList
  have hfill : (Template.constructorArity.fill [name, Nat.repr n.toNat]).toList = _ :=
    String.toList_ofList.trans (fillFrom_constructorArity name.toList (Nat.repr n.toNat).toList)
  apply String.toList_injective
  rw [arityMessage, Template.coded, hcode, String.toList_append, String.toList_append, hfill,
    toList_worded, hname, hstart, htakes, hend]
  generalize "CS1729".toList ++ ": ".toList = start, "The type ".toList = subject,
    " does not contain a constructor that takes ".toList = takes, " arguments".toList = rest
  simp

theorem worded_inj {name name' : String} {n : UInt32} (h : worded name n = worded name' n) :
    name = name' := by
  unfold worded at h
  have h := (String.append_left_inj _).mp h
  have h := (String.append_left_inj _).mp h
  have h := (String.append_left_inj _).mp h
  exact (String.append_right_inj _).mp h

theorem nameInMessage_eq_iff (name : String) (n : UInt32) :
    nameInMessage name n = name ↔ ¬ place 1 <:+: name.toList := by
  rw [← replaceAll_eq_self_iff (c := '{') (by decide) (brace_notMem_repr n.toNat),
    nameInMessage, ← String.toList_inj, String.toList_ofList]

-- ---------------------------------------------------------------------------
-- The messages of a run
-- ---------------------------------------------------------------------------

/-- The issue finds fault with the constructors of this type. -/
def Issue.Blames (i : Issue) (r : Resolver) (id : TypeId) : Prop :=
  match i.origin with
  | .baseBinding => (r.directBase i.subject).declared? = some id
  | .instantiation => i.subject = id

def Issue.NamesBlamed (u : CompilationUnit) (r : Resolver) (i : Issue) : Prop :=
  ∃ id t n, i.Blames r id ∧ u.type? id = some t ∧ i.message = arityMessage t.name n

theorem Issue.NamesBlamed.reorder {u : CompilationUnit} {r : Resolver} {i : Issue}
    (h : i.NamesBlamed u r) (order : UInt32) : { i with order := order }.NamesBlamed u r := h

namespace CompilationUnit

variable {u : CompilationUnit} {r : Resolver} {o : Options} {item : Item} {issue : Issue}

theorem typeName_eq {id : TypeId} {t : TypeDecl} (h : u.type? id = some t) :
    u.typeName id = t.name := by
  rw [typeName, h]
  rfl

theorem eq_ok_of_toOption {x : Except ε α} {a : α} (h : x.toOption = some a) : x = .ok a := by
  cases x with
  | error e => cases h
  | ok b => exact congrArg Except.ok (Option.some.inj h)

theorem namesBlamed_of_finding? (h : u.finding? r o item = some issue) :
    issue.NamesBlamed u r := by
  cases item with
  | type id =>
    obtain ⟨f, hf, rfl⟩ := Option.map_eq_some_iff.mp h
    have hfails := baseVerdict_failure? u r o.policy id
    rw [hf, Option.map_some] at hfails
    obtain ⟨base, hbase, hrejected⟩ := Option.bind_eq_some_iff.mp hfails.symm
    obtain ⟨n, -, heq⟩ := Option.map_eq_some_iff.mp hrejected
    obtain ⟨rfl, rfl, -⟩ : id = f.derived ∧ base = f.base ∧ n = f.argCount := by simpa using heq
    obtain ⟨-, hdirect, t, ht, -⟩ := checkedBase_eq_ok.mp (eq_ok_of_toOption hbase)
    refine ⟨f.base, t, f.argCount, hdirect, ht, ?_⟩
    rw [← typeName_eq ht]
    rfl
  | creation id =>
    rw [finding?, Option.ite_none_right_eq_some] at h
    obtain ⟨f, hf, rfl⟩ := Option.map_eq_some_iff.mp h.2
    have hfails := creationVerdict_failure? u r id
    rw [hf, Option.map_some] at hfails
    obtain ⟨c, -, hfails⟩ := Option.bind_eq_some_iff.mp hfails.symm
    obtain ⟨target, -, hfails⟩ := Option.bind_eq_some_iff.mp hfails
    obtain ⟨t, ht, hfails⟩ := Option.bind_eq_some_iff.mp hfails
    obtain ⟨-, heq⟩ := Option.ite_none_right_eq_some.mp hfails
    obtain ⟨-, rfl, -⟩ : id = f.creation ∧ target = f.target ∧ c.argCount = f.argCount := by
      simpa using heq
    refine ⟨f.target, t, f.argCount, rfl, ht, ?_⟩
    rw [← typeName_eq ht]
    rfl

theorem namesBlamed_of_mem_check {signal : Signal}
    (h : issue ∈ (u.check r o signal).bag.issues.toList) : issue.NamesBlamed u r :=
  forall_issues_checkItems (P := Issue.NamesBlamed u r)
    (fun _ _ order hfound => (namesBlamed_of_finding? hfound).reorder order) signal
    u.topLevelItems (.start u.fileName) (by simp [Run.start, IssueBag.empty]) issue h

end CompilationUnit

/-- A message names the class as declared, unless the class has the second place
in its name; and every issue of a run has the message of the class that it
blames. -/
theorem arityMessage_eq_worded_iff (name : String) (n : UInt32) (u : CompilationUnit)
    (r : Resolver) (o : Options) (signal : Signal) :
    (arityMessage name n = worded name n ↔ ¬ place 1 <:+: name.toList) ∧
      ∀ issue ∈ (u.check r o signal).bag.issues.toList, issue.NamesBlamed u r := by
  refine ⟨?_, fun issue h => CompilationUnit.namesBlamed_of_mem_check h⟩
  rw [arityMessage_eq, ← nameInMessage_eq_iff name n]
  exact ⟨worded_inj, congrArg (worded · n)⟩

def generic : CompilationUnit :=
  (Draft.after "a.cs" [.topClass "{1}", .instantiating .absent ⟨0⟩ 1]).unit

theorem arityMessage_generic :
    (arityMessage "T" 1 = worded "T" 1 ↔ ¬ place 1 <:+: "T".toList) ∧
      ∃ issue ∈ (generic.check generic.resolver {} .never).bag.issues.toList,
        issue.message = arityMessage "{1}" 1 ∧ issue.NamesBlamed generic generic.resolver := by
  obtain ⟨htext, hissues⟩ :=
    arityMessage_eq_worded_iff "T" 1 generic generic.resolver {} .never
  exact ⟨htext, _, List.mem_singleton.mpr rfl, rfl, hissues _ (List.mem_singleton.mpr rfl)⟩

/-- A class may lose its name: the place in it becomes the number of arguments. -/
theorem not_arityMessage_eq_worded : ¬ ∀ name n, arityMessage name n = worded name n := by
  intro hclaim
  have hname := worded_inj ((arityMessage_eq _ _).symm.trans (hclaim "{1}" 3))
  exact (nameInMessage_eq_iff "{1}" 3).mp hname (by decide)

end CtorArity
