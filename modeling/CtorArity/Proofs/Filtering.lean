import CtorArity.Proofs.Cancelling

/-!
# Options filter

A run visits the same items under all options, and an option decides only which
of its findings are kept (`finding?_baseOnly`, `finding?_exempting`). So the
issues under one option are those under the other that pass a test, under new
places (`check_options`); how findings are shown is no matter of the check.
-/

namespace CtorArity

/-- Answers by how often it was asked before, and by nothing that the run has met.
`Signal.never` is one of these. -/
def Signal.polled (stops : Nat → Bool) : Signal := fun p => stops p.polls

example : Signal.never = .polled fun _ => false := rfl

namespace Run

/-- The issues of a run that pass a test, under new places. -/
def kept (test : Issue → Bool) (run : Run) : List Issue :=
  numberedFrom 0 (run.bag.issues.toList.filter test)

theorem numberedFrom_cons (n : Nat) (i : Issue) (rest : List Issue) :
    numberedFrom n (i :: rest) =
      { i with order := UInt32.ofNat n } :: numberedFrom (n + 1) rest := rfl

theorem numberedFrom_filter_numberedFrom {test : Issue → Bool}
    (h : ∀ i order, test { i with order := order } = test i) (m n : Nat) (issues : List Issue) :
    numberedFrom m ((numberedFrom n issues).filter test) =
      numberedFrom m (issues.filter test) := by
  induction issues generalizing m n with
  | nil => rfl
  | cons i rest ih =>
    rw [numberedFrom_cons, List.filter_cons, List.filter_cons, h]
    split
    · rw [numberedFrom_cons, numberedFrom_cons, ih]
    · exact ih m (n + 1)

end Run

namespace CompilationUnit

variable {u : CompilationUnit} {r : Resolver} {o : Options} {item : Item}

-- ---------------------------------------------------------------------------
-- Where a run stops does not depend on what it finds
-- ---------------------------------------------------------------------------

theorem checkItems_congr {r r' : Resolver} {o o' : Options} (h : u.visit r' o' = u.visit r o)
    (signal : Signal) (items : List Item) (run : Run) :
    u.checkItems r' o' signal items run = u.checkItems r o signal items run := by
  induction items generalizing run with
  | nil => rfl
  | cons item rest ih => rw [checkItems, checkItems, h, ih]

theorem issues_check_polled (u : CompilationUnit) (stops : Nat → Bool) :
    ∃ k, ∀ r o, (u.check r o (.polled stops)).bag.issues.toList = Run.numberedFrom 0
      (((u.topLevelItems.take k).flatMap u.visits).filterMap (u.finding? r o)) := by
  have hstops : ∃ k, u.topLevelItems.length ≤ k ∨ stops k = true := ⟨_, .inl (Nat.le_refl _)⟩
  have hle : Nat.find hstops ≤ u.topLevelItems.length :=
    Nat.find_min' hstops (.inl (Nat.le_refl _))
  refine ⟨Nat.find hstops, fun r o => ?_⟩
  have hpolls : ∀ j ≤ Nat.find hstops, Signal.polled stops (u.upTo r o j).progress = stops j := by
    intro j hj
    rw [Signal.polled, polls_upTo, Nat.min_eq_left (Nat.le_trans hj hle)]
  rw [check_cut (k := Nat.find hstops), ← issues_upTo]
  · split <;> rfl
  · intro j hj
    rw [hpolls j (Nat.le_of_lt hj)]
    exact Bool.eq_false_iff.mpr (not_or.mp (Nat.find_min hstops hj)).2
  · intro hlt
    rw [hpolls _ (Nat.le_refl _)]
    exact (Nat.find_spec hstops).resolve_left (Nat.not_le_of_lt hlt)

theorem issues_check_kept {o o' : Options} {test : Issue → Bool}
    (htest : ∀ i order, test { i with order := order } = test i)
    (h : ∀ item, u.finding? r o' item = (u.finding? r o item).filter test)
    (stops : Nat → Bool) : (u.check r o' (.polled stops)).bag.issues.toList =
      (u.check r o (.polled stops)).kept test := by
  obtain ⟨k, hissues⟩ := u.issues_check_polled stops
  rw [Run.kept, hissues, hissues, Run.numberedFrom_filter_numberedFrom htest,
    List.filter_filterMap]
  simp only [h]

-- ---------------------------------------------------------------------------
-- What an option keeps
-- ---------------------------------------------------------------------------

theorem finding?_baseOnly (u : CompilationUnit) (r : Resolver) (o : Options) (item : Item) :
    u.finding? r { o with checkObjectCreation := false } item =
      (u.finding? r { o with checkObjectCreation := true } item).filter
        (·.origin == .baseBinding) := by
  cases item with
  | type id =>
    simp only [finding?]
    cases (u.baseVerdict r o.policy id).failure? <;> rfl
  | creation id =>
    simp only [finding?]
    cases (u.creationVerdict r id).failure? <;> rfl

def someCallBinds (u : CompilationUnit) (r : Resolver) (id : TypeId) : Bool :=
  match u.checkedBase r id with
  | .error _ => false
  | .ok base =>
    (u.callSites id).any fun site => anyAccepts (u.candidates r base id) site.argCount

/-- It is the issue of a class some base call of which binds. -/
def excused (u : CompilationUnit) (r : Resolver) (i : Issue) : Bool :=
  i.origin == .baseBinding && u.someCallBinds r i.subject

theorem baseVerdict_exempting (u : CompilationUnit) (r : Resolver) (id : TypeId) :
    (u.baseVerdict r .exemptOnAnySuccess id).failure? =
      (u.baseVerdict r .reportAnyFailure id).failure?.filter fun f =>
        !u.someCallBinds r f.derived := by
  unfold baseVerdict
  cases hbase : u.checkedBase r id with
  | error why => rfl
  | ok base =>
    simp only [judgeCalls]
    cases (u.callSites id).find? fun site => !anyAccepts (u.candidates r base id) site.argCount with
    | none => rfl
    | some site =>
      cases hany : (u.callSites id).any fun s =>
          anyAccepts (u.candidates r base id) s.argCount <;>
        simp [BaseVerdict.failure?, Option.filter, someCallBinds, hbase, hany]

theorem finding?_exempting (u : CompilationUnit) (r : Resolver) (o : Options) (item : Item) :
    u.finding? r { o with policy := .exemptOnAnySuccess } item =
      (u.finding? r { o with policy := .reportAnyFailure } item).filter
        fun i => !u.excused r i := by
  cases item with
  | type id =>
    simp only [finding?, baseVerdict_exempting]
    cases (u.baseVerdict r .reportAnyFailure id).failure? with
    | none => rfl
    | some f => simp [Option.filter, excused, issueOfBase, baseIssue]
  | creation id =>
    simp only [finding?]
    split
    · cases (u.creationVerdict r id).failure? <;> rfl
    · rfl

theorem visit_severity (u : CompilationUnit) (r : Resolver) (o : Options) (severity : Severity) :
    u.visit r { o with severity := severity } = u.visit r o := by
  funext item
  cases item <;> rfl

/-- Without creations a run keeps its issues of bases. The exempting policy keeps
all issues but those of classes some base call of which binds. Both keep the
order and give new places. The severity changes nothing. -/
theorem check_options (u : CompilationUnit) (r : Resolver) (o : Options) (stops : Nat → Bool) :
    (u.check r { o with checkObjectCreation := false } (.polled stops)).bag.issues.toList =
        (u.check r { o with checkObjectCreation := true } (.polled stops)).kept
          (·.origin == .baseBinding) ∧
      (u.check r { o with policy := .exemptOnAnySuccess } (.polled stops)).bag.issues.toList =
        (u.check r { o with policy := .reportAnyFailure } (.polled stops)).kept
          (fun i => !u.excused r i) ∧
      ∀ severity signal, u.check r { o with severity := severity } signal = u.check r o signal := by
  refine ⟨issues_check_kept (fun _ _ => rfl) (finding?_baseOnly u r o) stops,
    issues_check_kept (fun _ _ => rfl) (finding?_exempting u r o) stops, ?_⟩
  intro severity signal
  exact congrArg Run.finish (checkItems_congr (visit_severity u r o severity) signal _ _)

end CompilationUnit

end CtorArity
