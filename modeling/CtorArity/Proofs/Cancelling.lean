import CtorArity.Proofs.Report
import Mathlib.Data.Nat.Find

/-!
# Cancelled checks

A check asks its signal once before each top-level item, and nothing that it
answers elsewhere matters (`checkItems_cut`). So a check that a signal stops is
the beginning of the one that nothing stops: the same issues under the same
places, of all items before the one at which it stopped, and of no other.
-/

namespace CtorArity

/-- Answers no to the first `k` polls and yes to all later ones. -/
def Signal.after (k : Nat) : Signal := fun p => decide (k ≤ p.polls)

namespace Run

theorem polls_add (run : Run) (v : Visit) :
    (run.add v).progress.polls = run.progress.polls := by
  obtain ⟨lookup?, event?, issue?⟩ := v
  cases lookup? <;> cases event? <;> cases issue? <;> rfl

theorem polls_foldl (visit : Item → Visit) (items : List Item) (run : Run) :
    (items.foldl (fun run item => run.add (visit item)) run).progress.polls =
      run.progress.polls := by
  induction items generalizing run with
  | nil => rfl
  | cons item rest ih =>
    rw [List.foldl_cons, ih, polls_add]

end Run

namespace CompilationUnit

variable {u : CompilationUnit} {r : Resolver} {o : Options} {items : List Item} {run : Run}
  {signal : Signal} {k : Nat}

theorem polls_checkItems (items : List Item) (run : Run) :
    (u.checkItems r o .never items run).progress.polls = run.progress.polls + items.length := by
  induction items generalizing run with
  | nil => rfl
  | cons item rest ih =>
    have hitem := Run.polls_foldl (u.visit r o) (u.visits item) run.poll
    have hpoll : run.poll.progress.polls = run.progress.polls + 1 := rfl
    refine (ih _).trans ?_
    rw [hitem, hpoll, List.length_cons, Nat.add_assoc, Nat.add_comm 1]

theorem checkItems_append (first second : List Item) (run : Run) :
    u.checkItems r o .never (first ++ second) run =
      u.checkItems r o .never second (u.checkItems r o .never first run) := by
  induction first generalizing run with
  | nil => rfl
  | cons item rest ih => exact ih _

theorem checkItems_cut
    (hno : ∀ j < k, signal (u.checkItems r o .never (items.take j) run).progress = false)
    (hyes : k < items.length →
      signal (u.checkItems r o .never (items.take k) run).progress = true) :
    u.checkItems r o signal items run =
      if k < items.length then (u.checkItems r o .never (items.take k) run).poll.cancel
      else u.checkItems r o .never (items.take k) run := by
  induction items generalizing run k with
  | nil =>
    rw [List.take_nil]
    rfl
  | cons item rest ih =>
    rw [checkItems]
    cases k with
    | zero =>
      have hstop : signal run.progress = true := hyes (Nat.succ_pos _)
      rw [if_pos hstop, if_pos]
      · rfl
      · exact Nat.succ_pos _
    | succ k =>
      -- The first item has used up one poll: the rest is cut one place earlier.
      have hgo : signal run.progress = false := hno 0 (Nat.succ_pos k)
      have hrest := ih (fun j hj => hno (j + 1) (Nat.succ_lt_succ hj))
        (fun hk => hyes (Nat.succ_lt_succ hk))
      rw [hgo, if_neg Bool.false_ne_true, hrest]
      simp only [List.length_cons, Nat.succ_lt_succ_iff]
      rfl

-- ---------------------------------------------------------------------------
-- Where a check stops
-- ---------------------------------------------------------------------------

/-- The check after its first `k` top-level items. -/
def upTo (u : CompilationUnit) (r : Resolver) (o : Options) (k : Nat) : Run :=
  u.checkItems r o .never (u.topLevelItems.take k) (.start u.fileName)

theorem polls_upTo (k : Nat) :
    (u.upTo r o k).progress.polls = min k u.topLevelItems.length := by
  rw [upTo, polls_checkItems, List.length_take]
  exact Nat.zero_add _

theorem check_cut (hno : ∀ j < k, signal (u.upTo r o j).progress = false)
    (hyes : k < u.topLevelItems.length → signal (u.upTo r o k).progress = true) :
    u.check r o signal =
      (if k < u.topLevelItems.length then (u.upTo r o k).poll.cancel else u.upTo r o k).finish :=
  congrArg Run.finish (checkItems_cut hno hyes)

theorem check_after (k : Nat) : u.check r o (.after k) =
    (if k < u.topLevelItems.length then (u.upTo r o k).poll.cancel else u.upTo r o k).finish := by
  refine check_cut (fun j hj => ?_) (fun hk => ?_)
  · simp only [Signal.after, polls_upTo]
    have hlt : min j u.topLevelItems.length < k := Nat.lt_of_le_of_lt (Nat.min_le_left _ _) hj
    exact decide_eq_false (Nat.not_le_of_lt hlt)
  · simp only [Signal.after, polls_upTo]
    exact decide_eq_true (Nat.le_min.mpr ⟨Nat.le_refl k, Nat.le_of_lt hk⟩)

/-- The run stopped before the item at place `k`: what it has found is what there
is to find below the items before that one, and a run that is not stopped finds
the rest after it. -/
structure CutAt (u : CompilationUnit) (r : Resolver) (o : Options) (k : Nat) (run : Run) :
    Prop where
  cancelled : run.cancelled = decide (k < u.topLevelItems.length)
  /-- One poll for each item that is reached. -/
  polls : run.progress.polls = min (k + 1) u.topLevelItems.length
  lookups : run.progress.lookups.toList =
    ((u.topLevelItems.take k).flatMap u.visits).filterMap fun item => (u.visit r o item).lookup?
  issues : run.bag.issues.toList =
    Run.numberedFrom 0 (((u.topLevelItems.take k).flatMap u.visits).filterMap (u.finding? r o))
  later : (u.check r o .never).bag.issues.toList = run.bag.issues.toList ++
    Run.numberedFrom run.bag.size
      (((u.topLevelItems.drop k).flatMap u.visits).filterMap (u.finding? r o))
  /-- The walk leaves out nothing that stands inside the items. -/
  walked : u.Linked → u.Addressable →
    u.Walked (u.topLevelItems.take k) ((u.topLevelItems.take k).flatMap u.visits)
  full : u.topLevelItems.length ≤ k → run = u.check r o .never

theorem upTo_of_le (hk : u.topLevelItems.length ≤ k) :
    (u.upTo r o k).finish = u.check r o .never := by
  rw [upTo, List.take_of_length_le hk]
  rfl

theorem issues_upTo (k : Nat) : (u.upTo r o k).bag.issues.toList =
    Run.numberedFrom 0 (((u.topLevelItems.take k).flatMap u.visits).filterMap (u.finding? r o)) := by
  rw [upTo, issues_checkItems]
  simp [Run.start, IssueBag.empty, IssueBag.size]

theorem lookups_upTo (k : Nat) : (u.upTo r o k).progress.lookups.toList =
    ((u.topLevelItems.take k).flatMap u.visits).filterMap fun item => (u.visit r o item).lookup? := by
  have hadds := adds_checkItems (u := u) r o (u.topLevelItems.take k) (.start u.fileName)
  rw [upTo, hadds.lookups, List.filterMap_map]
  rfl

theorem issues_check_never (k : Nat) : (u.check r o .never).bag.issues.toList =
    (u.upTo r o k).bag.issues.toList ++ Run.numberedFrom (u.upTo r o k).bag.size
      (((u.topLevelItems.drop k).flatMap u.visits).filterMap (u.finding? r o)) := by
  have hsplit : u.checkItems r o .never u.topLevelItems (.start u.fileName) =
      u.checkItems r o .never (u.topLevelItems.drop k) (u.upTo r o k) := by
    rw [upTo, ← checkItems_append, List.take_append_drop]
  have hcheck : (u.check r o .never).bag =
      (u.checkItems r o .never (u.topLevelItems.drop k) (u.upTo r o k)).bag := by
    rw [← hsplit]
    rfl
  rw [hcheck, issues_checkItems]

theorem cutAt_check (k : Nat) : u.CutAt r o k (u.check r o (.after k)) := by
  have hpolls : (u.upTo r o k).progress.polls = min k u.topLevelItems.length := polls_upTo k
  rw [check_after]
  split
  · next hk =>
    refine ⟨(decide_eq_true hk).symm, (congrArg (· + 1) hpolls).trans ?_, lookups_upTo k,
      issues_upTo k, issues_check_never k, fun h hu => walked_visits h hu _, ?_⟩
    · rw [Nat.min_eq_left (Nat.le_of_lt hk), Nat.min_eq_left hk]
    · exact fun hle => absurd hk (Nat.not_lt.mpr hle)
  · next hk =>
    have hgoes_on : (u.upTo r o k).cancelled = false :=
      (adds_checkItems r o (u.topLevelItems.take k) (.start u.fileName)).cancelled
    refine ⟨hgoes_on.trans (decide_eq_false hk).symm, hpolls.trans ?_, lookups_upTo k,
      issues_upTo k, issues_check_never k, fun h hu => walked_visits h hu _, upTo_of_le⟩
    rw [Nat.not_lt] at hk
    rw [Nat.min_eq_right hk, Nat.min_eq_right (Nat.le_succ_of_le hk)]

/-- A check whose signal answers no to `k` polls and yes from then on is cut before
the item at place `k`; and every signal cuts at the first item before which it
answers yes, whatever it would answer elsewhere. -/
theorem check_cutAt (u : CompilationUnit) (r : Resolver) (o : Options) :
    (∀ k, u.CutAt r o k (u.check r o (.after k))) ∧
      ∀ signal, ∃ k ≤ u.topLevelItems.length, u.check r o signal = u.check r o (.after k) ∧
        (∀ j < k, signal (u.upTo r o j).progress = false) ∧
        (k < u.topLevelItems.length → signal (u.upTo r o k).progress = true) := by
  refine ⟨cutAt_check, fun signal => ?_⟩
  have hstops : ∃ k, u.topLevelItems.length ≤ k ∨ signal (u.upTo r o k).progress = true :=
    ⟨_, .inl (Nat.le_refl _)⟩
  have hno : ∀ j < Nat.find hstops, signal (u.upTo r o j).progress = false := by
    intro j hj
    have hnot := Nat.find_min hstops hj
    rw [not_or] at hnot
    simpa using hnot.2
  have hyes : Nat.find hstops < u.topLevelItems.length →
      signal (u.upTo r o (Nat.find hstops)).progress = true :=
    fun hlt => (Nat.find_spec hstops).resolve_left (Nat.not_le_of_lt hlt)
  refine ⟨Nat.find hstops, Nat.find_min' hstops (.inl (Nat.le_refl _)), ?_, hno, hyes⟩
  rw [check_cut hno hyes, check_after]

end CompilationUnit

end CtorArity
