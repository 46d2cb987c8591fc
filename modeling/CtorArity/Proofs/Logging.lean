import CtorArity.Proofs.Report

/-!
# The log of a check

An issue is logged before it is put into the bag, under the number of issues there
so far, and the bag counts the issues of each rule on the side. A run keeps log,
keys and counts in step with the issues (`Faithful`), so what the log tells on its
DEBUG level is what the run comes to: its issues in order, whether it was
cancelled, and how many issues there are of which rule (`check_tellsOutcome`).
-/

namespace CtorArity

def Issue.event (i : Issue) (place : Nat) : Event :=
  .issueFound place i.origin i.span.start i.message

namespace IssueBag

variable {b : IssueBag} {i : Issue}

def told (b : IssueBag) : List Event :=
  b.issues.toList.zipIdx.map fun (i, place) => i.event place

def countOf (b : IssueBag) (origin : Origin) : Nat :=
  b.issues.toList.countP (·.origin == origin)

/-- What the log tells of them at the end. -/
def summary (b : IssueBag) : Event :=
  .checkFinished b.issues.size (b.countOf .baseBinding) (b.countOf .instantiation)

/-- Keys and counts say what the issues say. -/
structure InStep (b : IssueBag) : Prop where
  keys : ∀ place i, b.issues[place]? = some i → i.order = UInt32.ofNat place
  baseBindings : b.baseBindings = b.countOf .baseBinding
  instantiations : b.instantiations = b.countOf .instantiation

theorem told_push (b : IssueBag) (i : Issue) : (b.push i).told = b.told ++ [i.event b.size] := by
  simp [told, push, List.zipIdx_append, Issue.event, size]

theorem countOf_push (b : IssueBag) (i : Issue) (origin : Origin) :
    (b.push i).countOf origin = b.countOf origin + if i.origin = origin then 1 else 0 := by
  simp [countOf, push, List.countP_append, List.countP_singleton]

theorem InStep.push (h : b.InStep) (i : Issue) : (b.push i).InStep where
  keys place j hj := by
    rw [IssueBag.push, Array.getElem?_push] at hj
    split at hj
    · next hplace =>
      obtain rfl := Option.some.inj hj
      rw [hplace]
    · exact h.keys place j hj
  baseBindings := by rw [countOf_push, ← h.baseBindings]; rfl
  instantiations := by rw [countOf_push, ← h.instantiations]; rfl

theorem countOf_add_countOf (b : IssueBag) :
    b.countOf .baseBinding + b.countOf .instantiation = b.issues.size := by
  have hother : ∀ i : Issue, (i.origin == .instantiation) =
      decide ¬ (i.origin == .baseBinding) = true := by
    intro i
    cases i.origin <;> rfl
  rw [countOf, countOf, funext hother, ← Array.length_toList]
  exact (List.length_eq_countP_add_countP _).symm

/-- As long as the places are words, the keys are the places. -/
theorem InStep.told_eq (h : b.InStep) (hsize : b.issues.size ≤ UInt32.size) :
    b.told = b.issues.toList.map fun i => i.event i.order.toNat := by
  have hkey : ∀ entry ∈ b.issues.toList.zipIdx,
      entry.1.event entry.2 = entry.1.event entry.1.order.toNat := by
    rintro ⟨i, place⟩ hentry
    have hget := List.mem_zipIdx_iff_getElem?.mp hentry
    rw [Array.getElem?_toList] at hget
    have hlt : place < UInt32.size :=
      Nat.lt_of_lt_of_le (Array.getElem?_eq_some_iff.mp hget).1 hsize
    rw [h.keys place i hget, UInt32.toNat_ofNat_of_lt' hlt]
  calc b.told
    _ = b.issues.toList.zipIdx.map fun entry => entry.1.event entry.1.order.toNat :=
        List.map_congr_left hkey
    _ = (b.issues.toList.zipIdx.map (·.1)).map fun i => i.event i.order.toNat :=
        by rw [List.map_map, Function.comp_def]
    _ = b.issues.toList.map fun i => i.event i.order.toNat := by rw [List.zipIdx_map_fst]

end IssueBag

-- ---------------------------------------------------------------------------
-- What a run logs
-- ---------------------------------------------------------------------------

namespace Run

variable {run : Run} {event : Event} {i : Issue} {v : Visit}

def debugLog (run : Run) : List Event := run.log.toList.filter (·.level == .debug)

structure Faithful (run : Run) : Prop where
  debug : run.debugLog = run.bag.told ++ if run.cancelled then [.cancelled] else []
  bag : run.bag.InStep

theorem debugLog_note (event : Event) (h : event.level = .debug) (run : Run) :
    (run.note event).debugLog = run.debugLog ++ [event] := by
  simp [debugLog, note, h]

theorem debugLog_note_of_ne (h : event.level ≠ .debug) (run : Run) :
    (run.note event).debugLog = run.debugLog := by
  simp [debugLog, note, h]

theorem faithful_start (file : String) : (start file).Faithful where
  debug := rfl
  bag := ⟨fun _ _ h => by simp [start, IssueBag.empty] at h, rfl, rfl⟩

theorem Faithful.note (h : run.Faithful) (hevent : event.level ≠ .debug) :
    (run.note event).Faithful :=
  ⟨(debugLog_note_of_ne hevent run).trans h.debug, h.bag⟩

theorem Faithful.emit (h : run.Faithful) (hgoes : run.cancelled = false) (i : Issue) :
    (run.emit i).Faithful where
  debug := by
    have hlogged := debugLog_note (i.event run.bag.size) rfl run
    rw [h.debug, hgoes, if_neg Bool.false_ne_true, List.append_nil] at hlogged
    refine hlogged.trans ?_
    have hstill : (run.emit i).cancelled = false := hgoes
    have hbag : (run.emit i).bag = run.bag.push i := rfl
    rw [hstill, hbag, IssueBag.told_push, if_neg Bool.false_ne_true, List.append_nil]
  bag := h.bag.push i

theorem Faithful.add (h : run.Faithful) (hgoes : run.cancelled = false)
    (hevent : ∀ event ∈ v.event?, event.level ≠ .debug) : (run.add v).Faithful := by
  obtain ⟨lookup?, event?, issue?⟩ := v
  let asked := lookup?.elim run run.ask
  let noted := event?.elim asked asked.note
  have hasked : asked.Faithful ∧ asked.cancelled = false := by
    cases lookup? with
    | none => exact ⟨h, hgoes⟩
    | some lookup => exact ⟨⟨h.debug, h.bag⟩, hgoes⟩
  have hnoted : noted.Faithful ∧ noted.cancelled = false := by
    cases event? with
    | none => exact hasked
    | some event => exact ⟨hasked.1.note (hevent event rfl), hasked.2⟩
  cases issue? with
  | none => exact hnoted.1
  | some i => exact hnoted.1.emit hnoted.2 i

theorem Faithful.foldl {visit : Item → Visit} {items : List Item} (h : run.Faithful)
    (hgoes : run.cancelled = false)
    (hevents : ∀ item, ∀ event ∈ (visit item).event?, event.level ≠ .debug) :
    (items.foldl (fun run item => run.add (visit item)) run).Faithful := by
  induction items generalizing run with
  | nil => exact h
  | cons item rest ih =>
    exact ih (h.add hgoes (hevents item)) ((adds_add run (visit item)).cancelled.trans hgoes)

theorem Faithful.poll (h : run.Faithful) : run.poll.Faithful := ⟨h.debug, h.bag⟩

theorem Faithful.cancel (h : run.Faithful) (hgoes : run.cancelled = false) :
    run.cancel.Faithful where
  debug := by
    have hlogged := debugLog_note .cancelled rfl run
    rw [h.debug, hgoes, if_neg Bool.false_ne_true, List.append_nil] at hlogged
    exact hlogged
  bag := h.bag

/-- The log of a finished run tells what the run has come to. -/
structure TellsOutcome (run : Run) : Prop where
  /-- An event for each issue, in order; then one more if the run was cancelled; then the end. -/
  debug : run.debugLog =
    run.bag.told ++ (if run.cancelled then [.cancelled] else []) ++ [run.bag.summary]
  /-- The key of an issue is the place under which it is told, as a word. -/
  keys : ∀ place i, run.bag.issues[place]? = some i → i.order = UInt32.ofNat place
  /-- As long as there are words, it is told under its key. -/
  told : run.bag.issues.size ≤ UInt32.size →
    run.bag.told = run.bag.issues.toList.map fun i => i.event i.order.toNat
  cancelled : .cancelled ∈ run.log ↔ run.cancelled = true
  last : run.log.back? = some run.bag.summary
  counts : run.bag.countOf .baseBinding + run.bag.countOf .instantiation = run.bag.issues.size

theorem mem_debugLog (h : event.level = .debug) (run : Run) :
    event ∈ run.debugLog ↔ event ∈ run.log := by
  simp [debugLog, h]

theorem Faithful.finish (h : run.Faithful) : run.finish.TellsOutcome := by
  have hfinish : run.finish = run.note run.bag.summary := by
    rw [IssueBag.summary, ← h.bag.baseBindings, ← h.bag.instantiations]
    rfl
  have hdebug : run.finish.debugLog =
      run.bag.told ++ (if run.cancelled then [.cancelled] else []) ++ [run.bag.summary] := by
    rw [hfinish, debugLog_note run.bag.summary rfl, h.debug]
  refine ⟨hdebug, h.bag.keys, h.bag.told_eq, ?_, ?_, run.bag.countOf_add_countOf⟩
  · have hissues : Event.cancelled ∉ run.bag.told := by
      intro hmem
      obtain ⟨entry, -, hentry⟩ := List.mem_map.mp hmem
      cases hentry
    have hsame : run.finish.cancelled = run.cancelled := rfl
    rw [← mem_debugLog rfl, hdebug, hsame]
    cases run.cancelled <;> simp [hissues, IssueBag.summary]
  · rw [hfinish]
    exact Array.back?_push

end Run

-- ---------------------------------------------------------------------------
-- What a check logs
-- ---------------------------------------------------------------------------

theorem BaseVerdict.level_event? (verdict : BaseVerdict) :
    ∀ event ∈ verdict.event?, event.level = .trace := by
  intro event h
  cases verdict with
  | skipped why => cases why <;> cases h <;> rfl
  | exempted id => cases h; rfl
  | bound | failed f => cases h

theorem CreationVerdict.level_event? (verdict : CreationVerdict) :
    ∀ event ∈ verdict.event?, event.level = .trace := by
  intro event h
  cases verdict with
  | skipped why => cases why <;> cases h <;> rfl
  | bound | failed f => cases h

namespace CompilationUnit

variable {u : CompilationUnit} {r : Resolver} {o : Options} {run : Run} {signal : Signal}

theorem level_event?_visit (u : CompilationUnit) (r : Resolver) (o : Options) (item : Item) :
    ∀ event ∈ (u.visit r o item).event?, event.level = .trace := by
  cases item with
  | type id => exact (u.baseVerdict r o.policy id).level_event?
  | creation id =>
    rw [visit]
    split
    · exact (u.creationVerdict r id).level_event?
    · intro event h
      cases h

theorem faithful_checkItems (items : List Item) (h : run.Faithful)
    (hgoes : run.cancelled = false) : (u.checkItems r o signal items run).Faithful := by
  induction items generalizing run with
  | nil => exact h
  | cons item rest ih =>
    rw [checkItems]
    split
    · exact h.poll.cancel hgoes
    · have hadds := Run.adds_foldl (u.visit r o) (u.visits item) run.poll
      refine ih (h.poll.foldl hgoes fun below event hevent => ?_) (hadds.cancelled.trans hgoes)
      rw [level_event?_visit u r o below event hevent]
      decide

/-- The log of every check tells its outcome, wherever a signal stops it. -/
theorem check_tellsOutcome (u : CompilationUnit) (r : Resolver) (o : Options) (signal : Signal) :
    (u.check r o signal).TellsOutcome :=
  (faithful_checkItems u.topLevelItems (Run.faithful_start u.fileName) rfl).finish

end CompilationUnit

end CtorArity
