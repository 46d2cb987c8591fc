import CtorArity.Proofs.Walk

/-!
# What a check reports

A run that no signal stops visits the items of the walk in turn, so it asks
what they ask and keeps what they find, in that order (`Adds`). `check_sweep`:
whatever the resolver answers, the check of a finished unit visits every type
and every creation once, and its issues are what it finds on the way, an issue
of a type after all that stands inside it.
-/

namespace CtorArity

namespace Run

variable {run run' run'' : Run} {visits later : List Visit}

def numberedFrom (n : Nat) (issues : List Issue) : List Issue :=
  (issues.zipIdx n).map fun (issue, i) => { issue with order := UInt32.ofNat i }

theorem numberedFrom_append (n : Nat) (issues more : List Issue) :
    numberedFrom n (issues ++ more) =
      numberedFrom n issues ++ numberedFrom (n + issues.length) more := by
  simp [numberedFrom, List.zipIdx_append]

@[simp] theorem length_numberedFrom (n : Nat) (issues : List Issue) :
    (numberedFrom n issues).length = issues.length := by
  simp [numberedFrom]

/-- The second run is the first one after these visits. -/
structure Adds (visits : List Visit) (run run' : Run) : Prop where
  issues : run'.bag.issues.toList =
    run.bag.issues.toList ++ numberedFrom run.bag.size (visits.filterMap (·.issue?))
  lookups : run'.progress.lookups.toList =
    run.progress.lookups.toList ++ visits.filterMap (·.lookup?)
  cancelled : run'.cancelled = run.cancelled

theorem Adds.refl (run : Run) : Adds [] run run := ⟨by simp [numberedFrom], by simp, rfl⟩

theorem Adds.trans (h : Adds visits run run') (h' : Adds later run' run'') :
    Adds (visits ++ later) run run'' where
  issues := by
    have hsize : run'.bag.size = run.bag.size + (visits.filterMap (·.issue?)).length := by
      have := congrArg List.length h.issues
      simpa [IssueBag.size] using this
    rw [h'.issues, h.issues, List.filterMap_append, numberedFrom_append, hsize,
      List.append_assoc]
  lookups := by rw [h'.lookups, h.lookups, List.filterMap_append, List.append_assoc]
  cancelled := h'.cancelled.trans h.cancelled

theorem adds_poll (run : Run) : Adds [] run run.poll :=
  ⟨by simp [poll, numberedFrom], by simp [poll], rfl⟩

theorem adds_add (run : Run) (v : Visit) : Adds [v] run (run.add v) := by
  obtain ⟨lookup?, event?, issue?⟩ := v
  refine ⟨?_, ?_, ?_⟩ <;> cases lookup? <;> cases event? <;> cases issue? <;>
    simp [add, ask, note, emit, IssueBag.push, IssueBag.size, numberedFrom]

theorem adds_foldl (visit : Item → Visit) (items : List Item) (run : Run) :
    Adds (items.map visit) run (items.foldl (fun run item => run.add (visit item)) run) := by
  induction items generalizing run with
  | nil => exact .refl run
  | cons item rest ih => exact (adds_add run (visit item)).trans (ih _)

end Run

namespace CompilationUnit

variable {u : CompilationUnit} {r : Resolver} {o : Options} {walk : List Item} {item : Item}

theorem adds_checkItems (r : Resolver) (o : Options) (items : List Item) (run : Run) :
    Run.Adds ((items.flatMap u.visits).map (u.visit r o)) run
      (u.checkItems r o .never items run) := by
  induction items generalizing run with
  | nil => exact .refl run
  | cons item rest ih =>
    rw [List.flatMap_cons, List.map_append]
    exact ((Run.adds_poll run).trans (Run.adds_foldl _ (u.visits item) run.poll)).trans (ih _)

-- ---------------------------------------------------------------------------
-- Findings
-- ---------------------------------------------------------------------------

def finding? (u : CompilationUnit) (r : Resolver) (o : Options) : Item → Option Issue
  | .type id => (u.baseVerdict r o.policy id).failure?.map u.issueOfBase
  | .creation id =>
    if o.checkObjectCreation then (u.creationVerdict r id).failure?.map u.issueOfCreation
    else none

theorem issue?_visit (u : CompilationUnit) (r : Resolver) (o : Options) (item : Item) :
    (u.visit r o item).issue? = u.finding? r o item := by
  cases item with
  | type id => rfl
  | creation id => cases h : o.checkObjectCreation <;> simp [visit, finding?, visitCreation, h]

theorem issues_checkItems (r : Resolver) (o : Options) (items : List Item) (run : Run) :
    (u.checkItems r o .never items run).bag.issues.toList = run.bag.issues.toList ++
      Run.numberedFrom run.bag.size ((items.flatMap u.visits).filterMap (u.finding? r o)) := by
  rw [(adds_checkItems r o items run).issues, List.filterMap_map]
  simp only [Function.comp_def, issue?_visit]

theorem forall_issues_checkItems {P : Issue → Prop}
    (hfound : ∀ item issue order, u.finding? r o item = some issue →
      P { issue with order := order })
    (signal : Signal) (items : List Item) (run : Run)
    (h : ∀ issue ∈ run.bag.issues.toList, P issue) :
    ∀ issue ∈ (u.checkItems r o signal items run).bag.issues.toList, P issue := by
  induction items generalizing run with
  | nil => exact h
  | cons item rest ih =>
    rw [checkItems]
    split
    · exact h
    · refine ih _ fun issue hissue => ?_
      rw [(Run.adds_foldl (u.visit r o) (u.visits item) run.poll).issues] at hissue
      rcases List.mem_append.mp hissue with hbefore | hnew
      · exact h issue hbefore
      · rw [Run.numberedFrom, List.filterMap_map] at hnew
        obtain ⟨⟨found, k⟩, hfind, rfl⟩ := List.mem_map.mp hnew
        obtain ⟨below, -, hbelow⟩ :=
          List.mem_filterMap.mp (List.fst_mem_of_mem_zipIdx hfind)
        exact hfound below found _ ((issue?_visit u r o below).symm.trans hbelow)

/-- The items of a walk that have something wrong, with what it is. -/
def findings (u : CompilationUnit) (r : Resolver) (o : Options) (walk : List Item) :
    List (Item × Issue) :=
  walk.filterMap fun item => (u.finding? r o item).map (item, ·)

end CompilationUnit

def Item.origin : Item → Origin
  | .type _ => .baseBinding
  | .creation _ => .instantiation

namespace CompilationUnit

variable {u : CompilationUnit} {r : Resolver} {o : Options} {walk : List Item} {item : Item}

theorem map_snd_findings (walk : List Item) :
    (u.findings r o walk).map (·.2) = walk.filterMap fun item => (u.visit r o item).issue? := by
  simp only [findings, issue?_visit, List.map_filterMap, Option.map_map, Function.comp_def,
    Option.map_id']

theorem origin_of_finding? (h : u.finding? r o item = some issue) :
    issue.origin = item.origin := by
  cases item with
  | type id =>
    obtain ⟨f, -, rfl⟩ := Option.map_eq_some_iff.mp h
    rfl
  | creation id =>
    rw [finding?, Option.ite_none_right_eq_some] at h
    obtain ⟨-, h⟩ := h
    obtain ⟨f, -, rfl⟩ := Option.map_eq_some_iff.mp h
    rfl

/-- A run that visits a unit along a walk and finds all there is to find. -/
structure Sweep (u : CompilationUnit) (r : Resolver) (o : Options) (walk : List Item)
    (run : Run) : Prop where
  walked : u.Walked u.topLevelItems walk
  /-- Every type of the unit is visited once, and nothing else is. -/
  types : ∀ id, walk.count (Item.type id) = if (u.type? id).isSome then 1 else 0
  creations : ∀ id, walk.count (Item.creation id) = if (u.creation? id).isSome then 1 else 0
  lookups : run.progress.lookups.toList = walk.filterMap fun item => (u.visit r o item).lookup?
  issues : run.bag.issues.toList = (u.findings r o walk).zipIdx.map
    fun ((_, issue), i) => { issue with order := UInt32.ofNat i }
  origins : ∀ item issue, (item, issue) ∈ u.findings r o walk → issue.origin = item.origin
  /-- What is found inside a type comes before what is found about it. -/
  inside_first : ∀ (i j : Nat) item id found about,
    (u.findings r o walk)[i]? = some (item, found) →
    (u.findings r o walk)[j]? = some (Item.type id, about) → u.Inside item id → i < j
  places : ∀ i issue, i < UInt32.size → run.bag.issues[i]? = some issue → issue.order.toNat = i
  completed : run.cancelled = false

theorem pairwise_findings (h : u.Linked) (hu : u.Addressable)
    (hw : u.Walked u.topLevelItems walk) :
    (u.findings r o walk).Pairwise fun a b : Item × Issue =>
      ∀ id, a.1 = .type id → ¬ u.Inside b.1 id := by
  refine List.Pairwise.filterMap _ ?_ (hw.pairwise h hu (hw.nodup h hu))
  intro a a' hlater b hb b' hb'
  obtain ⟨_, -, rfl⟩ := Option.map_eq_some_iff.mp hb
  obtain ⟨_, -, rfl⟩ := Option.map_eq_some_iff.mp hb'
  exact hlater

theorem numberedFrom_findings (walk : List Item) :
    Run.numberedFrom 0 ((walk.map (u.visit r o)).filterMap (·.issue?)) =
      (u.findings r o walk).zipIdx.map
        fun ((_, issue), i) => { issue with order := UInt32.ofNat i } := by
  rw [List.filterMap_map, Function.comp_def, ← map_snd_findings, Run.numberedFrom,
    List.zipIdx_map, List.map_map]
  rfl

theorem Linked.sweep (h : u.Linked) (hu : u.Addressable) (hw : u.Walked u.topLevelItems walk)
    {run : Run} (hadds : Run.Adds (walk.map (u.visit r o)) (.start u.fileName) run) :
    u.Sweep r o walk run := by
  have hissues : run.bag.issues.toList = (u.findings r o walk).zipIdx.map
      fun ((_, issue), i) => { issue with order := UInt32.ofNat i } :=
    hadds.issues.trans (numberedFrom_findings walk)
  refine ⟨hw, hw.count_type h hu, hw.count_creation h hu, ?_, hissues, ?_, ?_, ?_,
    hadds.cancelled⟩
  · rw [hadds.lookups, List.filterMap_map]
    rfl
  · intro item issue hmem
    obtain ⟨item, -, hfound⟩ := List.mem_filterMap.mp hmem
    obtain ⟨issue, hissue, ⟨⟩⟩ := Option.map_eq_some_iff.mp hfound
    exact origin_of_finding? hissue
  · intro i j item id found about hi hj hin
    have hpair := List.pairwise_iff_getElem.mp (pairwise_findings (r := r) (o := o) h hu hw)
    obtain ⟨hilt, hi⟩ := List.getElem?_eq_some_iff.mp hi
    obtain ⟨hjlt, hj⟩ := List.getElem?_eq_some_iff.mp hj
    rcases Nat.lt_trichotomy i j with hlt | rfl | hgt
    · exact hlt
    · obtain ⟨rfl, -⟩ := Prod.mk.inj (hi.symm.trans hj)
      exact absurd (hin.index_lt h hu) (Nat.lt_irrefl _)
    · have hlater := hpair j i hjlt hilt hgt id
      rw [hi, hj] at hlater
      exact absurd hin (hlater rfl)
  · intro i issue hlt hi
    rw [← Array.getElem?_toList, hissues, List.getElem?_map] at hi
    obtain ⟨⟨⟨item, found⟩, n⟩, hn, rfl⟩ := Option.map_eq_some_iff.mp hi
    rw [List.getElem?_zipIdx] at hn
    obtain ⟨_, -, ⟨⟩⟩ := Option.map_eq_some_iff.mp hn
    simpa using Nat.mod_eq_of_lt hlt

theorem linked_of_finish (file : String) (steps : List Step)
    (h : (Draft.after file steps).finish = .ok u) : u.Linked := by
  obtain ⟨-, -, -, rfl⟩ := Draft.finish_eq_ok.mp h
  exact Draft.linked_run (Draft.linked_start file) steps

/-- The check of a finished unit, left to run to its end, is a sweep along its
walk, whatever the resolver answers. -/
theorem check_sweep {file : String} {steps : List Step}
    (h : (Draft.after file steps).finish = .ok u) (hu : u.Addressable) (r : Resolver)
    (o : Options) : ∃! walk, u.Sweep r o walk (u.check r o .never) := by
  have hlinked := linked_of_finish file steps h
  have hwalk := walked_visits hlinked hu u.topLevelItems
  have hadds := adds_checkItems (u := u) r o u.topLevelItems (.start u.fileName)
  refine ⟨_, hlinked.sweep hu hwalk ?_, fun walk hsweep => hsweep.walked.unique hwalk⟩
  exact ⟨hadds.issues, hadds.lookups, hadds.cancelled⟩

/-- A class with a subclass inside it, and creations there and at the top. -/
def inward : List Step :=
  [.topClass "A", .addConstructor ⟨0⟩ { params := [⟨"p", false, false⟩] }, .nestedClass ⟨0⟩ "B",
    .instantiating ⟨1⟩ ⟨0⟩ 3, .instantiating .absent ⟨1⟩ 0]

/-- Bases that the unit does not hold, and one class as the target of everything. -/
def stray : Resolver where
  directBase id := .declared (if id.index = 1 then ⟨0⟩ else ⟨7⟩)
  creationTarget _ := some ⟨0⟩
  sameScope _ _ := false
  nestedWithin _ _ := true

theorem check_inward_sweep :
    (Draft.after "a.cs" inward).finish = .ok (Draft.after "a.cs" inward).unit ∧
      (Draft.after "a.cs" inward).unit.Addressable ∧
      ∃! walk, (Draft.after "a.cs" inward).unit.Sweep stray {} walk
        ((Draft.after "a.cs" inward).unit.check stray {} .never) := by
  have hfinish : (Draft.after "a.cs" inward).finish = .ok (Draft.after "a.cs" inward).unit := rfl
  have haddr : (Draft.after "a.cs" inward).unit.Addressable := by decide
  exact ⟨hfinish, haddr, check_sweep hfinish haddr stray {}⟩

end CompilationUnit

end CtorArity
