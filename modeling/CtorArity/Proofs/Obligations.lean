import CtorArity.Proofs.Binding

/-!
# Base calls that a class owes

The rule for base calls, said of all calls and all constructors at once: which
calls a class makes (`baseCalls`), which of them the base takes (`Takes`), and
whether it owes any (`Owes`). `baseVerdict_failure_iff`: the verdict on a class is
what the rule says. To find it one may go call by call and keep the first failure
and whether there was a success (`judgeCalls_eq_verdict`).
-/

namespace CtorArity

-- ---------------------------------------------------------------------------
-- Call by call
-- ---------------------------------------------------------------------------

/-- Of the calls so far the first one that does not bind, and whether any binds. -/
structure CallTally where
  failure : Option CallSite := none
  success : Bool := false

namespace CallTally

def add (visible : List Candidate) (tally : CallTally) (site : CallSite) : CallTally :=
  if anyAccepts visible site.argCount then { tally with success := true }
  else { tally with failure := tally.failure.or (some site) }

def verdict (policy : Policy) (derived base : TypeId) (tally : CallTally) : BaseVerdict :=
  match tally.failure with
  | none => .bound
  | some site =>
    if policy == .exemptOnAnySuccess && tally.success then .exempted derived
    else .failed ⟨derived, base, site⟩

theorem foldl_add (visible : List Candidate) (tally : CallTally) (sites : List CallSite) :
    sites.foldl (add visible) tally =
      { failure := tally.failure.or (sites.find? fun site => !anyAccepts visible site.argCount)
        success := tally.success || sites.any fun site => anyAccepts visible site.argCount } := by
  induction sites generalizing tally with
  | nil => simp
  | cons site rest ih =>
    rw [List.foldl_cons, ih, List.find?_cons, List.any_cons]
    cases h : anyAccepts visible site.argCount <;> simp [add, h]

end CallTally

theorem CompilationUnit.judgeCalls_eq_verdict (policy : Policy) (derived base : TypeId)
    (visible : List Candidate) (sites : List CallSite) :
    judgeCalls policy derived base visible sites =
      (sites.foldl (CallTally.add visible) {}).verdict policy derived base := by
  rw [CallTally.foldl_add]
  rfl

-- ---------------------------------------------------------------------------
-- The rule
-- ---------------------------------------------------------------------------

/-- Open to the calls of a type. Whether this type derives from the declaring one
is not asked. -/
def Access.OpenTo (r : Resolver) (declaring requester : TypeId) : Access → Prop
  | .everywhere | .subtypes | .subtypesOrScope => True
  | .scope | .subtypesInScope => r.sameScope requester declaring = true
  | .ownType => r.nestedWithin requester declaring = true

/-- How many arguments the base call of a constructor has. One that chains to
another of its own type makes none. -/
def Ctor.baseCall? (c : Ctor) : Option UInt32 :=
  match c.initializer with
  | none => some 0
  | some ⟨.base, argCount, _⟩ => some argCount
  | some ⟨.own, _, _⟩ => none

theorem Ctor.baseArgs?_bare (c : Ctor) : c.bare.baseArgs? = c.baseCall? := by
  obtain ⟨_, _, _, _, initializer, _⟩ := c
  cases initializer with
  | none => rfl
  | some init =>
    obtain ⟨target, _, _⟩ := init
    cases target <;> rfl

theorem Access.admits_iff {access : Access} {r : Resolver} {declaring requester : TypeId}
    (h : requester.isAbsent = false) :
    access.admits r declaring requester = true ↔ access.OpenTo r declaring requester := by
  cases access <;> simp [admits, OpenTo, h]

theorem Policy.rejected?_eq_some_iff {policy : Policy} {accepts : UInt32 → Bool}
    {counts : List UInt32} {n : UInt32} : policy.rejected? accepts counts = some n ↔
      (policy = .exemptOnAnySuccess → ∀ m ∈ counts, accepts m = false) ∧
        ∃ before after, counts = before ++ n :: after ∧ (∀ m ∈ before, accepts m = true) ∧
          accepts n = false := by
  have hexcused : (policy == .exemptOnAnySuccess && counts.any accepts) = true ↔
      ¬ (policy = .exemptOnAnySuccess → ∀ m ∈ counts, accepts m = false) := by
    simp
  rw [Policy.rejected?, ite_eq_iff, hexcused, List.find?_eq_some_iff_append]
  simp only [reduceCtorEq, and_false, false_or, not_not, Bool.not_eq_true', Bool.not_eq_false']
  refine and_congr_right fun _ => ⟨?_, ?_⟩
  · rintro ⟨hn, before, after, hsplit, hbefore⟩
    exact ⟨before, after, hsplit, hbefore, hn⟩
  · rintro ⟨before, after, hsplit, hbefore, hn⟩
    exact ⟨hn, before, after, hsplit, hbefore⟩

namespace CompilationUnit

variable {u : CompilationUnit} {r : Resolver} {policy : Policy} {id base requester : TypeId}
  {n : UInt32}

def IsInstanceClass (u : CompilationUnit) (id : TypeId) : Prop :=
  ∃ t, u.type? id = some t ∧ t.kind = .classType ∧ t.modifiers.isStatic = false

structure Owes (u : CompilationUnit) (r : Resolver) (id base : TypeId) : Prop where
  derived : u.IsInstanceClass id
  direct : r.directBase id = .declared base
  base : u.IsInstanceClass base

/-- The base calls of a class by their numbers of arguments, in declaration order.
One without instance constructors calls the base once, without arguments. -/
def baseCalls (u : CompilationUnit) (id : TypeId) : List UInt32 :=
  if u.instanceConstructorsOf id = [] then [0]
  else (u.instanceConstructorsOf id).filterMap (·.2.baseCall?)

/-- Some instance constructor that is open to the caller takes this many arguments.
The one that a class need not write takes none, and is open to all. -/
def Takes (u : CompilationUnit) (r : Resolver) (target requester : TypeId) (n : UInt32) : Prop :=
  if u.instanceConstructorsOf target = [] then n = 0
  else ∃ c ∈ u.instanceConstructorsOf target,
    c.2.access.OpenTo r target requester ∧ isApplicable c.2.params n = true

theorem isInstanceClass_iff :
    u.IsInstanceClass id ↔ ∃ t, u.type? id = some t ∧ t.isInstanceClass = true := by
  simp [IsInstanceClass, TypeDecl.isInstanceClass, TypeDecl.isClass]

theorem owes_iff : u.Owes r id base ↔ u.checkedBase r id = .ok base := by
  rw [checkedBase_eq_ok, ← isInstanceClass_iff, ← isInstanceClass_iff]
  constructor
  · rintro ⟨hderived, hdirect, hbase⟩
    exact ⟨hderived, by rw [hdirect]; rfl, hbase⟩
  · rintro ⟨hderived, hdirect, hbase⟩
    refine ⟨hderived, ?_, hbase⟩
    cases hb : r.directBase id <;> simp [hb, BaseBinding.declared?] at hdirect
    rw [hdirect]

theorem callCounts_eq (u : CompilationUnit) (id : TypeId) : u.callCounts id = u.baseCalls id := by
  unfold callCounts baseCalls ownCtors
  cases u.instanceConstructorsOf id with
  | nil => rfl
  | cons c rest =>
    rw [if_neg (List.cons_ne_nil c rest)]
    refine List.filterMap_map.trans (List.filterMap_congr fun entry _ => ?_)
    exact entry.2.baseArgs?_bare

theorem offers_iff (h : requester.isAbsent = false) :
    u.offers r base requester n = true ↔ u.Takes r base requester n := by
  rw [offers_eq, Takes]
  simp only [List.isEmpty_iff]
  split
  · exact beq_iff_eq
  · simp [Access.admits_iff h]

def FirstUntaken (u : CompilationUnit) (r : Resolver) (id base : TypeId) (n : UInt32) : Prop :=
  ∃ before after, u.baseCalls id = before ++ n :: after ∧ (∀ m ∈ before, u.Takes r base id m) ∧
    ¬ u.Takes r base id n

theorem map_failure?_eq_some_iff {x : TypeId × TypeId × UInt32} :
    (u.baseVerdict r policy id).failure?.map (fun f => (f.derived, f.base, f.argCount)) = some x ↔
      x.1 = id ∧ u.Owes r id x.2.1 ∧
        policy.rejected? (u.offers r x.2.1 id) (u.callCounts id) = some x.2.2 := by
  obtain ⟨derived, base, n⟩ := x
  have hbase : ∀ b, (u.checkedBase r id).toOption = some b ↔ u.Owes r id b := by
    intro b
    rw [owes_iff]
    cases u.checkedBase r id <;> simp [Except.toOption]
  simp only [baseVerdict_failure?, Option.bind_eq_some_iff, hbase, Option.map_eq_some_iff,
    Prod.mk.injEq]
  constructor
  · rintro ⟨_, howes, _, hn, rfl, rfl, rfl⟩
    exact ⟨rfl, howes, hn⟩
  · rintro ⟨rfl, howes, hn⟩
    exact ⟨base, howes, n, hn, rfl, rfl, rfl⟩

theorem rejected?_eq_some_iff (h : u.Owes r id base) :
    policy.rejected? (u.offers r base id) (u.callCounts id) = some n ↔
      (policy = .exemptOnAnySuccess → ∀ m ∈ u.baseCalls id, ¬ u.Takes r base id m) ∧
        u.FirstUntaken r id base n := by
  obtain ⟨t, ht, -⟩ := h.derived
  have htakes : ∀ m, u.offers r base id m = true ↔ u.Takes r base id m := fun m =>
    offers_iff (isAbsent_of_type? ht)
  simp only [Policy.rejected?_eq_some_iff, callCounts_eq, ← Bool.not_eq_true, htakes, FirstUntaken]

theorem isSome_rejected?_iff (h : u.Owes r id base) :
    (policy.rejected? (u.offers r base id) (u.callCounts id)).isSome = true ↔
      (∃ n ∈ u.baseCalls id, ¬ u.Takes r base id n) ∧
        (policy = .exemptOnAnySuccess → ∀ n ∈ u.baseCalls id, ¬ u.Takes r base id n) := by
  obtain ⟨t, ht, -⟩ := h.derived
  have htakes : ∀ m, u.offers r base id m = true ↔ u.Takes r base id m := fun m =>
    offers_iff (isAbsent_of_type? ht)
  rw [Policy.isSome_rejected?, and_comm]
  simp only [callCounts_eq, ← Bool.not_eq_true, htakes, not_and, not_exists]

theorem failure?_eq_some {f : BaseFailure}
    (h : (u.baseVerdict r policy id).failure? = some f) :
    f.derived = id ∧ u.Owes r id f.base ∧
      policy.rejected? (u.offers r f.base id) (u.callCounts id) = some f.argCount := by
  have hmap := congrArg (Option.map fun f : BaseFailure => (f.derived, f.base, f.argCount)) h
  exact map_failure?_eq_some_iff.mp hmap

theorem isSome_failure? (howes : u.Owes r id base)
    (hn : policy.rejected? (u.offers r base id) (u.callCounts id) = some n) :
    (u.baseVerdict r policy id).failure?.isSome = true := by
  have hmap := map_failure?_eq_some_iff (x := (id, base, n)).mpr ⟨rfl, howes, hn⟩
  obtain ⟨f, hf, -⟩ := Option.map_eq_some_iff.mp hmap
  exact Option.isSome_of_eq_some hf

/-- A base binding fails exactly for an instance class whose direct base is one
too and does not take some call of it, under the exempting policy none of them.
The failure names the class, its base and the first call that is not taken. -/
theorem baseVerdict_failure_iff (u : CompilationUnit) (r : Resolver) (policy : Policy)
    (id : TypeId) :
    ((u.baseVerdict r policy id).failure?.isSome = true ↔
      ∃ base, u.Owes r id base ∧ (∃ n ∈ u.baseCalls id, ¬ u.Takes r base id n) ∧
        (policy = .exemptOnAnySuccess → ∀ n ∈ u.baseCalls id, ¬ u.Takes r base id n)) ∧
      ∀ f, (u.baseVerdict r policy id).failure? = some f →
        f.derived = id ∧ u.Owes r id f.base ∧ u.FirstUntaken r id f.base f.argCount := by
  refine ⟨⟨fun h => ?_, ?_⟩, fun f hf => ?_⟩
  · obtain ⟨f, hf⟩ := Option.isSome_iff_exists.mp h
    obtain ⟨-, howes, hn⟩ := failure?_eq_some hf
    exact ⟨f.base, howes, (isSome_rejected?_iff howes).mp (Option.isSome_of_eq_some hn)⟩
  · rintro ⟨base, howes, hrejects⟩
    obtain ⟨n, hn⟩ := Option.isSome_iff_exists.mp ((isSome_rejected?_iff howes).mpr hrejects)
    exact isSome_failure? howes hn
  · obtain ⟨hid, howes, hn⟩ := failure?_eq_some hf
    exact ⟨hid, howes, ((rejected?_eq_some_iff howes).mp hn).2⟩

/-- A class with constructors of every kind. Its base takes the call with two
arguments and keeps the constructor without any to itself. -/
def mixedCalls : List Step :=
  [.topClass "B", .addConstructor ⟨0⟩ { params := [⟨"p", false, false⟩, ⟨"q", false, true⟩] },
    .addConstructor ⟨0⟩ { access := .ownType }, .topClass "A", .addConstructor ⟨1⟩ .typeInitializer,
    .addConstructor ⟨1⟩ { initializer := some (.own, 7) },
    .addConstructor ⟨1⟩ { initializer := some (.base, 2) }, .addConstructor ⟨1⟩ {},
    .extending ⟨1⟩ ⟨0⟩]

theorem baseVerdict_failure_mixedCalls :
    (Draft.after "a.cs" mixedCalls).finish = .ok (Draft.after "a.cs" mixedCalls).unit ∧
      (Draft.after "a.cs" mixedCalls).unit.baseCalls ⟨1⟩ = [2, 0] ∧
      (∃ f, ((Draft.after "a.cs" mixedCalls).unit.baseVerdict
          (Draft.after "a.cs" mixedCalls).unit.resolver .reportAnyFailure ⟨1⟩).failure? = some f ∧
        (Draft.after "a.cs" mixedCalls).unit.FirstUntaken
          (Draft.after "a.cs" mixedCalls).unit.resolver ⟨1⟩ f.base f.argCount) ∧
      ¬ ∃ base, (Draft.after "a.cs" mixedCalls).unit.Owes
          (Draft.after "a.cs" mixedCalls).unit.resolver ⟨1⟩ base ∧
        ∀ n ∈ (Draft.after "a.cs" mixedCalls).unit.baseCalls ⟨1⟩,
          ¬ (Draft.after "a.cs" mixedCalls).unit.Takes
            (Draft.after "a.cs" mixedCalls).unit.resolver base ⟨1⟩ n := by
  have hcalls : (Draft.after "a.cs" mixedCalls).unit.baseCalls ⟨1⟩ = [2, 0] := rfl
  obtain ⟨-, hfailure⟩ := baseVerdict_failure_iff (Draft.after "a.cs" mixedCalls).unit
    (Draft.after "a.cs" mixedCalls).unit.resolver .reportAnyFailure ⟨1⟩
  obtain ⟨hfails, -⟩ := baseVerdict_failure_iff (Draft.after "a.cs" mixedCalls).unit
    (Draft.after "a.cs" mixedCalls).unit.resolver .exemptOnAnySuccess ⟨1⟩
  refine ⟨rfl, hcalls, ⟨_, rfl, (hfailure _ rfl).2.2⟩, ?_⟩
  rintro ⟨base, howes, huntaken⟩
  have hnone := hfails.mpr ⟨base, howes, ⟨2, by simp [hcalls], huntaken 2 (by simp [hcalls])⟩,
    fun _ => huntaken⟩
  revert hnone
  decide

end CompilationUnit

end CtorArity
