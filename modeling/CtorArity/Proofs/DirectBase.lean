import CtorArity.Proofs.Obligations

/-!
# Only the direct base counts

What a class says of itself is its portrait: no name, no base, nothing of what it
holds but its instance constructors, and of these nothing of where they stand. The
verdict on the base calls of a class is settled by its portrait and that of its
direct base, by which base this is, and by the types around the class
(`baseVerdict_congr`).
-/

namespace CtorArity

/-- What a constructor says, apart from whose it is and where it stands. -/
structure Signature where
  params : List Param
  access : Access
  initializer : Option (ChainTarget × UInt32)
  deriving DecidableEq, Repr

structure Portrait where
  kind : TypeKind
  modifiers : Modifiers
  scope : ScopeId
  /-- The instance constructors in declaration order. -/
  ctors : List Signature
  deriving DecidableEq, Repr

def Ctor.signature (c : Ctor) : Signature :=
  ⟨c.params, c.access, c.initializer.map fun i => (i.target, i.argCount)⟩

namespace Signature

def baseCall? (s : Signature) : Option UInt32 :=
  match s.initializer with
  | none => some 0
  | some (.base, argCount) => some argCount
  | some (.own, _) => none

theorem baseCall?_signature (c : Ctor) : c.signature.baseCall? = c.baseCall? := by
  obtain ⟨_, _, _, _, initializer, _⟩ := c
  cases initializer with
  | none => rfl
  | some init =>
    obtain ⟨target, _, _⟩ := init
    cases target <;> rfl

end Signature

namespace CompilationUnit

variable {u v : CompilationUnit} {id base : TypeId}

def signaturesOf (u : CompilationUnit) (id : TypeId) : List Signature :=
  (u.instanceConstructorsOf id).map (·.2.signature)

def portrait? (u : CompilationUnit) (id : TypeId) : Option Portrait :=
  (u.type? id).map fun t => ⟨t.kind, t.modifiers, t.scope, u.signaturesOf id⟩

def baseOf? (u : CompilationUnit) (id : TypeId) : Option BaseBinding :=
  (u.type? id).map (·.base)

/-- Two units agree on what the base calls of a type can reach. -/
structure AgreeOn (u v : CompilationUnit) (id : TypeId) : Prop where
  self : u.portrait? id = v.portrait? id
  binding : u.baseOf? id = v.baseOf? id
  direct : ∀ base, u.baseOf? id = some (.declared base) → u.portrait? base = v.portrait? base
  around : u.ancestorsAndSelf id = v.ancestorsAndSelf id

theorem AgreeOn.symm (h : u.AgreeOn v id) : v.AgreeOn u id where
  self := h.self.symm
  binding := h.binding.symm
  direct base hbase := (h.direct base (h.binding.trans hbase)).symm
  around := h.around.symm

-- ---------------------------------------------------------------------------
-- What a portrait shows
-- ---------------------------------------------------------------------------

theorem isSome_portrait? (u : CompilationUnit) (id : TypeId) :
    (u.portrait? id).isSome = (u.type? id).isSome :=
  Option.isSome_map

theorem isInstanceClass_iff_portrait? : u.IsInstanceClass id ↔
    ∃ p, u.portrait? id = some p ∧ p.kind = .classType ∧ p.modifiers.isStatic = false := by
  simp [IsInstanceClass, portrait?]

theorem signaturesOf_eq (h : u.portrait? id = v.portrait? id) (hid : (u.type? id).isSome = true) :
    u.signaturesOf id = v.signaturesOf id := by
  obtain ⟨s, hs⟩ := Option.isSome_iff_exists.mp hid
  have hsome := isSome_portrait? v id
  rw [← h, isSome_portrait?, hid] at hsome
  obtain ⟨t, ht⟩ := Option.isSome_iff_exists.mp hsome.symm
  simp only [portrait?, hs, ht, Option.map_some] at h
  exact congrArg Portrait.ctors (Option.some.inj h)

theorem sameScope_eq_portraits (u : CompilationUnit) (a b : TypeId) :
    u.sameScope a b = match u.portrait? a, u.portrait? b with
      | some p, some q => p.scope == q.scope
      | _, _ => false := by
  unfold sameScope portrait?
  cases u.type? a <;> cases u.type? b <;> rfl

theorem baseCalls_eq_signatures (u : CompilationUnit) (id : TypeId) :
    u.baseCalls id =
      if u.signaturesOf id = [] then [0] else (u.signaturesOf id).filterMap (·.baseCall?) := by
  simp only [baseCalls, signaturesOf, List.map_eq_nil_iff, List.filterMap_map, Function.comp_def,
    Signature.baseCall?_signature]

theorem offers_eq_signatures (u : CompilationUnit) (r : Resolver) (target requester : TypeId)
    (n : UInt32) : u.offers r target requester n =
      if u.signaturesOf target = [] then n == 0
      else (u.signaturesOf target).any fun s =>
        s.access.admits r target requester && isApplicable s.params n := by
  simp only [offers_eq, signaturesOf, List.isEmpty_iff, List.map_eq_nil_iff, List.any_map,
    Function.comp_def]
  rfl

-- ---------------------------------------------------------------------------
-- Units that agree
-- ---------------------------------------------------------------------------

theorem directBase_eq_declared_iff : u.directBase id = .declared base ↔
    u.baseOf? id = some (.declared base) ∧ (u.type? base).isSome = true := by
  unfold directBase baseOf?
  cases u.type? id with
  | none => simp
  | some t =>
    simp only [Option.map_some, Option.some.injEq]
    cases t.base with
    | noBase | external => simp
    | declared other =>
      cases hother : (u.type? other).isSome
      · simp only [hother, BaseBinding.declared.injEq, Bool.false_eq_true, if_false, reduceCtorEq,
          false_iff]
        rintro ⟨rfl, hsome⟩
        cases hother.symm.trans hsome
      · simp only [hother, BaseBinding.declared.injEq, if_true]
        refine ⟨?_, And.left⟩
        rintro rfl
        exact ⟨rfl, hother⟩

theorem Owes.baseOf? (h : u.Owes u.resolver id base) : u.baseOf? id = some (.declared base) :=
  (directBase_eq_declared_iff.mp h.direct).1

theorem AgreeOn.owes (h : u.AgreeOn v id) (howes : u.Owes u.resolver id base) :
    v.Owes v.resolver id base := by
  have hbase := howes.baseOf?
  have hclass : v.IsInstanceClass base := by
    rw [isInstanceClass_iff_portrait?, ← h.direct base hbase, ← isInstanceClass_iff_portrait?]
    exact howes.base
  have ⟨b, hb, _⟩ := hclass
  refine ⟨?_, directBase_eq_declared_iff.mpr ⟨h.binding ▸ hbase, by simp [hb]⟩, hclass⟩
  rw [isInstanceClass_iff_portrait?, ← h.self, ← isInstanceClass_iff_portrait?]
  exact howes.derived

theorem AgreeOn.admits (h : u.AgreeOn v id) (hbase : u.baseOf? id = some (.declared base))
    (access : Access) :
    access.admits u.resolver base id = access.admits v.resolver base id := by
  have hscope : u.sameScope id base = v.sameScope id base := by
    rw [sameScope_eq_portraits, sameScope_eq_portraits, h.self, h.direct base hbase]
  have hnested : u.nestedWithin id base = v.nestedWithin id base := by
    rw [nestedWithin, nestedWithin, h.around]
  cases access <;> simp [Access.admits, resolver, hscope, hnested]

theorem AgreeOn.offers (h : u.AgreeOn v id) (howes : u.Owes u.resolver id base) :
    u.offers u.resolver base id = v.offers v.resolver base id := by
  have hbase := howes.baseOf?
  obtain ⟨b, hb, -⟩ := howes.base
  have hsignatures := signaturesOf_eq (h.direct base hbase) (by simp [hb])
  funext n
  simp only [offers_eq_signatures, hsignatures, h.admits hbase]

theorem AgreeOn.callCounts (h : u.AgreeOn v id) (howes : u.Owes u.resolver id base) :
    u.callCounts id = v.callCounts id := by
  obtain ⟨t, ht, -⟩ := howes.derived
  rw [callCounts_eq, callCounts_eq, baseCalls_eq_signatures, baseCalls_eq_signatures,
    signaturesOf_eq h.self (by simp [ht])]

theorem AgreeOn.failure?_of_eq_some (h : u.AgreeOn v id) {policy : Policy}
    {x : TypeId × TypeId × UInt32}
    (hx : (u.baseVerdict u.resolver policy id).failure?.map
      (fun f => (f.derived, f.base, f.argCount)) = some x) :
    (v.baseVerdict v.resolver policy id).failure?.map
      (fun f => (f.derived, f.base, f.argCount)) = some x := by
  obtain ⟨hid, howes, hrejected⟩ := map_failure?_eq_some_iff.mp hx
  refine map_failure?_eq_some_iff.mpr ⟨hid, h.owes howes, ?_⟩
  rwa [← h.offers howes, ← h.callCounts howes]

/-- Units that agree on a type, on its direct base and on the types around it
blame it alike, whatever else they declare and wherever anything stands. -/
theorem baseVerdict_congr (h : u.AgreeOn v id) (policy : Policy) :
    (u.baseVerdict u.resolver policy id).failure?.map (fun f => (f.derived, f.base, f.argCount)) =
      (v.baseVerdict v.resolver policy id).failure?.map
        (fun f => (f.derived, f.base, f.argCount)) := by
  apply Option.ext
  intro x
  exact ⟨h.failure?_of_eq_some, h.symm.failure?_of_eq_some⟩

/-- A class inside its base, of which one base call binds to a private constructor
and one does not bind. -/
def lone : List Step :=
  [.topClass "B", .addConstructor ⟨0⟩ { params := [⟨"p", false, false⟩], access := .ownType },
    .nestedClass ⟨0⟩ "T", .extending ⟨1⟩ ⟨0⟩, .addConstructor ⟨1⟩ { initializer := some (.base, 1) },
    .addConstructor ⟨1⟩ {}]

/-- The same two classes under other names, with static constructors, creations and
other types between them, and with a base of the base that takes every call. -/
def amidOthers : List Step :=
  [.topClass "Base", .instantiating .absent ⟨0⟩ 9, .nestedClass ⟨0⟩ "Derived", .topClass "Root",
    .addConstructor ⟨2⟩ { params := [⟨"rest", false, true⟩] }, .extending ⟨0⟩ ⟨2⟩,
    .addConstructor ⟨1⟩ { initializer := some (.base, 1) }, .addConstructor ⟨1⟩ .typeInitializer,
    .addConstructor ⟨0⟩ { params := [⟨"p", false, false⟩], access := .ownType },
    .addConstructor ⟨1⟩ {}, .nestedClass ⟨1⟩ "Within", .extending ⟨3⟩ ⟨1⟩, .extending ⟨1⟩ ⟨0⟩]

theorem agreeOn_lone_amidOthers :
    (Draft.after "a.cs" lone).unit.AgreeOn (Draft.after "b.cs" amidOthers).unit ⟨1⟩ where
  self := by decide +kernel
  binding := by decide +kernel
  direct base hbase := by
    obtain rfl : (⟨0⟩ : TypeId) = base := BaseBinding.declared.inj (Option.some.inj hbase)
    decide +kernel
  around := by decide +kernel

theorem baseVerdict_congr_amidOthers :
    (Draft.after "b.cs" amidOthers).finish = .ok (Draft.after "b.cs" amidOthers).unit ∧
      (Draft.after "a.cs" lone).finish = .ok (Draft.after "a.cs" lone).unit ∧
      (Draft.after "a.cs" lone).unit.AgreeOn (Draft.after "b.cs" amidOthers).unit ⟨1⟩ ∧
      ((Draft.after "b.cs" amidOthers).unit.baseVerdict
          (Draft.after "b.cs" amidOthers).unit.resolver .reportAnyFailure ⟨1⟩).failure?.map
        (fun f => (f.derived, f.base, f.argCount)) = some (⟨1⟩, ⟨0⟩, 0) ∧
      ((Draft.after "b.cs" amidOthers).unit.baseVerdict
          (Draft.after "b.cs" amidOthers).unit.resolver .exemptOnAnySuccess ⟨1⟩).failure?.map
        (fun f => (f.derived, f.base, f.argCount)) = none :=
  ⟨rfl, rfl, agreeOn_lone_amidOthers,
    (baseVerdict_congr agreeOn_lone_amidOthers .reportAnyFailure).symm.trans (by decide +kernel),
    (baseVerdict_congr agreeOn_lone_amidOthers .exemptOnAnySuccess).symm.trans (by decide +kernel)⟩

end CompilationUnit

end CtorArity
