import CtorArity.Proofs.Binding

/-!
# Creations at the top level

A class keeps a call to its scope when every constructor that would take it is
open to the scope only. Inside a type such a creation is reported when the two
scopes differ. At the top level it never is, although top-level statements
belong to the scope of the unit: `reports_keptToScope` says when that is one
answer and when it is two.
-/

namespace CtorArity

namespace CompilationUnit

variable {u : CompilationUnit} {target requester owner : TypeId} {t s : TypeDecl} {n : UInt32}
  {id : CreationId}

/-- A concrete class has constructors for a call, all of them open to its scope only. -/
structure KeptToScope (u : CompilationUnit) (target : TypeId) (t : TypeDecl) (n : UInt32) :
    Prop where
  declared : u.type? target = some t
  concrete : t.isConcreteClass = true
  accepted : ∃ c ∈ u.instanceConstructorsOf target, isApplicable c.2.params n = true
  kept : ∀ c ∈ u.instanceConstructorsOf target, isApplicable c.2.params n = true →
    c.2.access = .scope

/-- The creation stands in the body of this type, or at the top level for the
absent handle. -/
def Creates (u : CompilationUnit) (id : CreationId) (owner target : TypeId) (n : UInt32) : Prop :=
  ∃ span, u.creation? id = some ⟨.declared target, n, owner, span⟩

def Reports (u : CompilationUnit) (id : CreationId) : Prop :=
  (u.creationVerdict u.resolver id).failure?.isSome = true

theorem offers_of_keptToScope (h : u.KeptToScope target t n) (r : Resolver) (requester : TypeId) :
    u.offers r target requester n = (requester.isAbsent || r.sameScope requester target) := by
  obtain ⟨c, hc, haccepts⟩ := h.accepted
  have hsome : (u.instanceConstructorsOf target).isEmpty = false :=
    List.isEmpty_eq_false_iff.mpr (List.ne_nil_of_mem hc)
  rw [offers_eq, hsome, if_neg Bool.false_ne_true, Bool.eq_iff_iff, List.any_eq_true]
  constructor
  · rintro ⟨c', hc', hboth⟩
    obtain ⟨hadmits, haccepts'⟩ := Bool.and_eq_true_iff.mp hboth
    rwa [h.kept c' hc' haccepts'] at hadmits
  · intro hscope
    refine ⟨c, hc, Bool.and_eq_true_iff.mpr ⟨?_, haccepts⟩⟩
    rwa [h.kept c hc haccepts]

theorem reports_iff (h : u.KeptToScope target t n) (hc : u.Creates id owner target n) :
    u.Reports id ↔ u.offers u.resolver target owner n = false := by
  obtain ⟨span, hc⟩ := hc
  have htarget : u.resolver.creationTarget id = some target := by
    simp [resolver, creationTarget?, hc, h.declared]
  have hfails := congrArg Option.isSome (creationVerdict_failure? u u.resolver id)
  rw [hc, Option.bind_some, htarget, Option.bind_some, h.declared, Option.bind_some, h.concrete,
    Bool.true_and, Option.isSome_map] at hfails
  rw [Reports, hfails]
  cases u.offers u.resolver target owner n <;> simp

theorem sameScope_eq (ht : u.type? target = some t) (hs : u.type? owner = some s) :
    u.sameScope owner target = (s.scope == t.scope) := by
  simp [sameScope, ht, hs]

theorem not_reports_topLevel (h : u.KeptToScope target t n)
    (hc : u.Creates id .absent target n) : ¬ u.Reports id := by
  rw [reports_iff h hc, offers_of_keptToScope h, Handle.isAbsent_absent, Bool.true_or]
  exact Bool.true_eq_false.mp

theorem reports_inside (h : u.KeptToScope target t n) (hc : u.Creates id owner target n)
    (hs : u.type? owner = some s) : u.Reports id ↔ t.scope ≠ s.scope := by
  have hscope : u.resolver.sameScope owner target = (s.scope == t.scope) :=
    sameScope_eq h.declared hs
  rw [reports_iff h hc, offers_of_keptToScope h, isAbsent_of_type? hs, Bool.false_or, hscope,
    beq_eq_false_iff_ne]
  exact ne_comm

/-- A creation at the top level is not reported, and the same one inside a type
of the unit's scope is reported when the class has another scope: the two agree
on the classes of the unit's scope and on no others. -/
theorem reports_keptToScope (h : u.KeptToScope target t n)
    (htop : u.Creates id .absent target n) :
    ¬ u.Reports id ∧
      (∀ id' owner s, u.Creates id' owner target n → u.type? owner = some s →
        s.scope = u.scope → (u.Reports id' ↔ t.scope ≠ u.scope)) ∧
      ((u.Reports id ↔ t.scope ≠ u.scope) ↔ t.scope = u.scope) := by
  have hnot := not_reports_topLevel h htop
  refine ⟨hnot, fun id' owner s hin hs hscope => ?_, ?_⟩
  · rw [← hscope]
    exact reports_inside h hin hs
  · rw [iff_false_left hnot, not_not]

def outpost : List Step :=
  [.declare { name := "A", scope := some ⟨1⟩ }, .addConstructor ⟨0⟩ { access := .scope },
    .topClass "B", .instantiating ⟨1⟩ ⟨0⟩ 0, .instantiating .absent ⟨0⟩ 0]

theorem keptToScope_outpost :
    ∃ t, (Draft.after "a.cs" outpost).unit.KeptToScope ⟨0⟩ t 0 ∧ t.scope = ⟨1⟩ := by
  refine ⟨_, ⟨rfl, rfl, ⟨_, List.mem_singleton.mpr rfl, rfl⟩, fun c hc _ => ?_⟩, rfl⟩
  obtain rfl := List.mem_singleton.mp hc
  rfl

theorem reports_outpost :
    ¬ (Draft.after "a.cs" outpost).unit.Reports ⟨1⟩ ∧
      (Draft.after "a.cs" outpost).unit.Reports ⟨0⟩ := by
  obtain ⟨t, hkept, hscope⟩ := keptToScope_outpost
  have htop : (Draft.after "a.cs" outpost).unit.Creates ⟨1⟩ .absent ⟨0⟩ 0 := ⟨_, rfl⟩
  have hin : (Draft.after "a.cs" outpost).unit.Creates ⟨0⟩ ⟨1⟩ ⟨0⟩ 0 := ⟨_, rfl⟩
  obtain ⟨hnot, hinside, -⟩ := reports_keptToScope hkept htop
  refine ⟨hnot, (hinside ⟨0⟩ ⟨1⟩ _ hin rfl rfl).mpr ?_⟩
  rw [hscope]
  decide

/-- At the top level the scope of the class is not asked for. -/
theorem not_reports_outpost : ¬ ∀ (file : String) (steps : List Step) (u : CompilationUnit),
    (Draft.after file steps).finish = .ok u →
      ∀ target t n id, u.KeptToScope target t n → u.Creates id .absent target n →
        (u.Reports id ↔ t.scope ≠ u.scope) := by
  intro hclaim
  obtain ⟨t, hkept, hscope⟩ := keptToScope_outpost
  have htop : (Draft.after "a.cs" outpost).unit.Creates ⟨1⟩ .absent ⟨0⟩ 0 := ⟨_, rfl⟩
  refine not_reports_topLevel hkept htop
    ((hclaim "a.cs" outpost _ rfl ⟨0⟩ t 0 ⟨1⟩ hkept htop).mpr ?_)
  rw [hscope]
  decide

end CompilationUnit

end CtorArity
