import CtorArity.Proofs.Lowering
import CtorArity.Proofs.Report
import Mathlib.Data.List.Forall2

/-!
# A lowered dump is checked by its tree

What the check asks of a lowered unit is answered by the tree of the dump: the
handle of a place leads to its type (`type?_id`), its constructors, its scope
and the types around it, and a name to the first place of that name. So along
the walk of the unit the findings are those of the tree (`findings_walked`).
-/

namespace CtorArity

open TypeDump CompilationUnit

/-- A unit with the tables of a dump, linked and laid out types first. -/
structure Lowered (d : UnitDump) (u : CompilationUnit) : Prop where
  outline : u.outline = d.outline
  linked : u.Linked
  addressable : u.Addressable
  starts : ∀ t ∈ u.types, ∀ c ∈ u.creations, t.span.start ≤ c.span.start

theorem UnitDump.lowered {d : UnitDump} {u : CompilationUnit} (h : d.lower = .ok u)
    (hu : u.Addressable) : Lowered d u where
  outline := outline_lower h (Nat.le_of_lt hu.types)
  linked := linked_of_finish d.file d.steps h
  addressable := hu
  starts := starts_lower h

theorem flatMap_eq_of_key {f : α → List β} {key : α → Nat} {a : α} {l : List α}
    (hnodup : (l.map key).Nodup) (ha : a ∈ l) (h : ∀ b ∈ l, key b ≠ key a → f b = []) :
    l.flatMap f = f a := by
  induction l with
  | nil => cases ha
  | cons b rest ih =>
    obtain ⟨hkey, hrest⟩ := List.nodup_cons.mp hnodup
    rw [List.flatMap_cons]
    rcases List.mem_cons.mp ha with rfl | ha
    · have hnil : rest.flatMap f = [] := List.flatMap_eq_nil_iff.mpr fun c hc =>
        h c (List.mem_cons_of_mem a hc) fun he => hkey (he ▸ List.mem_map_of_mem hc)
      rw [hnil, List.append_nil]
    · have hne : key b ≠ key a := fun he => hkey (he ▸ List.mem_map_of_mem ha)
      rw [h b List.mem_cons_self hne, List.nil_append]
      exact ih hrest ha fun c hc => h c (List.mem_cons_of_mem b hc)

def requesterId (requester : Option Place) : TypeId := requester.elim .absent (·.id)

def UnitDump.creationsIn (d : UnitDump) (owner : Option Place) : List CreationDump :=
  owner.elim d.creations (·.type.creations)

namespace Lowered

variable {d : UnitDump} {u : CompilationUnit} {p q : Place} {requester : Option Place}

theorem forall_mem_some (hp : p ∈ d.places) : ∀ q ∈ some p, q ∈ d.places := by
  rintro _ ⟨⟩
  exact hp

theorem forall_mem_none : ∀ q ∈ (none : Option Place), q ∈ d.places := by
  rintro _ ⟨⟩

-- ---------------------------------------------------------------------------
-- Places and their handles
-- ---------------------------------------------------------------------------

theorem number_of_getElem? {i : Nat} (hi : d.places[i]? = some p) : p.number = i := by
  have hnumber : (d.places.map (·.number))[i]? = some p.number := by
    rw [List.getElem?_map, hi]
    rfl
  have hlt : i < countAll d.types := by
    have hlt := (List.getElem?_eq_some_iff.mp hi).1
    rwa [UnitDump.length_places] at hlt
  rw [UnitDump.places, map_number_placesAll, List.getElem?_range' hlt] at hnumber
  simpa using hnumber.symm

theorem getElem?_places (hp : p ∈ d.places) : d.places[p.number]? = some p := by
  obtain ⟨i, hi⟩ := List.mem_iff_getElem?.mp hp
  rwa [number_of_getElem? hi]

theorem countAll_types (h : Lowered d u) : countAll d.types = u.types.size := by
  rw [← length_outline_types, h.outline, ← d.length_places]
  exact (List.length_map _).symm

theorem number_lt (h : Lowered d u) (hp : p ∈ d.places) : p.number < 0xFFFFFFFF := by
  have hlt := (number_placesAll hp).2
  rw [h.countAll_types, Nat.zero_add] at hlt
  exact Nat.lt_trans hlt h.addressable.types

theorem index_id (h : Lowered d u) (hp : p ∈ d.places) : p.id.index = p.number :=
  Handle.index_ofIndex (Nat.le_of_lt (h.number_lt hp))

theorem isAbsent_id (h : Lowered d u) (hp : p ∈ d.places) : p.id.isAbsent = false :=
  Handle.isAbsent_ofIndex (h.number_lt hp)

theorem id_eq_iff (h : Lowered d u) (hp : p ∈ d.places) (hq : q ∈ d.places) :
    p.id = q.id ↔ p.number = q.number :=
  Handle.ofIndex_inj (Nat.le_of_lt (h.number_lt hp)) (Nat.le_of_lt (h.number_lt hq))

theorem type?_id (h : Lowered d u) (hp : p ∈ d.places) :
    ∃ t, u.type? p.id = some t ∧ t.bare = d.declOf p := by
  have hget : u.outline.types[p.number]? = some (d.declOf p) := by
    rw [h.outline, UnitDump.outline, List.getElem?_map, getElem?_places hp]
    rfl
  rw [CompilationUnit.outline, List.getElem?_map, Option.map_eq_some_iff] at hget
  obtain ⟨t, ht, hbare⟩ := hget
  refine ⟨t, ?_, hbare⟩
  rw [type?_eq_getElem? (Nat.le_of_lt h.addressable.types), h.index_id hp]
  simpa using ht

theorem findIdx?_places (d : UnitDump) (test : Place → Bool) :
    d.places.findIdx? test = (d.places.find? test).map (·.number) := by
  cases hfind : d.places.find? test with
  | none => simpa [List.findIdx?_eq_none_iff] using hfind
  | some p =>
    obtain ⟨htest, i, hi, hip, hbefore⟩ := List.find?_eq_some_iff_getElem.mp hfind
    have hnumber := number_of_getElem? (List.getElem?_eq_some_iff.mpr ⟨hi, hip⟩)
    refine List.findIdx?_eq_some_iff_getElem.mpr ?_
    simp only [hnumber, hip, htest, hi, true_and, exists_true_left]
    exact fun j hj => by simpa using hbefore j hj

theorem declared?_eq (d : UnitDump) (name : String) :
    declared? d.allTypes name = (d.find? name).map (·.id) := by
  rw [declared?, ← d.map_type_places, List.findIdx?_map, findIdx?_places, UnitDump.find?,
    Option.map_map]
  rfl

theorem mem_of_find? {name : String} (h : d.find? name = some p) : p ∈ d.places :=
  List.mem_of_find?_eq_some h

-- ---------------------------------------------------------------------------
-- Types and constructors
-- ---------------------------------------------------------------------------

theorem isInstanceClass_eq {t : TypeDecl} (h : t.bare = d.declOf p) :
    t.isInstanceClass = p.type.isInstanceClass :=
  congrArg TypeDecl.isInstanceClass h

theorem isConcreteClass_eq {t : TypeDecl} (h : t.bare = d.declOf p) :
    t.isConcreteClass = p.type.isConcreteClass :=
  congrArg TypeDecl.isConcreteClass h

theorem typeName_id (h : Lowered d u) (hp : p ∈ d.places) : u.typeName p.id = p.type.name := by
  obtain ⟨t, ht, hbare⟩ := h.type?_id hp
  have hname : t.name = p.type.name := congrArg TypeDecl.name hbare
  simp [typeName, ht, hname]

theorem message_declaredHere?_id (h : Lowered d u) (hp : p ∈ d.places) :
    (u.declaredHere? p.id).map (·.message) =
      some (Template.declaredHere.fill [p.type.name]) := by
  obtain ⟨t, ht, hbare⟩ := h.type?_id hp
  have hname : t.name = p.type.name := congrArg TypeDecl.name hbare
  simp [declaredHere?, ht, hname]

theorem filter_ctors (h : Lowered d u) (hp : p ∈ d.places) :
    d.outline.ctors.filter (·.owner == p.id) = p.ctors := by
  have howner : ∀ q : Place, ∀ c ∈ q.ctors, c.owner = q.id := by
    intro q c hc
    obtain ⟨_, -, rfl⟩ := List.mem_map.mp hc
    rfl
  have hnodup : (d.places.map (·.number)).Nodup := by
    rw [UnitDump.places, map_number_placesAll]
    exact List.nodup_range'
  rw [UnitDump.outline, List.filter_flatMap, flatMap_eq_of_key hnodup hp]
  · exact List.filter_eq_self.mpr fun c hc => beq_iff_eq.mpr (howner p c hc)
  · intro q hq hne
    refine List.filter_eq_nil_iff.mpr fun c hc he => hne ?_
    rw [beq_iff_eq, howner q c hc] at he
    exact (h.id_eq_iff hq hp).mp he

theorem ownCtors_id (h : Lowered d u) (hp : p ∈ d.places) :
    u.ownCtors p.id = p.type.instanceCtors.map fun c => c.toSpec.bare p.id := by
  obtain ⟨t, ht, -⟩ := h.type?_id hp
  have hstatic : ∀ c : CtorDump, (c.toSpec.bare p.id).isStatic = c.isStatic := by
    intro c
    cases hc : c.isStatic <;> simp [CtorDump.toSpec, CtorSpec.bare, CtorSpec.typeInitializer, hc]
  rw [ownCtors_eq h.linked h.addressable (Option.isSome_iff_exists.mpr ⟨t, ht⟩), h.outline,
    h.filter_ctors hp, Place.ctors, instanceCtors, List.filter_map]
  simp only [Function.comp_def, hstatic]

theorem baseArgs?_bare (owner : TypeId) (c : CtorDump) :
    (c.toSpec.bare owner).baseArgs? = c.baseArgs? := by
  obtain ⟨access, isStatic, params, initializer⟩ := c
  cases initializer with
  | none => rfl
  | some init =>
    obtain ⟨target, args⟩ := init
    cases target <;> rfl

theorem callCounts_id (h : Lowered d u) (hp : p ∈ d.places) :
    u.callCounts p.id = p.type.callCounts := by
  rw [CompilationUnit.callCounts, h.ownCtors_id hp, TypeDump.callCounts]
  cases p.type.instanceCtors with
  | nil => rfl
  | cons c rest =>
    exact List.filterMap_map.trans (List.filterMap_congr fun c _ => baseArgs?_bare p.id c)

-- ---------------------------------------------------------------------------
-- Scopes and nesting
-- ---------------------------------------------------------------------------

theorem sameScope_id (h : Lowered d u) (hp : p ∈ d.places) (hq : q ∈ d.places) :
    u.sameScope q.id p.id = (d.scopeOf q == d.scopeOf p) := by
  have hscope : ∀ r : Place, (d.declOf r).scope = ⟨d.scopeOf r⟩ := by
    intro r
    cases hr : r.type.scope <;>
      simp [UnitDump.declOf, UnitDump.scopeOf, TypeSpec.bare, toSpec, UnitDump.ownScope, hr]
  obtain ⟨s, hs, hsbare⟩ := h.type?_id hq
  obtain ⟨t, ht, htbare⟩ := h.type?_id hp
  have hss : s.scope = ⟨d.scopeOf q⟩ := (congrArg TypeDecl.scope hsbare).trans (hscope q)
  have hts : t.scope = ⟨d.scopeOf p⟩ := (congrArg TypeDecl.scope htbare).trans (hscope p)
  simp only [sameScope, hs, ht, hss, hts]
  rw [Bool.eq_iff_iff, beq_iff_eq, beq_iff_eq, Handle.mk.injEq]

theorem ancestorsWithin_id (h : Lowered d u) (hp : p ∈ d.places) {steps : Nat}
    (hsteps : p.number + 2 ≤ steps) :
    u.ancestorsWithin steps p.id = p.id :: p.around.map .ofIndex := by
  induction steps generalizing p with
  | zero => cases hsteps
  | succ steps ih =>
    obtain ⟨t, ht, hbare⟩ := h.type?_id hp
    have hparent : t.parent = p.parent := congrArg TypeDecl.parent hbare
    rw [ancestorsWithin, h.isAbsent_id hp]
    simp only [Bool.false_eq_true, if_false, ht, hparent, Place.parent]
    rcases around_placesAll hp with haround | ⟨q, hq, haround, hlt⟩
    · obtain ⟨k, rfl⟩ : ∃ k, steps = k + 1 := ⟨steps - 1, by omega⟩
      simp [haround, ancestorsWithin]
    · simp only [haround, List.head?_cons, Option.elim_some, List.map_cons]
      exact congrArg (p.id :: ·) (ih hq (by omega))

theorem lt_of_mem_around (hp : p ∈ d.places) : ∀ k ∈ p.around, k < p.number := by
  induction hn : p.number using Nat.strongRecOn generalizing p with
  | _ n ih =>
    subst hn
    intro k hk
    rcases around_placesAll hp with haround | ⟨q, hq, haround, hlt⟩
    · rw [haround] at hk
      cases hk
    · rw [haround] at hk
      rcases List.mem_cons.mp hk with rfl | hk
      · exact hlt
      · exact Nat.lt_trans (ih q.number hlt hq rfl k hk) hlt

theorem nestedWithin_id (h : Lowered d u) (hp : p ∈ d.places) (hq : q ∈ d.places) :
    u.nestedWithin q.id p.id = q.within p := by
  have hlt := (number_placesAll hq).2
  rw [h.countAll_types, Nat.zero_add] at hlt
  have hids : q.id :: q.around.map .ofIndex = (q.number :: q.around).map .ofIndex := rfl
  rw [nestedWithin, h.isAbsent_id hp, ancestorsAndSelf, h.ancestorsWithin_id hq (by omega), hids,
    Place.within, Bool.not_false, Bool.true_and, Bool.eq_iff_iff, List.contains_iff_mem,
    List.contains_iff_mem, List.mem_map]
  constructor
  · rintro ⟨k, hk, hkp⟩
    have hkle : k ≤ q.number := by
      rcases List.mem_cons.mp hk with rfl | hk
      · exact Nat.le_refl _
      · exact Nat.le_of_lt (lt_of_mem_around hq k hk)
    have hkq := h.number_lt hq
    have hpn := h.number_lt hp
    obtain rfl := (Handle.ofIndex_inj (by omega) (by omega)).mp hkp
    exact hk
  · exact fun hmem => ⟨p.number, hmem, rfl⟩

theorem admits_id (h : Lowered d u) (hp : p ∈ d.places) (hr : ∀ q ∈ requester, q ∈ d.places)
    (access : Access) :
    access.admits u.resolver p.id (requesterId requester) = d.sees p requester access := by
  cases requester with
  | none => cases access <;> simp [Access.admits, UnitDump.sees, requesterId]
  | some q =>
    have hq := hr q rfl
    have habsent := h.isAbsent_id hq
    cases access <;>
      simp [Access.admits, UnitDump.sees, requesterId, resolver, habsent, h.sameScope_id hp hq,
        h.nestedWithin_id hp hq]

theorem offers_id (h : Lowered d u) (hp : p ∈ d.places) (hr : ∀ q ∈ requester, q ∈ d.places)
    (n : UInt32) :
    u.offers u.resolver p.id (requesterId requester) n = d.offers p requester n := by
  have hctor : ∀ c ∈ p.type.instanceCtors,
      ((c.toSpec.bare p.id).access.admits u.resolver p.id (requesterId requester) &&
        isApplicable (c.toSpec.bare p.id).params n) =
      (d.sees p requester c.access && c.accepts n) := by
    intro c hc
    have hstatic : c.isStatic = false := by
      simpa using (List.mem_filter.mp hc).2
    have haccess : (c.toSpec.bare p.id).access = c.access := by
      simp [CtorDump.toSpec, CtorSpec.bare, hstatic]
    rw [haccess, h.admits_id hp hr]
    rfl
  rw [CompilationUnit.offers, h.ownCtors_id hp, UnitDump.offers]
  cases hctors : p.type.instanceCtors with
  | nil => rfl
  | cons c rest =>
    rw [hctors] at hctor
    refine List.any_map.trans ?_
    rw [Bool.eq_iff_iff, List.any_eq_true, List.any_eq_true]
    refine exists_congr fun c => and_congr_right fun hc => ?_
    rw [← hctor c hc]
    rfl

-- ---------------------------------------------------------------------------
-- Failures
-- ---------------------------------------------------------------------------

theorem directBase_id (h : Lowered d u) (hp : p ∈ d.places) :
    (u.directBase p.id).declared? = (d.baseOf? p).map (·.id) := by
  obtain ⟨t, ht, hbare⟩ := h.type?_id hp
  have hbase : t.base = p.type.base.elim .noBase (bindBase d.allTypes) :=
    congrArg TypeDecl.base hbare
  cases hname : p.type.base with
  | none => simp [directBase, ht, hbase, hname, UnitDump.baseOf?, BaseBinding.declared?]
  | some name =>
    simp only [directBase, ht, hbase, hname, Option.elim_some, bindBase, declared?_eq,
      UnitDump.baseOf?, Option.bind_some]
    cases rootNames.contains name with
    | true => rfl
    | false =>
      cases hfind : d.find? name with
      | none => rfl
      | some base =>
        obtain ⟨b, hb, -⟩ := h.type?_id (mem_of_find? hfind)
        simp [hb, BaseBinding.declared?]

theorem mem_of_baseOf? (hbase : d.baseOf? p = some q) : q ∈ d.places := by
  obtain ⟨name, -, hname⟩ := Option.bind_eq_some_iff.mp hbase
  split at hname
  · cases hname
  · exact mem_of_find? hname

theorem checkedBase_id (h : Lowered d u) (hp : p ∈ d.places) :
    (u.checkedBase u.resolver p.id).toOption = (d.baseOf? p).bind fun base =>
      if p.type.isInstanceClass && base.type.isInstanceClass then some base.id else none := by
  obtain ⟨t, ht, hbare⟩ := h.type?_id hp
  have hdirect : (u.resolver.directBase p.id).declared? = (d.baseOf? p).map (·.id) :=
    h.directBase_id hp
  have hiff : ∀ target, u.checkedBase u.resolver p.id = .ok target ↔
      ((d.baseOf? p).bind fun base =>
        if p.type.isInstanceClass && base.type.isInstanceClass then some base.id else none) =
          some target := by
    intro target
    rw [checkedBase_eq_ok, hdirect, Option.map_eq_some_iff, Option.bind_eq_some_iff]
    constructor
    · rintro ⟨⟨t', ht', hclass⟩, ⟨base, hbase, rfl⟩, b, hb, hbclass⟩
      obtain ⟨b', hb', hbbare⟩ := h.type?_id (mem_of_baseOf? hbase)
      obtain rfl := Option.some.inj (ht'.symm.trans ht)
      obtain rfl := Option.some.inj (hb'.symm.trans hb)
      rw [isInstanceClass_eq hbare] at hclass
      rw [isInstanceClass_eq hbbare] at hbclass
      exact ⟨base, hbase, by simp [hclass, hbclass]⟩
    · rintro ⟨base, hbase, hite⟩
      obtain ⟨b, hb, hbbare⟩ := h.type?_id (mem_of_baseOf? hbase)
      rw [Option.ite_none_right_eq_some, Bool.and_eq_true, Option.some.injEq] at hite
      obtain ⟨⟨hclass, hbclass⟩, rfl⟩ := hite
      exact ⟨⟨t, ht, (isInstanceClass_eq hbare).trans hclass⟩, ⟨base, hbase, rfl⟩, b, hb,
        (isInstanceClass_eq hbbare).trans hbclass⟩
  cases hc : u.checkedBase u.resolver p.id with
  | ok target => exact ((hiff target).mp hc).symm
  | error why =>
    refine (Option.eq_none_iff_forall_ne_some.mpr fun target htarget => ?_).symm
    rw [(hiff target).mpr htarget] at hc
    cases hc

theorem baseVerdict_id (h : Lowered d u) (hp : p ∈ d.places) (policy : Policy) :
    (u.baseVerdict u.resolver policy p.id).failure?.map
        (fun f => (f.derived, f.base, f.argCount)) =
      (d.baseFailure? policy p).map fun (base, n) => (p.id, base.id, n) := by
  rw [baseVerdict_failure?, h.checkedBase_id hp, UnitDump.baseFailure?]
  cases hbase : d.baseOf? p with
  | none => rfl
  | some base =>
    have hoffers : u.offers u.resolver base.id p.id = d.offers base (some p) :=
      funext fun n => h.offers_id (mem_of_baseOf? hbase) (forall_mem_some hp) n
    simp only [Option.bind_some]
    split
    · simp only [Option.bind_some, hoffers, h.callCounts_id hp, Option.map_map]
      rfl
    · rfl

theorem creationTarget?_eq (h : Lowered d u) {id : CreationId} {c : Creation} {owner : TypeId}
    {dump : CreationDump} (hc : u.creation? id = some c)
    (hbare : c.bare = d.creationOf owner dump) :
    u.creationTarget? id = (d.find? dump.target).map (·.id) := by
  have htarget : c.target = bindTarget d.allTypes dump.target :=
    congrArg Creation.target hbare
  simp only [creationTarget?, hc, htarget, bindTarget, declared?_eq]
  cases hfind : d.find? dump.target with
  | none => rfl
  | some target =>
    obtain ⟨t, ht, -⟩ := h.type?_id (mem_of_find? hfind)
    simp [ht]

theorem creationVerdict_eq (h : Lowered d u) {id : CreationId} {c : Creation}
    {dump : CreationDump} (hr : ∀ q ∈ requester, q ∈ d.places) (hc : u.creation? id = some c)
    (hbare : c.bare = d.creationOf (requesterId requester) dump) :
    (u.creationVerdict u.resolver id).failure?.map
        (fun f => (f.creation, f.target, f.argCount)) =
      (d.creationFailure? requester dump).map fun (target, n) => (id, target.id, n) := by
  have hargs : c.argCount = dump.args := congrArg Creation.argCount hbare
  have howner : c.enclosing = requesterId requester := congrArg Creation.enclosing hbare
  have htarget : u.resolver.creationTarget id = (d.find? dump.target).map (·.id) :=
    h.creationTarget?_eq hc hbare
  rw [creationVerdict_failure?, hc, htarget, UnitDump.creationFailure?]
  cases hfind : d.find? dump.target with
  | none => rfl
  | some target =>
    have hmem := mem_of_find? hfind
    obtain ⟨t, ht, htbare⟩ := h.type?_id hmem
    simp only [Option.bind_some, Option.map_some, ht, isConcreteClass_eq htbare, howner, hargs,
      h.offers_id hmem hr]
    split <;> rfl

theorem mem_of_baseFailure? {n : UInt32} {policy : Policy}
    (hfail : d.baseFailure? policy p = some (q, n)) : q ∈ d.places := by
  obtain ⟨base, hbase, hite⟩ := Option.bind_eq_some_iff.mp hfail
  rw [Option.ite_none_right_eq_some, Option.map_eq_some_iff] at hite
  obtain ⟨-, _, -, ⟨⟩⟩ := hite
  exact mem_of_baseOf? hbase

theorem mem_of_creationFailure? {n : UInt32} {dump : CreationDump}
    (hfail : d.creationFailure? requester dump = some (q, n)) : q ∈ d.places := by
  obtain ⟨target, htarget, hite⟩ := Option.bind_eq_some_iff.mp hfail
  rw [Option.ite_none_right_eq_some] at hite
  obtain ⟨-, ⟨⟩⟩ := hite
  exact mem_of_find? htarget

end Lowered

/-- An issue without its place in the source. -/
def Issue.finding (i : Issue) : Finding :=
  ⟨i.origin, i.subject.index, i.message, i.related.map (·.message)⟩

namespace Lowered

variable {d : UnitDump} {u : CompilationUnit} {p q : Place} {requester : Option Place}

theorem finding?_type (h : Lowered d u) (hp : p ∈ d.places) (o : Options) :
    (u.finding? u.resolver o (.type p.id)).map Issue.finding = d.baseFinding? o p := by
  have hissue : ∀ base ∈ d.places, ∀ n, (u.baseIssue p.id base.id n).finding =
      .blaming base n .baseBinding p.number := by
    intro base hbase n
    simp only [Issue.finding, baseIssue, Finding.blaming, h.index_id hp, h.typeName_id hbase,
      h.message_declaredHere?_id hbase]
  have hverdict := congrArg (Option.map fun x : TypeId × TypeId × UInt32 =>
    (u.baseIssue x.1 x.2.1 x.2.2).finding) (h.baseVerdict_id hp o.policy)
  rw [Option.map_map, Option.map_map] at hverdict
  rw [finding?, UnitDump.baseFinding?, Option.map_map]
  refine hverdict.trans ?_
  cases hfail : d.baseFailure? o.policy p with
  | none => rfl
  | some failure => exact congrArg some (hissue _ (mem_of_baseFailure? hfail) _)

theorem finding?_creation (h : Lowered d u) {id : CreationId} {c : Creation}
    {dump : CreationDump} (hr : ∀ q ∈ requester, q ∈ d.places) (hc : u.creation? id = some c)
    (hbare : c.bare = d.creationOf (requesterId requester) dump) (o : Options) :
    (u.finding? u.resolver o (.creation id)).map Issue.finding =
      d.creationFinding? o requester dump := by
  have hissue : ∀ target ∈ d.places, ∀ n, (u.creationIssue id target.id n).finding =
      .blaming target n .instantiation target.number := by
    intro target htarget n
    simp only [Issue.finding, creationIssue, Finding.blaming, h.index_id htarget,
      h.typeName_id htarget, h.message_declaredHere?_id htarget]
  rw [finding?, UnitDump.creationFinding?]
  split
  · have hverdict := congrArg (Option.map fun x : CreationId × TypeId × UInt32 =>
      (u.creationIssue x.1 x.2.1 x.2.2).finding) (h.creationVerdict_eq hr hc hbare)
    rw [Option.map_map, Option.map_map] at hverdict
    rw [Option.map_map]
    refine hverdict.trans ?_
    cases hfail : d.creationFailure? requester dump with
    | none => rfl
    | some failure => exact congrArg some (hissue _ (mem_of_creationFailure? hfail) _)
  · rfl

-- ---------------------------------------------------------------------------
-- Bodies
-- ---------------------------------------------------------------------------

theorem startsBefore_eq_false (h : Lowered d u) {t : TypeId} {c : CreationId}
    (ht : (u.type? t).isSome) (hc : (u.creation? c).isSome) : u.startsBefore t c = false := by
  obtain ⟨s, hs⟩ := Option.isSome_iff_exists.mp ht
  obtain ⟨r, hr⟩ := Option.isSome_iff_exists.mp hc
  have hle := h.starts s (Array.mem_of_getElem? (getElem?_of_type? hs)) r
    (Array.mem_of_getElem? (getElem?_of_creation? hr))
  simpa [startsBefore, startOf, hs, hr] using hle

theorem mergeByStart_eq (h : Lowered d u) {types : List TypeId} {creations : List CreationId}
    (ht : ∀ t ∈ types, (u.type? t).isSome) (hc : ∀ c ∈ creations, (u.creation? c).isSome) :
    u.mergeByStart types creations = types.map .type ++ creations.map .creation :=
  CompilationUnit.mergeByStart_eq fun t hmem c hmem' =>
    h.startsBefore_eq_false (ht t hmem) (hc c hmem')

theorem handlesWhere_places (test : Place → Bool) :
    (handlesWhere test d.places : List TypeId) = (d.places.filter test).map (·.id) := by
  have hid : ∀ entry ∈ d.places.zipIdx, (Handle.ofIndex entry.2 : TypeId) = entry.1.id := by
    intro entry hentry
    rw [← number_of_getElem? (List.mem_zipIdx_iff_getElem?.mp hentry)]
    rfl
  rw [handlesWhere]
  calc _ = (d.places.zipIdx.filter (test ∘ Prod.fst)).map ((·.id) ∘ Prod.fst) :=
        List.map_congr_left fun entry hentry => hid entry (List.mem_filter.mp hentry).1
    _ = ((d.places.zipIdx.filter (test ∘ Prod.fst)).map Prod.fst).map (·.id) := List.map_map.symm
    _ = (d.places.filter test).map (·.id) := by rw [← List.filter_map, List.zipIdx_map_fst]

theorem parent_eq_iff (h : Lowered d u) (hr : ∀ q ∈ requester, q ∈ d.places)
    (hp : p ∈ d.places) :
    p.parent = requesterId requester ↔ p.around.head? = requester.map (·.number) := by
  have hlt := lt_of_mem_around hp
  have hpn := h.number_lt hp
  cases haround : p.around with
  | nil =>
    cases requester with
    | none => simp [Place.parent, requesterId, haround]
    | some q =>
      have hne := (Handle.ne_absent (h.isAbsent_id (hr q rfl))).symm
      simp [Place.parent, requesterId, haround, hne]
  | cons k rest =>
    have hk : k < p.number := hlt k (haround ▸ List.mem_cons_self)
    cases requester with
    | none =>
      have hne : Handle.ofIndex k ≠ (Handle.absent : TypeId) :=
        Handle.ne_absent (Handle.isAbsent_ofIndex (by omega))
      simp [Place.parent, requesterId, haround, hne]
    | some q =>
      have hqn := h.number_lt (hr q rfl)
      have hinj : (Handle.ofIndex k : TypeId) = .ofIndex q.number ↔ k = q.number :=
        Handle.ofIndex_inj (by omega) (by omega)
      simp [Place.parent, requesterId, haround, Place.id, hinj]

theorem types_contents (h : Lowered d u) (hr : ∀ q ∈ requester, q ∈ d.places) :
    (u.contents (requesterId requester)).types =
      (childrenIn (requester.map (·.number)) d.places).map .ofIndex := by
  have htest : ∀ p ∈ d.places, (p.parent == requesterId requester) =
      (p.around.head? == requester.map (·.number)) := by
    intro p hp
    rw [Bool.eq_iff_iff, beq_iff_eq, beq_iff_eq]
    exact h.parent_eq_iff hr hp
  have houtline : (u.contents (requesterId requester)).types =
      handlesWhere (fun p : Place => p.parent == requesterId requester) d.places := by
    rw [h.linked.contents, h.outline]
    exact handlesWhere_map (fun t : TypeDecl => t.parent == requesterId requester) d.declOf
      d.places
  rw [houtline, handlesWhere_places, List.filter_congr htest, childrenIn, List.map_map]
  rfl

theorem filter_ownedCreations (h : Lowered d u) (hr : ∀ q ∈ requester, q ∈ d.places) :
    d.ownedCreations.filter (·.1 == requesterId requester) =
      (d.creationsIn requester).map (requesterId requester, ·) := by
  have hcount := h.countAll_types
  have hsize := h.addressable.types
  rw [UnitDump.ownedCreations, List.filter_append]
  cases requester with
  | none =>
    have hnil : (ownedCreationsAll 0 d.types).filter (·.1 == Handle.ofIndex 0xFFFFFFFF) = [] :=
      filter_ownedCreationsAll_eq_nil (by omega) (Nat.le_refl _) (by omega)
    have hself : (d.creations.map ((Handle.absent : TypeId), ·)).filter
        (·.1 == Handle.absent) = d.creations.map (Handle.absent, ·) := by
      refine List.filter_eq_self.mpr fun entry hentry => ?_
      obtain ⟨c, -, rfl⟩ := List.mem_map.mp hentry
      exact beq_self_eq_true _
    exact congrArg₂ (· ++ ·) hnil hself
  | some q =>
    have hq := hr q rfl
    have hown := filter_ownedCreationsAll (p := q) hq (by omega)
    have hnil : (d.creations.map ((Handle.absent : TypeId), ·)).filter (·.1 == q.id) = [] := by
      refine List.filter_eq_nil_iff.mpr fun entry hentry he => ?_
      obtain ⟨c, -, rfl⟩ := List.mem_map.mp hentry
      exact Handle.ne_absent (h.isAbsent_id hq) (beq_iff_eq.mp he).symm
    exact (congrArg₂ (· ++ ·) hown hnil).trans (List.append_nil _)

theorem creations_contents (h : Lowered d u) (hr : ∀ q ∈ requester, q ∈ d.places) :
    List.Forall₂ (fun id dump => ∃ c, u.creation? id = some c ∧
        c.bare = d.creationOf (requesterId requester) dump)
      (u.contents (requesterId requester)).creations (d.creationsIn requester) := by
  have hlook : (u.contents (requesterId requester)).creations.map
      (u.outline.creations[·.index]?) =
        (d.creationsIn requester).map fun c => some (d.creationOf (requesterId requester) c) := by
    have hfilter : d.outline.creations.filter (·.enclosing == requesterId requester) =
        (d.creationsIn requester).map (d.creationOf (requesterId requester)) := by
      rw [UnitDump.outline, List.filter_map]
      refine (congrArg (List.map _) (h.filter_ownedCreations hr)).trans ?_
      rw [List.map_map]
      rfl
    rw [h.linked.contents, Outline.contents, map_handlesWhere, h.outline, hfilter, List.map_map]
    · rfl
    · simpa using Nat.le_of_lt h.addressable.creations
  rw [← List.forall₂_eq_eq_eq, List.forall₂_map_left_iff, List.forall₂_map_right_iff] at hlook
  refine hlook.imp fun id dump hget => ?_
  rw [CompilationUnit.outline, List.getElem?_map, Option.map_eq_some_iff] at hget
  obtain ⟨c, hc, hbare⟩ := hget
  rw [creation?_eq_getElem? (Nat.le_of_lt h.addressable.creations)]
  exact ⟨c, by simpa using hc, hbare⟩

theorem itemsOf_eq (h : Lowered d u) (hr : ∀ q ∈ requester, q ∈ d.places) :
    u.itemsOf (requesterId requester) =
      (childrenIn (requester.map (·.number)) d.places).map (fun k => .type (.ofIndex k)) ++
        (u.contents (requesterId requester)).creations.map .creation := by
  have howner : ∀ item ∈ u.itemsOf (requesterId requester), (u.ownerOf? item).isSome := by
    intro item hitem
    rw [(mem_itemsOf h.linked h.addressable).mp hitem]
    rfl
  have hperm := u.mergeByStart_perm (u.contents (requesterId requester)).types
    (u.contents (requesterId requester)).creations
  rw [itemsOf, h.mergeByStart_eq, h.types_contents hr, List.map_map]
  · rfl
  · intro t ht
    have hmem := hperm.mem_iff.mpr (List.mem_append_left _ (List.mem_map_of_mem ht))
    simpa [ownerOf?] using howner _ hmem
  · intro c hc
    have hmem := hperm.mem_iff.mpr (List.mem_append_right _ (List.mem_map_of_mem hc))
    simpa [ownerOf?] using howner _ hmem

theorem bodyItems_id (h : Lowered d u) (hp : p ∈ d.places) :
    u.bodyItems p.id = (numbers (p.number + 1) p.type.nested).map (fun k => .type (.ofIndex k)) ++
      (u.contents p.id).creations.map .creation := by
  have hitems := h.itemsOf_eq (forall_mem_some hp)
  rw [bodyItems_eq (h.isAbsent_id hp), ← childrenIn_placesAll hp (by simp)]
  exact hitems

theorem topLevelItems_eq (h : Lowered d u) :
    u.topLevelItems = (numbers 0 d.types).map (fun k => .type (.ofIndex k)) ++
      (u.contents .absent).creations.map .creation := by
  have hitems := h.itemsOf_eq forall_mem_none
  have hroots := @childrenIn_head d.types 0 [] (by simp)
  rw [CompilationUnit.topLevelItems_eq, ← hroots]
  exact hitems

-- ---------------------------------------------------------------------------
-- Findings along a walk
-- ---------------------------------------------------------------------------

/-- What is found at an item, without its place in the source. -/
def at? (u : CompilationUnit) (o : Options) (item : Item) : Option Finding :=
  (u.finding? u.resolver o item).map Issue.finding

theorem filterMap_creations (h : Lowered d u) (hr : ∀ q ∈ requester, q ∈ d.places)
    (o : Options) :
    ((u.contents (requesterId requester)).creations.map Item.creation).filterMap (at? u o) =
      (d.creationsIn requester).filterMap (d.creationFinding? o requester) := by
  have hall := h.creations_contents hr
  rw [List.filterMap_map]
  generalize (u.contents (requesterId requester)).creations = ids at hall ⊢
  generalize d.creationsIn requester = dumps at hall ⊢
  induction hall with
  | nil => rfl
  | @cons id dump _ _ hfirst _ ih =>
    obtain ⟨c, hc, hbare⟩ := hfirst
    have hat : at? u o (.creation id) = d.creationFinding? o requester dump :=
      h.finding?_creation hr hc hbare o
    rw [List.filterMap_cons, List.filterMap_cons, Function.comp_apply, hat, ih]

theorem findings_walked (h : Lowered d u) (o : Options) {types : List TypeDump} {number : Nat}
    {around : List Nat} {walk : List Item}
    (hplaces : ∀ p ∈ placesAll number around types, p ∈ d.places)
    (hw : u.Walked ((numbers number types).map fun k => .type (.ofIndex k)) walk) :
    walk.filterMap (at? u o) = d.findingsAll o number around types := by
  induction types using forest_induction generalizing number around walk with
  | nil =>
    cases hw
    rfl
  | cons t rest ihnested ihrest =>
    rw [placesAll_cons] at hplaces
    obtain ⟨hp, hplaces⟩ := List.forall_mem_cons.mp hplaces
    obtain ⟨hnested, hrest⟩ := List.forall_mem_append.mp hplaces
    cases hw with
    | @type _ _ _ walk hinside hwalk =>
      have hbody := h.bodyItems_id hp
      rw [Place.id] at hbody
      rw [hbody] at hinside
      obtain ⟨first, last, hfirst, hlast, rfl⟩ := walked_append hinside
      have hcreations := h.filterMap_creations (forall_mem_some hp) o
      have hbase : at? u o (.type (.ofIndex number)) = d.baseFinding? o ⟨number, around, t⟩ :=
        h.finding?_type hp o
      have htail : (Item.type (.ofIndex number) :: walk).filterMap (at? u o) =
          (d.baseFinding? o ⟨number, around, t⟩).toList ++
            d.findingsAll o (number + t.count) around rest := by
        rw [List.filterMap_cons, hbase, ihrest hrest hwalk]
        cases d.baseFinding? o ⟨number, around, t⟩ <;> rfl
      rw [UnitDump.findingsAll_cons, List.filterMap_append, List.filterMap_append, htail,
        ihnested hnested hfirst, hlast.of_creations, List.append_assoc _ (Option.toList _)]
      exact congrArg (_ ++ · ++ _) hcreations

theorem findings_topLevel (h : Lowered d u) (o : Options) {walk : List Item}
    (hw : u.Walked u.topLevelItems walk) : walk.filterMap (at? u o) = d.findings o := by
  rw [h.topLevelItems_eq] at hw
  obtain ⟨first, last, hfirst, hlast, rfl⟩ := walked_append hw
  rw [List.filterMap_append, h.findings_walked o (fun _ hp => hp) hfirst, hlast.of_creations]
  exact congrArg (_ ++ ·) (h.filterMap_creations forall_mem_none o)

theorem issues_eq (h : Lowered d u) (o : Options) :
    (u.check u.resolver o .never).bag.issues.toList.map (fun i => (i.finding, i.order)) =
      (d.findings o).zipIdx.map fun (f, i) => (f, UInt32.ofNat i) := by
  have hw := walked_visits h.linked h.addressable u.topLevelItems
  have hadds := adds_checkItems (u := u) u.resolver o u.topLevelItems (.start u.fileName)
  have hissues : (u.check u.resolver o .never).bag.issues.toList = _ :=
    hadds.issues.trans (numberedFrom_findings _)
  have hat : (u.topLevelItems.flatMap u.visits).filterMap (at? u o) =
      (u.findings u.resolver o (u.topLevelItems.flatMap u.visits)).map (·.2.finding) := by
    simp only [CompilationUnit.findings, List.map_filterMap, Option.map_map, at?]
    rfl
  rw [hissues, ← h.findings_topLevel o hw, hat, List.zipIdx_map, List.map_map, List.map_map]
  rfl

end Lowered

/-- What the check of a unit says: each issue with its number, but not where it points. -/
def CompilationUnit.found (u : CompilationUnit) (o : Options) : List (Finding × UInt32) :=
  (u.check u.resolver o .never).bag.issues.toList.map fun i => (i.finding, i.order)

theorem Lowered.found_eq {d : UnitDump} {u : CompilationUnit} (h : Lowered d u) (o : Options) :
    u.found o = (d.findings o).zipIdx.map fun (f, i) => (f, UInt32.ofNat i) :=
  h.issues_eq o

theorem Lowered.map_finding_found {d : UnitDump} {u : CompilationUnit} (h : Lowered d u)
    (o : Options) : (u.found o).map (·.1) = d.findings o := by
  rw [h.found_eq, List.map_map]
  exact List.zipIdx_map_fst ..

namespace UnitDump

variable {d : UnitDump} {u : CompilationUnit}

/-- The check of a lowered dump finds what the tree of the dump says, in the
order of the tree. -/
theorem check_lower (h : d.lower = .ok u) (hu : u.Addressable) (o : Options) :
    (u.check u.resolver o .never).bag.issues.toList.map (fun i => (i.finding, i.order)) =
      (d.findings o).zipIdx.map fun (f, i) => (f, UInt32.ofNat i) :=
  (d.lowered h hu).issues_eq o

/-- A class named twice, a base that comes later, a constructor that chains to
its own class, and creations on three levels. -/
def shadowing : UnitDump where
  file := "a.cs"
  types := [
    { name := "A", base := some "Late"
      constructors := [{ initializer := some ⟨.own, 1⟩ }, { isStatic := true },
        { params := [⟨"p", false, false⟩], initializer := some ⟨.base, 2⟩ }]
      nested := [{ name := "Late", base := some "object"
                   constructors := [{ access := .ownType, params := [⟨"p", false, false⟩] }]
                   creations := [⟨"A", 3⟩] }]
      creations := [⟨"Late", 1⟩] },
    { name := "Late", constructors := [{ params := [⟨"p", true, false⟩, ⟨"q", true, false⟩] }] }]
  creations := [⟨"Late", 1⟩, ⟨"Nowhere", 1⟩]

theorem check_shadowing : ∃ u, shadowing.lower = .ok u ∧ u.Addressable ∧
    (u.check u.resolver {} .never).bag.issues.toList.map (fun i => (i.finding, i.order)) =
      (shadowing.findings {}).zipIdx.map fun (f, i) => (f, UInt32.ofNat i) := by
  have hlower : shadowing.lower = .ok ((Draft.start "a.cs").run shadowing.steps).unit := rfl
  have haddr : ((Draft.start "a.cs").run shadowing.steps).unit.Addressable := by decide
  exact ⟨_, hlower, haddr, check_lower hlower haddr {}⟩

end UnitDump

end CtorArity
