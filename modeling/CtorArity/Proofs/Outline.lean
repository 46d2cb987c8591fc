import CtorArity.Draft
import CtorArity.Proofs.Handle
import CtorArity.Proofs.Span

/-!
# Outlines

The outline of a unit is what its declarations say, apart from where they
stand in the source and from the lists of what a type holds. `apply_of_known`
and `outline_run`: on outlines a step that knows its handles appends one
declaration or sets one base, and nothing else. `apply_of_unknown`: a step that
does not know a handle is noted and changes nothing.
-/

namespace CtorArity

def TypeDecl.bare (t : TypeDecl) : TypeDecl :=
  { t with constructors := [], nested := [], creations := [], span := .dummy, nameSpan := .dummy }

def Ctor.bare (c : Ctor) : Ctor :=
  { c with initializer := c.initializer.map fun i => { i with span := .dummy }, span := .dummy }

def Creation.bare (c : Creation) : Creation := { c with span := .dummy }

structure Outline where
  /-- The scope of the unit's types from here on. -/
  scope : ScopeId
  types : List TypeDecl
  ctors : List Ctor
  creations : List Creation
  deriving DecidableEq, Repr

def CompilationUnit.outline (u : CompilationUnit) : Outline where
  scope := u.scope
  types := u.types.toList.map (·.bare)
  ctors := u.ctors.toList.map (·.bare)
  creations := u.creations.toList.map (·.bare)

def TypeSpec.bare (scope : ScopeId) (spec : TypeSpec) : TypeDecl where
  name := spec.name
  scope := spec.scope.getD scope
  kind := spec.kind
  modifiers := spec.modifiers
  parent := spec.parent
  base := .noBase
  constructors := []
  nested := []
  creations := []
  span := .dummy
  nameSpan := .dummy

def CtorSpec.bare (owner : TypeId) (spec : CtorSpec) : Ctor where
  owner := owner
  params := spec.params
  access := spec.access
  isStatic := spec.isStatic
  initializer := spec.initializer.map fun (target, argCount) => ⟨target, argCount, .dummy⟩
  span := .dummy

/-- What a step that knows its handles does to an outline. -/
def Outline.apply (o : Outline) : Step → Outline
  | .withScope scope => { o with scope := scope }
  | .declare spec => { o with types := o.types ++ [spec.bare o.scope] }
  | .setBase id base =>
    { o with types := o.types.modify id.index fun t => { t with base := base } }
  | .addConstructor owner spec => { o with ctors := o.ctors ++ [spec.bare owner] }
  | .create enclosing target argCount =>
    { o with creations := o.creations ++ [⟨target, argCount, enclosing, .dummy⟩] }

def CreationTarget.declared? : CreationTarget → Option TypeId
  | .declared target => some target
  | .unresolved => none

namespace Step

/-- The handles that a step uses, in the order in which it looks at them. The
absent handle is used for no type only where it does not stand for "nothing". -/
def handles : Step → List TypeId
  | .withScope _ => []
  | .declare spec => spec.parent.present?.toList
  | .setBase id base => base.declared?.toList ++ [id]
  | .addConstructor owner _ => [owner]
  | .create enclosing target _ => enclosing.present?.toList ++ target.declared?.toList

/-- What a step answers when it does not know a handle. -/
def refusal : Step → Option Declared
  | .withScope _ | .setBase .. => none
  | .declare _ => some (.type .absent)
  | .addConstructor .. => some (.ctor .absent)
  | .create .. => some (.creation .absent)

end Step

namespace Draft

variable {d : Draft} {id : TypeId}

/-- The first handle of a step that names no type. -/
def unknown? (d : Draft) (step : Step) : Option TypeId :=
  step.handles.find? (!d.knows ·)

theorem knows_iff : d.knows id = true ↔ ∃ t, d.unit.type? id = some t :=
  Option.isSome_iff_exists

theorem isAbsent_of_knows (h : d.knows id = true) : id.isAbsent = false := by
  obtain ⟨t, ht⟩ := knows_iff.mp h
  exact CompilationUnit.isAbsent_of_type? ht

-- ---------------------------------------------------------------------------
-- Closing owners moves nothing but the stops of types
-- ---------------------------------------------------------------------------

/-- Extends the types with these handles to an offset. -/
def reachAll (offset : UInt32) (ids : List TypeId) (types : Array TypeDecl) : Array TypeDecl :=
  ids.foldl (fun types id => types.modify id.index (reach offset)) types

theorem closeOwner_eq (id : TypeId) (d : Draft) :
    d.closeOwner id = { d with unit := { d.unit with
      types := reachAll d.cursor (d.unit.ancestorsAndSelf id) d.unit.types } } := by
  unfold closeOwner
  generalize d.unit.ancestorsAndSelf id = ids
  induction ids generalizing d with
  | nil => rfl
  | cons owner rest ih => exact ih (d.modifyType owner (reach d.cursor))

theorem map_modify {f : α → β} {g : α → α} (h : ∀ a, f (g a) = f a) (as : Array α)
    (i : Nat) : (as.modify i g).map f = as.map f := by
  ext j hj hj'
  · simp
  · simp only [Array.getElem_map, Array.getElem_modify]
    split <;> simp [h]

theorem modify_comm {f g : α → α} (h : ∀ a, f (g a) = g (f a)) (as : Array α) (i j : Nat) :
    (as.modify i f).modify j g = (as.modify j g).modify i f := by
  ext k hk hk'
  · simp
  · simp only [Array.getElem_modify]
    split <;> split <;> simp [h]

theorem modify_push {f : α → α} {i : Nat} (as : Array α) (a : α) (h : i < as.size) :
    (as.modify i f).push a = (as.push a).modify i f := by
  ext j hj hj'
  · simp
  · simp only [Array.getElem_push, Array.getElem_modify, Array.size_modify]
    split <;> split <;> simp_all

theorem modify_push_last {f : α → α} (as : Array α) (a : α) :
    (as.push a).modify as.size f = as.push (f a) := by
  ext j hj hj'
  · simp
  · simp only [Array.getElem_push, Array.getElem_modify]
    split <;> split <;> simp_all <;> omega

theorem map_reachAll {f : TypeDecl → β} (h : ∀ offset t, f (reach offset t) = f t)
    (offset : UInt32) (ids : List TypeId) (types : Array TypeDecl) :
    (reachAll offset ids types).map f = types.map f := by
  induction ids generalizing types with
  | nil => rfl
  | cons id rest ih => exact (ih _).trans (map_modify (h offset) types id.index)

-- ---------------------------------------------------------------------------
-- A step that knows its handles adds one declaration, laid out at the cursor
-- ---------------------------------------------------------------------------

/-- The span starts at the cursor and stops no later than this next one, which
leaves a gap as long as it is not the last offset. -/
structure Writes (d : Draft) (span : Span) (cursor : UInt32) : Prop where
  start : span.start = d.cursor
  ordered : span.Ordered
  stop : span.stop ≤ cursor
  gap : cursor ≠ 0xFFFFFFFF → span.stop < cursor

theorem Writes.le_stop {span : Span} {cursor : UInt32} (h : d.Writes span cursor) :
    d.cursor ≤ span.stop :=
  h.start ▸ h.ordered

theorem Writes.le {span : Span} {cursor : UInt32} (h : d.Writes span cursor) : d.cursor ≤ cursor :=
  UInt32.le_trans h.le_stop h.stop

theorem Writes.lt {span : Span} {cursor : UInt32} (h : d.Writes span cursor)
    (hcursor : cursor ≠ 0xFFFFFFFF) : d.cursor < cursor :=
  UInt32.lt_of_le_of_lt h.le_stop (h.gap hcursor)

theorem writes_advance (length : UInt32) (d : Draft) :
    d.Writes (d.advance length).1 (d.advance length).2.cursor :=
  ⟨rfl, Span.ordered_ofLength d.cursor length, Saturating.le_add _ _, Saturating.lt_add_one⟩

theorem Writes.cover {d' : Draft} {first last : Span} {mid cursor : UInt32} (h : d.Writes first mid)
    (h' : d'.Writes last cursor) (hle : mid ≤ d'.cursor) : d.Writes (first.cover last) cursor := by
  obtain ⟨hstart, hordered, hstop, -⟩ := h
  obtain ⟨hstart', hordered', hstop', hgap'⟩ := h'
  have hmid := UInt32.le_trans hstop (hstart' ▸ hle)
  have hmin : min first.start last.start = first.start :=
    if_pos (UInt32.le_trans hordered hmid)
  have hmax : max first.stop last.stop = last.stop := if_pos (UInt32.le_trans hmid hordered')
  rw [Span.cover, hmin, hmax]
  exact ⟨hstart, UInt32.le_trans hordered (UInt32.le_trans hmid hordered'), hstop', hgap'⟩

/-- Two spans with a gap between them take room. -/
theorem Writes.lt_stop_cover {d' : Draft} {first last : Span} {mid cursor : UInt32}
    (h : d.Writes first mid) (h' : d'.Writes last cursor) (hle : mid ≤ d'.cursor)
    (hcursor : cursor ≠ 0xFFFFFFFF) : (first.cover last).start < (first.cover last).stop := by
  have hmid : mid ≤ last.stop := UInt32.le_trans hle h'.le_stop
  have hlt := h.lt (ne_last_of_le (UInt32.le_trans hmid h'.stop) hcursor)
  have hstart : first.start ≤ last.start := by
    rw [h.start, h'.start]
    exact UInt32.le_trans h.le hle
  have hstop := (Span.encloses_iff.mp (Span.cover_encloses hstart (UInt32.le_refl _))).2
  rw [(h.cover h' hle).start]
  exact UInt32.lt_of_lt_of_le hlt (UInt32.le_trans hmid hstop)

theorem declare_eq {spec : TypeSpec} (h : spec.parent.isAbsent || d.knows spec.parent) :
    ∃ cursor t, d.declare spec = { d with cursor }.addType t ∧ t.bare = spec.bare d.unit.scope ∧
      t.nested = [] ∧ t.constructors = [] ∧ t.creations = [] ∧ d.Writes t.span cursor ∧
      t.nameSpan.Ordered ∧ t.span.encloses t.nameSpan = true ∧
      (cursor ≠ 0xFFFFFFFF → t.span.start < t.span.stop) := by
  have hkeyword := writes_advance 5 d
  have hname := writes_advance (textLength spec.name) (d.advance 5).2
  refine ⟨_, _, if_pos h, rfl, rfl, rfl, rfl, ?_, hname.ordered, ?_, ?_⟩
  · exact hkeyword.cover hname (UInt32.le_refl _)
  · exact Span.cover_encloses (hname.start ▸ hkeyword.le) (UInt32.le_refl _)
  · exact hkeyword.lt_stop_cover hname (UInt32.le_refl _)

theorem layInitializer_eq (initializer : Option (ChainTarget × UInt32)) (d : Draft) :
    ∃ cursor laid, layInitializer initializer d = (laid, { d with cursor }) ∧
      laid.map (fun i => { i with span := .dummy }) =
        initializer.map (fun (target, argCount) => ⟨target, argCount, .dummy⟩) ∧
      d.cursor ≤ cursor ∧ ∀ i ∈ laid, d.Writes i.span cursor := by
  cases initializer with
  | none => exact ⟨_, _, rfl, rfl, UInt32.le_refl _, fun _ hi => nomatch hi⟩
  | some clause =>
    have hclause := writes_advance (callLength clause.2) d
    refine ⟨_, _, rfl, rfl, hclause.le, ?_⟩
    rintro i ⟨⟩
    exact hclause

theorem addConstructor_eq (spec : CtorSpec) (h : d.knows id = true) :
    ∃ cursor c, d.addConstructor id spec = { d with cursor }.addCtor c ∧ c.bare = spec.bare id ∧
      d.Writes c.span cursor ∧
      ∀ i ∈ c.initializer, i.span.Ordered ∧ c.span.encloses i.span = true := by
  obtain ⟨t, ht⟩ := knows_iff.mp h
  let head := d.advance (headLength t.name spec.params)
  obtain ⟨cursor, laid, hlay, hbare, hle, hlaid⟩ := layInitializer_eq spec.initializer head.2
  have hhead : d.Writes head.1 head.2.cursor := writes_advance _ d
  have hbody := writes_advance 2 { head.2 with cursor := cursor }
  refine ⟨({ head.2 with cursor := cursor }.advance 2).2.cursor, ⟨id, spec.params, spec.access,
    spec.isStatic, laid, head.1.cover ({ head.2 with cursor := cursor }.advance 2).1⟩, ?_, ?_,
    hhead.cover hbody hle, ?_⟩
  · simp only [addConstructor, ht]
    rw [hlay]
    rfl
  · simp [Ctor.bare, CtorSpec.bare, hbare]
  · intro i hi
    have hi := hlaid i hi
    refine ⟨hi.ordered, Span.cover_encloses ?_ ?_⟩
    · rw [hhead.start, hi.start]
      exact hhead.le
    · exact UInt32.le_trans hi.stop hbody.le_stop

theorem create_eq {enclosing : TypeId} {target : CreationTarget} (argCount : UInt32)
    (h : d.unknownIn enclosing target = none) :
    ∃ cursor c, d.create enclosing target argCount = { d with cursor }.addCreation c ∧
      c.bare = ⟨target, argCount, enclosing, .dummy⟩ ∧ d.Writes c.span cursor := by
  refine ⟨_, ⟨target, argCount, enclosing, (d.advance (callLength argCount)).1⟩, ?_, rfl,
    writes_advance (callLength argCount) d⟩
  simp only [create, h]
  rfl

-- ---------------------------------------------------------------------------
-- An addition appends to its table and to one list
-- ---------------------------------------------------------------------------

theorem addType_top {t : TypeDecl} (h : t.parent.isAbsent = true) :
    d.addType t = ({ d with unit := { d.unit with
      types := d.unit.types.push t
      roots := d.unit.roots ++ [.ofIndex d.unit.types.size] } }, .ofIndex d.unit.types.size) := by
  simp [addType, h]

theorem addType_nested {t : TypeDecl} (h : t.parent.isAbsent = false) :
    d.addType t = ((({ d with unit := { d.unit with types := d.unit.types.push t } } :
      Draft).modifyType t.parent fun p =>
        { p with nested := p.nested ++ [.ofIndex d.unit.types.size] }).closeOwner t.parent,
      .ofIndex d.unit.types.size) := by
  simp [addType, h]

theorem addCtor_eq {c : Ctor} :
    d.addCtor c = ((({ d with unit := { d.unit with ctors := d.unit.ctors.push c } } :
      Draft).modifyType c.owner fun t =>
        { t with constructors := t.constructors ++ [.ofIndex d.unit.ctors.size] }).closeOwner
          c.owner, .ofIndex d.unit.ctors.size) := rfl

theorem addCreation_top {c : Creation} (h : c.enclosing.isAbsent = true) :
    d.addCreation c = ({ d with unit := { d.unit with
      creations := d.unit.creations.push c
      topLevelCreations := d.unit.topLevelCreations ++ [.ofIndex d.unit.creations.size] } },
      .ofIndex d.unit.creations.size) := by
  simp [addCreation, h]

theorem addCreation_enclosed {c : Creation} (h : c.enclosing.isAbsent = false) :
    d.addCreation c = ((({ d with unit := { d.unit with
      creations := d.unit.creations.push c } } : Draft).modifyType c.enclosing fun t =>
        { t with creations := t.creations ++ [.ofIndex d.unit.creations.size] }).closeOwner
          c.enclosing, .ofIndex d.unit.creations.size) := by
  simp [addCreation, h]

theorem addType_reply (t : TypeDecl) (d : Draft) :
    (d.addType t).2 = .ofIndex d.unit.types.size := by
  unfold addType
  split <;> rfl

theorem addCreation_reply (c : Creation) (d : Draft) :
    (d.addCreation c).2 = .ofIndex d.unit.creations.size := by
  unfold addCreation
  split <;> rfl

-- ---------------------------------------------------------------------------
-- What the additions do to an outline
-- ---------------------------------------------------------------------------

theorem bare_reach (offset : UInt32) (t : TypeDecl) : (reach offset t).bare = t.bare := rfl

theorem outline_modifyType {f : TypeDecl → TypeDecl} (h : ∀ t, (f t).bare = t.bare) (id : TypeId)
    (d : Draft) : (d.modifyType id f).unit.outline = d.unit.outline := by
  simp only [CompilationUnit.outline, modifyType, ← Array.toList_map, map_modify h]

theorem outline_closeOwner (id : TypeId) (d : Draft) :
    (d.closeOwner id).unit.outline = d.unit.outline := by
  rw [closeOwner_eq]
  simp only [CompilationUnit.outline, ← Array.toList_map, map_reachAll bare_reach]

theorem outline_addType (t : TypeDecl) (d : Draft) : (d.addType t).1.unit.outline =
    { d.unit.outline with types := d.unit.outline.types ++ [t.bare] } := by
  cases ht : t.parent.isAbsent
  · rw [addType_nested ht, outline_closeOwner, outline_modifyType]
    · simp [CompilationUnit.outline]
    · exact fun _ => rfl
  · rw [addType_top ht]
    simp [CompilationUnit.outline]

theorem outline_addCtor (c : Ctor) (d : Draft) : (d.addCtor c).1.unit.outline =
    { d.unit.outline with ctors := d.unit.outline.ctors ++ [c.bare] } := by
  rw [addCtor_eq, outline_closeOwner, outline_modifyType]
  · simp [CompilationUnit.outline]
  · exact fun _ => rfl

theorem outline_addCreation (c : Creation) (d : Draft) : (d.addCreation c).1.unit.outline =
    { d.unit.outline with creations := d.unit.outline.creations ++ [c.bare] } := by
  cases hc : c.enclosing.isAbsent
  · rw [addCreation_enclosed hc, outline_closeOwner, outline_modifyType]
    · simp [CompilationUnit.outline]
    · exact fun _ => rfl
  · rw [addCreation_top hc]
    simp [CompilationUnit.outline]

theorem outline_setBase (base : BaseBinding) (id : TypeId) (d : Draft) :
    (d.modifyType id fun t => { t with base := base }).unit.outline =
      d.unit.outline.apply (.setBase id base) := by
  simp only [CompilationUnit.outline, modifyType, Outline.apply, Array.toList_modify]
  congr 1
  apply List.ext_getElem?
  intro i
  simp only [List.getElem?_map, List.getElem?_modify]
  cases d.unit.types.toList[i]? with
  | none => rfl
  | some t => by_cases hi : id.index = i <;> simp [hi, TypeDecl.bare]

theorem faults_addType (t : TypeDecl) (d : Draft) : (d.addType t).1.faults = d.faults := by
  cases ht : t.parent.isAbsent
  · rw [addType_nested ht, closeOwner_eq]
    rfl
  · rw [addType_top ht]

theorem faults_addCtor (c : Ctor) (d : Draft) : (d.addCtor c).1.faults = d.faults := by
  rw [addCtor_eq, closeOwner_eq]
  rfl

theorem faults_addCreation (c : Creation) (d : Draft) :
    (d.addCreation c).1.faults = d.faults := by
  cases hc : c.enclosing.isAbsent
  · rw [addCreation_enclosed hc, closeOwner_eq]
    rfl
  · rw [addCreation_top hc]

-- ---------------------------------------------------------------------------
-- Steps and runs
-- ---------------------------------------------------------------------------

theorem unknown?_declare (d : Draft) (spec : TypeSpec) :
    d.unknown? (.declare spec) = none ↔ (spec.parent.isAbsent || d.knows spec.parent) = true := by
  cases h : spec.parent.isAbsent <;>
    simp [unknown?, Step.handles, Handle.present?, h]

theorem unknown?_setBase (d : Draft) (id : TypeId) (base : BaseBinding) :
    d.unknown? (.setBase id base) = none ↔
      base.declared?.filter (!d.knows ·) = none ∧ d.knows id = true := by
  cases h : base.declared? <;> simp [unknown?, Step.handles, h]

theorem unknown?_addConstructor (d : Draft) (owner : TypeId) (spec : CtorSpec) :
    d.unknown? (.addConstructor owner spec) = none ↔ d.knows owner = true := by
  simp [unknown?, Step.handles]

theorem unknown?_create (d : Draft) (enclosing : TypeId) (target : CreationTarget)
    (argCount : UInt32) :
    d.unknown? (.create enclosing target argCount) = d.unknownIn enclosing target := by
  cases target <;> rfl

/-- A step that does not know a handle notes the first such one as a fault. -/
theorem apply_of_unknown {step : Step} (h : d.unknown? step = some id) :
    d.apply step = (d.fault (.unknownType id), step.refusal) := by
  cases step with
  | withScope scope => simp [unknown?, Step.handles] at h
  | declare spec =>
    have hne : ¬ (spec.parent.isAbsent || d.knows spec.parent) = true := by
      rw [← unknown?_declare, h]
      exact Option.some_ne_none id
    have hid : id = spec.parent := by
      have hp : spec.parent.isAbsent = false := by
        cases hp : spec.parent.isAbsent <;> simp [hp] at hne ⊢
      have hmem := List.mem_of_find?_eq_some h
      simpa [Step.handles, Handle.present?, hp] using hmem
    simp only [apply, declare, if_neg hne, hid]
    rfl
  | setBase owner base =>
    cases hb : base.declared?.filter (!d.knows ·) with
    | some b =>
      have hid : id = b := by
        obtain ⟨hb, hk⟩ := Option.filter_eq_some_iff.mp hb
        simp only [unknown?, Step.handles, hb, Option.toList_some, List.cons_append,
          List.find?_cons, hk] at h
        exact (Option.some.inj h).symm
      simp only [apply, setBase, hb, hid]
      rfl
    | none =>
      obtain ⟨hown, rfl⟩ : d.knows owner = false ∧ owner = id := by
        cases hbase : base.declared? with
        | none => simpa [unknown?, Step.handles, hbase] using h
        | some b =>
          have hk : d.knows b = true := by simpa [hbase, Option.filter] using hb
          simpa [unknown?, Step.handles, hbase, hk] using h
      simp only [apply, setBase, hb, hown]
      rfl
  | addConstructor owner spec =>
    obtain ⟨hown, rfl⟩ : d.knows owner = false ∧ owner = id := by
      simpa [unknown?, Step.handles] using h
    have hnone : d.unit.type? owner = none := by
      simpa [knows] using hown
    simp only [apply, addConstructor, hnone]
    rfl
  | create enclosing target argCount =>
    rw [unknown?_create] at h
    simp only [apply, create, h]
    rfl

theorem apply_of_known {step : Step} (h : d.unknown? step = none) :
    (d.apply step).1.unit.outline = d.unit.outline.apply step ∧
      (d.apply step).1.faults = d.faults := by
  cases step with
  | withScope scope => exact ⟨rfl, rfl⟩
  | declare spec =>
    obtain ⟨cursor, t, heq, hbare, -⟩ := declare_eq ((unknown?_declare d spec).mp h)
    simp only [apply, heq, outline_addType, faults_addType, hbare, and_true]
    rfl
  | setBase id base =>
    obtain ⟨hbase, hid⟩ := (unknown?_setBase d id base).mp h
    simp only [apply, setBase, hbase, hid, if_true]
    exact ⟨outline_setBase base id d, rfl⟩
  | addConstructor owner spec =>
    obtain ⟨cursor, c, heq, hbare, -⟩ :=
      addConstructor_eq spec ((unknown?_addConstructor d owner spec).mp h)
    simp only [apply, heq, outline_addCtor, faults_addCtor, hbare, and_true]
    rfl
  | create enclosing target argCount =>
    obtain ⟨cursor, c, heq, hbare, -⟩ := create_eq argCount
      ((unknown?_create d enclosing target argCount).symm.trans h)
    simp only [apply, heq, outline_addCreation, faults_addCreation, hbare, and_true]
    rfl

theorem faults_apply (d : Draft) (step : Step) : (d.apply step).1.faults =
    d.faults ++ (d.unknown? step).toList.map ModelError.unknownType := by
  cases h : d.unknown? step with
  | none => simpa using (apply_of_known h).2
  | some id => simp [apply_of_unknown h, fault]

theorem faults_prefix_run (d : Draft) (steps : List Step) :
    d.faults <+: (d.run steps).faults := by
  induction steps generalizing d with
  | nil => exact List.prefix_rfl
  | cons step rest ih =>
    exact (faults_apply d step ▸ List.prefix_append _ _).trans (ih (d.apply step).1)

theorem known_of_run {step : Step} {rest : List Step}
    (h : (d.run (step :: rest)).faults = d.faults) :
    d.unknown? step = none ∧ ((d.apply step).1.run rest).faults = (d.apply step).1.faults := by
  have hle := (faults_prefix_run (d.apply step).1 rest).length_le
  have hrun : ((d.apply step).1.run rest).faults = d.faults := h
  cases hs : d.unknown? step with
  | none => exact ⟨rfl, hrun.trans (apply_of_known hs).2.symm⟩
  | some id =>
    rw [hrun, faults_apply, hs, List.length_append] at hle
    exact absurd hle (Nat.not_succ_le_self _)

theorem outline_run {steps : List Step} (h : (d.run steps).faults = d.faults) :
    (d.run steps).unit.outline = steps.foldl Outline.apply d.unit.outline := by
  induction steps generalizing d with
  | nil => rfl
  | cons step rest ih =>
    obtain ⟨hs, hrest⟩ := known_of_run h
    rw [List.foldl_cons, ← (apply_of_known hs).1]
    exact ih hrest

theorem run_append (d : Draft) (first second : List Step) :
    d.run (first ++ second) = (d.run first).run second :=
  List.foldl_append

/-- What each step keeps, a run keeps. -/
theorem run_of_apply {P : Draft → Prop} (happly : ∀ d step, P d → P (d.apply step).1) (h : P d)
    (steps : List Step) : P (d.run steps) := by
  induction steps generalizing d with
  | nil => exact h
  | cons step rest ih => exact ih (happly d step h)

theorem finish_eq_ok {u : CompilationUnit} : d.finish = .ok u ↔
    d.faults = [] ∧ d.unit.ctorFault? = none ∧ d.unit.baseFault? = none ∧ d.unit = u := by
  unfold finish
  cases hf : d.faults with
  | cons e rest => simp
  | nil =>
    cases hc : d.unit.ctorFault? with
    | some e => simp
    | none => cases hb : d.unit.baseFault? <;> simp

end Draft

end CtorArity
