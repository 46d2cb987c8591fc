import CtorArity.Proofs.Lowering

/-!
# Lowering with replies

Lowering can be told as one pass over the dump that counts nothing: a type has
the handle that its declaration replies, the first handle of a name is kept in a
map, and bases and creations wait in two lists until all types are declared.
`lowerByReplies_eq`: this gives what the steps of the dump give. A forest of
types is entered into any draft, so the induction is about what it adds to the
handles, names and lists that are there (`Intake.Adds`).
-/

namespace CtorArity

open TypeDump

/-- A dump on its way into a draft. -/
structure Intake where
  draft : Draft
  /-- The first type of each name. -/
  names : Std.HashMap String TypeId
  bases : List (TypeId × String)
  creations : List (TypeId × CreationDump)

namespace Intake

def enter (s : Intake) (parent : TypeId) (t : TypeDump) : TypeId × Intake :=
  let (draft, id) := s.draft.declare (t.toSpec parent)
  (id, { s with
    draft := t.constructors.foldl (fun d c => (d.addConstructor id c.toSpec).1) draft
    names := s.names.insertIfNew t.name id
    bases := s.bases ++ (t.base.map (id, ·)).toList })

mutual

def enterType (s : Intake) (parent : TypeId) : TypeDump → Intake
  | t@⟨_, _, _, _, _, _, nested, creations⟩ =>
    let (id, s) := s.enter parent t
    let s := enterTypes s id nested
    { s with creations := s.creations ++ creations.map (id, ·) }

def enterTypes (s : Intake) (parent : TypeId) : List TypeDump → Intake
  | [] => s
  | t :: rest => enterTypes (enterType s parent t) parent rest

end

def base (s : Intake) (name : String) : BaseBinding :=
  if rootNames.contains name then .noBase else s.names[name]?.elim .external .declared

def target (s : Intake) (name : String) : CreationTarget :=
  s.names[name]?.elim .unresolved .declared

def create (s : Intake) (d : Draft) (owner : TypeId) (c : CreationDump) : Draft :=
  (d.create owner (s.target c.target) c.args).1

end Intake

namespace UnitDump

def intake (d : UnitDump) : Intake :=
  let draft := Draft.start d.file
  Intake.enterTypes ⟨d.scope.elim draft fun scope => draft.withScope ⟨scope⟩, ∅, [], []⟩ .absent
    d.types

/-- Binds names once all types are entered. -/
def lowerByReplies (d : UnitDump) : Except ModelError CompilationUnit :=
  let s := d.intake
  let draft := s.bases.foldl (fun draft entry => draft.setBase entry.1 (s.base entry.2)) s.draft
  let draft := s.creations.foldl (fun draft entry => s.create draft entry.1 entry.2) draft
  (d.creations.foldl (fun draft c => s.create draft .absent c) draft).finish

end UnitDump

-- ---------------------------------------------------------------------------
-- What declaring replies
-- ---------------------------------------------------------------------------

namespace Draft

variable {d : Draft} {step : Step}

theorem size_types_apply (h : d.unknown? step = none) :
    (d.apply step).1.unit.types.size = (d.unit.outline.apply step).types.length := by
  rw [← (apply_of_known h).1, CompilationUnit.length_outline_types]

theorem size_types_addConstructor (owner : TypeId) (spec : CtorSpec) (d : Draft) :
    (d.addConstructor owner spec).1.unit.types.size = d.unit.types.size := by
  change (d.apply (.addConstructor owner spec)).1.unit.types.size = _
  cases h : d.unknown? (.addConstructor owner spec) with
  | none => simp [size_types_apply h, Outline.apply]
  | some id =>
    rw [apply_of_unknown h]
    rfl

theorem size_types_foldl_addConstructor (owner : TypeId) (ctors : List CtorDump) (d : Draft) :
    (ctors.foldl (fun d c => (d.addConstructor owner c.toSpec).1) d).unit.types.size =
      d.unit.types.size := by
  induction ctors generalizing d with
  | nil => rfl
  | cons c rest ih => rw [List.foldl_cons, ih, size_types_addConstructor]

/-- The handle of nothing, or of a type that is there. -/
def HandedOut (d : Draft) (id : TypeId) : Prop :=
  id = .absent ∨ ∃ k < d.unit.types.size, id = .ofIndex k

theorem HandedOut.known {id : TypeId} (h : d.HandedOut id) :
    (id.isAbsent || d.knows id) = true := by
  obtain rfl | ⟨k, hk, rfl⟩ := h
  · simp
  · -- Past the last word an index comes round to the handle of a lower one.
    have hindex : (Handle.ofIndex k : TypeId).index < d.unit.types.size := by
      simp only [Handle.index, Handle.ofIndex, UInt32.toNat_ofNat']
      omega
    cases ha : (Handle.ofIndex k : TypeId).isAbsent
    · simp [knows, CompilationUnit.type?, ha, hindex]
    · rfl

theorem declare_reply {spec : TypeSpec} (h : d.HandedOut spec.parent) :
    (d.declare spec).2 = .ofIndex d.unit.types.size ∧
      (d.declare spec).1.unit.types.size = d.unit.types.size + 1 := by
  have hknown := h.known
  refine ⟨?_, ?_⟩
  · obtain ⟨cursor, t, heq, -⟩ := declare_eq hknown
    rw [heq, addType_reply]
  · change (d.apply (.declare spec)).1.unit.types.size = _
    simp [size_types_apply ((unknown?_declare d spec).mpr hknown), Outline.apply]

end Draft

-- ---------------------------------------------------------------------------
-- What a forest of types adds to an intake
-- ---------------------------------------------------------------------------

namespace TypeDump

/-- The first type of a name, where the handles are given from this number on. -/
def firstFrom (number : Nat) (types : List TypeDump) (name : String) : Option TypeId :=
  (types.findIdx? (·.name == name)).map fun i => .ofIndex (number + i)

theorem firstFrom_cons (number : Nat) (t : TypeDump) (rest : List TypeDump) (name : String) :
    firstFrom number (t :: rest) name =
      if t.name == name then some (.ofIndex number) else firstFrom (number + 1) rest name := by
  unfold firstFrom
  rw [List.findIdx?_cons]
  split
  · rfl
  · simp [Function.comp_def, Nat.add_assoc, Nat.add_comm 1]

theorem firstFrom_append (number : Nat) (types more : List TypeDump) (name : String) :
    firstFrom number (types ++ more) name =
      (firstFrom number types name).or (firstFrom (number + types.length) more name) := by
  induction types generalizing number with
  | nil => simp [firstFrom]
  | cons t rest ih =>
    rw [List.cons_append, firstFrom_cons, firstFrom_cons, ih]
    split
    · rfl
    · simp [Nat.add_assoc, Nat.add_comm 1]

def basesFrom (number : Nat) (types : List TypeDump) : List (TypeId × String) :=
  (types.zipIdx number).filterMap fun (t, i) => t.base.map (.ofIndex i, ·)

theorem basesFrom_append (number : Nat) (types more : List TypeDump) :
    basesFrom number (types ++ more) =
      basesFrom number types ++ basesFrom (number + types.length) more := by
  simp [basesFrom, List.zipIdx_append]

end TypeDump

namespace Intake

variable {s s' s'' : Intake} {parent : TypeId} {steps steps' : List Step}
  {types types' : List TypeDump} {creations creations' : List (TypeId × CreationDump)}

/-- The second intake is the first one after these steps, which declare these
types, and with these creations waiting. -/
structure Adds (s s' : Intake) (steps : List Step) (types : List TypeDump)
    (creations : List (TypeId × CreationDump)) : Prop where
  draft : s'.draft = s.draft.run steps
  size : s'.draft.unit.types.size = s.draft.unit.types.size + types.length
  names : ∀ name : String, s'.names[name]? =
    s.names[name]?.or (firstFrom s.draft.unit.types.size types name)
  bases : s'.bases = s.bases ++ basesFrom s.draft.unit.types.size types
  creations : s'.creations = s.creations ++ creations

theorem Adds.refl (s : Intake) : s.Adds s [] [] [] :=
  ⟨rfl, rfl, fun name => by simp [firstFrom], (List.append_nil _).symm, (List.append_nil _).symm⟩

theorem Adds.trans (h : s.Adds s' steps types creations)
    (h' : s'.Adds s'' steps' types' creations') :
    s.Adds s'' (steps ++ steps') (types ++ types') (creations ++ creations') where
  draft := by rw [h'.draft, h.draft, Draft.run_append]
  size := by rw [h'.size, h.size, List.length_append, Nat.add_assoc]
  names name := by rw [h'.names, h.names, h.size, firstFrom_append, Option.or_assoc]
  bases := by rw [h'.bases, h.bases, h.size, basesFrom_append, List.append_assoc]
  creations := by rw [h'.creations, h.creations, List.append_assoc]

theorem enter_adds (s : Intake) (t : TypeDump) (h : s.draft.HandedOut parent) :
    (s.enter parent t).1 = .ofIndex s.draft.unit.types.size ∧
      s.Adds (s.enter parent t).2 (.declare (t.toSpec parent) :: t.constructors.map fun c =>
        .addConstructor (.ofIndex s.draft.unit.types.size) c.toSpec) [t] [] := by
  have hparent : s.draft.HandedOut (t.toSpec parent).parent := h
  obtain ⟨hreply, hsize⟩ := Draft.declare_reply hparent
  refine ⟨hreply, ?_, ?_, fun name => ?_, ?_, (List.append_nil _).symm⟩
  · simp only [enter, hreply, Draft.run, List.foldl_cons, List.foldl_map]
    rfl
  · simp only [enter, Draft.size_types_foldl_addConstructor, hsize, List.length_singleton]
  · simp only [enter, hreply]
    rw [Std.HashMap.getElem?_insertIfNew, firstFrom_cons]
    by_cases hname : t.name = name
    · subst hname
      cases hentry : s.names[t.name]? <;>
        simp [← Std.HashMap.isSome_getElem?_iff_mem, hentry]
    · simp [hname, firstFrom]
  · simp only [enter, hreply]
    cases hbase : t.base <;> simp [basesFrom, hbase]

theorem enterTypes_cons (s : Intake) (parent : TypeId) (t : TypeDump) (rest : List TypeDump) :
    s.enterTypes parent (t :: rest) =
      let (id, s) := s.enter parent t
      let s := s.enterTypes id t.nested
      { s with creations := s.creations ++ t.creations.map (id, ·) }.enterTypes parent rest := by
  cases t
  rfl

theorem enterTypes_adds (s : Intake) (parent : TypeId) (types : List TypeDump)
    (h : s.draft.HandedOut parent) : s.Adds (s.enterTypes parent types)
      (declareStepsAll s.draft.unit.types.size parent types) (preorderAll types)
      (ownedCreationsAll s.draft.unit.types.size types) := by
  induction types using forest_induction generalizing s parent with
  | nil => exact .refl s
  | cons t rest ihnested ihrest =>
    obtain ⟨hid, hfirst⟩ := s.enter_adds t h
    have hfirstSize := hfirst.size
    rw [List.length_singleton] at hfirstSize
    have hnested := ihnested (s.enter parent t).2 (s.enter parent t).1 (.inr ⟨_, by omega, hid⟩)
    -- What waits of the type itself comes behind what waits of the types inside it.
    let inner := (s.enter parent t).2.enterTypes (s.enter parent t).1 t.nested
    let whole : Intake :=
      { inner with creations := inner.creations ++ t.creations.map ((s.enter parent t).1, ·) }
    have hwhole : inner.Adds whole [] [] (t.creations.map ((s.enter parent t).1, ·)) :=
      ⟨rfl, rfl, (Adds.refl inner).names, (Adds.refl inner).bases, rfl⟩
    have hsize : whole.draft.unit.types.size = s.draft.unit.types.size + t.count := by
      rw [hwhole.size, hnested.size, hfirstSize, length_preorderAll, count_eq, List.length_nil]
      omega
    have hrest := ihrest whole parent (h.imp_right fun ⟨k, hk, hid⟩ => ⟨k, by omega, hid⟩)
    have hall := hfirst.trans (hnested.trans (hwhole.trans hrest))
    rw [hid, hfirstSize, hsize] at hall
    rw [enterTypes_cons]
    simpa [declareStepsAll_cons, preorderAll_cons, ownedCreationsAll_cons] using hall

end Intake

-- ---------------------------------------------------------------------------
-- The whole dump
-- ---------------------------------------------------------------------------

theorem TypeDump.baseSteps_eq_map (types : List TypeDump) : baseSteps types =
    (basesFrom 0 types).map fun entry => .setBase entry.1 (bindBase types entry.2) := by
  simp [baseSteps, basesFrom, List.map_filterMap, Option.map_map, Function.comp_def]

namespace UnitDump

variable (d : UnitDump)

theorem intake_eq : d.intake.draft = (Draft.start d.file).run d.declaringSteps ∧
    (∀ name : String, d.intake.names[name]? = declared? d.allTypes name) ∧
    d.intake.bases = basesFrom 0 d.allTypes ∧
    d.intake.creations = ownedCreationsAll 0 d.types := by
  let start : Intake := ⟨d.scope.elim (Draft.start d.file) fun scope =>
    (Draft.start d.file).withScope ⟨scope⟩, ∅, [], []⟩
  have hsize : start.draft.unit.types.size = 0 := by
    simp only [start]
    cases d.scope <;> rfl
  have hadds := start.enterTypes_adds .absent d.types (.inl rfl)
  rw [hsize] at hadds
  refine ⟨?_, fun name => ?_, ?_, hadds.creations.trans (List.nil_append _)⟩
  · refine hadds.draft.trans ?_
    simp only [start, declaringSteps]
    cases d.scope <;> rfl
  · refine (hadds.names name).trans ?_
    simp [start, hsize, firstFrom, declared?, allTypes]
  · refine hadds.bases.trans ?_
    rw [hsize]
    rfl

/-- Lowering with replies gives what the steps of the dump give. -/
theorem lowerByReplies_eq : d.lowerByReplies = d.lower := by
  obtain ⟨hdraft, hnames, hbases, hcreations⟩ := d.intake_eq
  have hbase : d.intake.base = bindBase d.allTypes := by
    funext name
    rw [Intake.base, bindBase, hnames]
  have htarget : d.intake.target = bindTarget d.allTypes := by
    funext name
    rw [Intake.target, bindTarget, hnames]
  have hcreate : ∀ draft owner c, d.intake.create draft owner c =
      (draft.apply (creationStep d.allTypes owner c)).1 := by
    intro draft owner c
    rw [Intake.create, htarget]
    rfl
  simp only [lowerByReplies, lower, steps_eq, bindingSteps, ownedCreations, baseSteps_eq_map,
    Draft.run_append, List.map_append, hbase, hcreate]
  rw [hdraft, hbases, hcreations]
  simp only [Draft.run, List.foldl_map]
  rfl

end UnitDump

end CtorArity
