import CtorArity.Proofs.Lowering

/-!
# Dumps with other constructors

`UnitDump.mapCtors` gives each type of a dump other constructors and keeps all
else. It keeps the numbers of the types, so only the steps that add constructors
change (`bindingSteps_mapCtors`). `steps_setAccess`: another access for one
constructor changes one step.
-/

namespace CtorArity

namespace TypeDump

variable {f : Nat → List CtorDump → List CtorDump} {types : List TypeDump} {number : Nat}

mutual

/-- The type and those inside it with other constructors, chosen by number. -/
def mapCtorsOf (f : Nat → List CtorDump → List CtorDump) (number : Nat) : TypeDump → TypeDump
  | ⟨name, kind, modifiers, base, scope, constructors, nested, creations⟩ =>
    ⟨name, kind, modifiers, base, scope, f number constructors,
      mapCtorsAll f (number + 1) nested, creations⟩

def mapCtorsAll (f : Nat → List CtorDump → List CtorDump) (number : Nat) :
    List TypeDump → List TypeDump
  | [] => []
  | t :: rest => mapCtorsOf f number t :: mapCtorsAll f (number + count t) rest

end

theorem mapCtorsOf_eq (f : Nat → List CtorDump → List CtorDump) (number : Nat) (t : TypeDump) :
    mapCtorsOf f number t =
      { t with
        constructors := f number t.constructors
        nested := mapCtorsAll f (number + 1) t.nested } := by
  cases t
  rfl

theorem mapCtorsAll_cons (f : Nat → List CtorDump → List CtorDump) (number : Nat) (t : TypeDump)
    (rest : List TypeDump) : mapCtorsAll f number (t :: rest) =
      { t with
        constructors := f number t.constructors
        nested := mapCtorsAll f (number + 1) t.nested } ::
        mapCtorsAll f (number + t.count) rest := by
  rw [mapCtorsAll, mapCtorsOf_eq]

@[simp] theorem countAll_mapCtorsAll (number : Nat) (types : List TypeDump) :
    countAll (mapCtorsAll f number types) = countAll types := by
  induction types using forest_induction generalizing number with
  | nil => rfl
  | cons t rest ihnested ihrest =>
    rw [mapCtorsAll_cons, countAll_cons, countAll_cons, count_eq, count_eq, ihnested, ihrest]

theorem map_preorderAll_mapCtorsAll {g : TypeDump → α}
    (hg : ∀ t ctors nested, g { t with constructors := ctors, nested := nested } = g t)
    (number : Nat) (types : List TypeDump) :
    (preorderAll (mapCtorsAll f number types)).map g = (preorderAll types).map g := by
  induction types using forest_induction generalizing number with
  | nil => rfl
  | cons t rest ihnested ihrest =>
    rw [mapCtorsAll_cons, preorderAll_cons, preorderAll_cons, List.map_cons, List.map_append,
      ihnested, ihrest, List.map_cons, List.map_append, hg]

theorem ownedCreationsAll_mapCtorsAll (number : Nat) (types : List TypeDump) :
    ownedCreationsAll number (mapCtorsAll f number types) = ownedCreationsAll number types := by
  induction types using forest_induction generalizing number with
  | nil => rfl
  | cons t rest ihnested ihrest =>
    have hcount : ∀ ctors, ({ t with
        constructors := ctors, nested := mapCtorsAll f (number + 1) t.nested } : TypeDump).count =
        t.count := fun ctors => by
      rw [count_eq, count_eq, countAll_mapCtorsAll]
    rw [mapCtorsAll_cons, ownedCreationsAll_cons, ownedCreationsAll_cons, hcount, ihnested, ihrest]

theorem mapCtorsAll_eq_self
    (h : ∀ n, number ≤ n → n < number + countAll types → ∀ ctors, f n ctors = ctors) :
    mapCtorsAll f number types = types := by
  induction types using forest_induction generalizing number with
  | nil => rfl
  | cons t rest ihnested ihrest =>
    have hcount := t.count_eq
    rw [countAll_cons] at h
    rw [mapCtorsAll_cons, h number (by omega) (by omega),
      ihnested fun n hlo hhi => h n (by omega) (by omega),
      ihrest fun n hlo hhi => h n (by omega) (by omega)]
    cases t
    rfl

-- ---------------------------------------------------------------------------
-- What depends on names and bases only
-- ---------------------------------------------------------------------------

theorem declared?_congr {types' : List TypeDump}
    (h : types.map (·.name) = types'.map (·.name)) : declared? types = declared? types' := by
  funext name
  have hidx : ∀ l : List TypeDump, l.findIdx? (·.name == name) =
      (l.map (·.name)).findIdx? (· == name) := fun l => by
    rw [List.findIdx?_map]
    rfl
  rw [declared?, declared?, hidx, hidx, h]

theorem baseSteps_eq (types : List TypeDump) :
    baseSteps types = (types.map (·.base)).zipIdx.filterMap fun entry =>
      entry.1.map fun name => Step.setBase (.ofIndex entry.2) (bindBase types name) := by
  rw [List.zipIdx_map, List.filterMap_map]
  rfl

theorem baseSteps_congr {types' : List TypeDump} (hname : types.map (·.name) = types'.map (·.name))
    (hbase : types.map (·.base) = types'.map (·.base)) : baseSteps types = baseSteps types' := by
  have hbind : bindBase types = bindBase types' := by
    funext name
    rw [bindBase, bindBase, declared?_congr hname]
  rw [baseSteps_eq, baseSteps_eq, hbase, hbind]

end TypeDump

open TypeDump

namespace UnitDump

variable {d : UnitDump} {f : Nat → List CtorDump → List CtorDump}

def mapCtors (f : Nat → List CtorDump → List CtorDump) (d : UnitDump) : UnitDump :=
  { d with types := mapCtorsAll f 0 d.types }

theorem bindingSteps_mapCtors (f : Nat → List CtorDump → List CtorDump) (d : UnitDump) :
    (d.mapCtors f).bindingSteps = d.bindingSteps := by
  have hname : (d.mapCtors f).allTypes.map (·.name) = d.allTypes.map (·.name) :=
    map_preorderAll_mapCtorsAll (fun _ _ _ => rfl) 0 d.types
  have hbase : (d.mapCtors f).allTypes.map (·.base) = d.allTypes.map (·.base) :=
    map_preorderAll_mapCtorsAll (fun _ _ _ => rfl) 0 d.types
  have htarget : bindTarget (d.mapCtors f).allTypes = bindTarget d.allTypes := by
    funext name
    rw [bindTarget, bindTarget, declared?_congr hname]
  have howned : (d.mapCtors f).ownedCreations = d.ownedCreations :=
    congrArg (· ++ _) (ownedCreationsAll_mapCtorsAll 0 d.types)
  simp only [bindingSteps, baseSteps_congr hname hbase, howned, creationStep, htarget]

theorem steps_mapCtors (f : Nat → List CtorDump → List CtorDump) (d : UnitDump) :
    (d.mapCtors f).steps = (d.scope.map fun scope => Step.withScope ⟨scope⟩).toList ++
      declareStepsAll 0 .absent (mapCtorsAll f 0 d.types) ++ d.bindingSteps := by
  rw [steps_eq, bindingSteps_mapCtors]
  rfl

end UnitDump

-- ---------------------------------------------------------------------------
-- Another access for one constructor
-- ---------------------------------------------------------------------------

/-- Gives one constructor of one type another access. -/
def accessEdit (k j : Nat) (access : Access) (number : Nat) (ctors : List CtorDump) :
    List CtorDump :=
  if number = k then ctors.modify j fun c => { c with access := access } else ctors

theorem accessEdit_of_ne {k j : Nat} {access : Access} {number : Nat} (h : number ≠ k)
    (ctors : List CtorDump) : accessEdit k j access number ctors = ctors :=
  if_neg h

namespace TypeDump

variable {types : List TypeDump} {number k j : Nat} {access : Access} {c : CtorDump}

theorem exists_append_of_getElem? {l : List α} {a : α} (h : l[j]? = some a) :
    ∃ before after, l = before ++ a :: after ∧ before.length = j := by
  obtain ⟨hlt, rfl⟩ := List.getElem?_eq_some_iff.mp h
  refine ⟨l.take j, l.drop (j + 1), ?_, by rw [List.length_take]; omega⟩
  rw [List.getElem_cons_drop, List.take_append_drop]

/-- The steps with another access for one constructor differ in the one step
that adds it. -/
theorem declareStepsAll_accessEdit (parent : TypeId) (hk : number ≤ k)
    (hc : (preorderAll types)[k - number]?.bind (·.constructors[j]?) = some c) :
    ∃ before after,
      declareStepsAll number parent types =
        before ++ .addConstructor (.ofIndex k) c.toSpec :: after ∧
      declareStepsAll number parent (mapCtorsAll (accessEdit k j access) number types) =
        before ++ .addConstructor (.ofIndex k) { c with access := access }.toSpec :: after := by
  induction types using forest_induction generalizing number parent with
  | nil => simp [preorderAll] at hc
  | cons t rest ihnested ihrest =>
    have hcount := t.count_eq
    have hlength := length_preorderAll t.nested
    have hcount' : ∀ ctors : List CtorDump, ({ t with
        constructors := ctors
        nested := mapCtorsAll (accessEdit k j access) (number + 1) t.nested } : TypeDump).count =
        t.count := fun ctors => by
      rw [count_eq, count_eq, countAll_mapCtorsAll]
    rw [mapCtorsAll_cons, declareStepsAll_cons, declareStepsAll_cons, hcount']
    rw [preorderAll_cons] at hc
    have houtside : ∀ n, (k < n ∨ n + countAll rest ≤ k) →
        mapCtorsAll (accessEdit k j access) n rest = rest := fun n hn =>
      mapCtorsAll_eq_self fun m hlo hhi => accessEdit_of_ne (by omega)
    have hinside : ∀ n, (k < n ∨ n + countAll t.nested ≤ k) →
        mapCtorsAll (accessEdit k j access) n t.nested = t.nested := fun n hn =>
      mapCtorsAll_eq_self fun m hlo hhi => accessEdit_of_ne (by omega)
    rcases Nat.eq_or_lt_of_le hk with rfl | hlt
    · rw [Nat.sub_self, List.getElem?_cons_zero, Option.bind_some] at hc
      obtain ⟨first, last, hsplit, rfl⟩ := exists_append_of_getElem? hc
      refine ⟨.declare (t.toSpec parent) ::
          first.map fun c => Step.addConstructor (.ofIndex number) c.toSpec,
        (last.map fun c => Step.addConstructor (.ofIndex number) c.toSpec) ++
          declareStepsAll (number + 1) (.ofIndex number) t.nested ++
          declareStepsAll (number + t.count) parent rest, ?_, ?_⟩
      · simp [hsplit]
      · rw [hinside _ (by omega), houtside _ (by omega), accessEdit, if_pos rfl, hsplit,
          modify_append_cons]
        simp [toSpec]
    have hindex : k - number = k - (number + 1) + 1 := by omega
    rw [hindex, List.getElem?_cons_succ] at hc
    by_cases hin : k - (number + 1) < countAll t.nested
    · rw [List.getElem?_append_left (by omega)] at hc
      obtain ⟨before, after, hsteps, hsteps'⟩ := ihnested (.ofIndex number) hlt hc
      refine ⟨.declare (t.toSpec parent) ::
          (t.constructors.map fun c => .addConstructor (.ofIndex number) c.toSpec) ++ before,
        after ++ declareStepsAll (number + t.count) parent rest, ?_, ?_⟩
      · simp [hsteps]
      · rw [houtside _ (by omega), accessEdit_of_ne (by omega), hsteps']
        simp [toSpec]
    · rw [List.getElem?_append_right (by omega), hlength] at hc
      have hnext : k - (number + 1) - countAll t.nested = k - (number + t.count) := by omega
      rw [hnext] at hc
      obtain ⟨before, after, hsteps, hsteps'⟩ := ihrest parent (by omega) hc
      refine ⟨.declare (t.toSpec parent) ::
          (t.constructors.map fun c => .addConstructor (.ofIndex number) c.toSpec) ++
          declareStepsAll (number + 1) (.ofIndex number) t.nested ++ before, after, ?_, ?_⟩
      · simp [hsteps]
      · rw [hinside _ (by omega), accessEdit_of_ne (by omega), hsteps']
        simp [toSpec]

end TypeDump

namespace UnitDump

variable {d : UnitDump} {k j : Nat} {c : CtorDump}

def ctorAt? (d : UnitDump) (k j : Nat) : Option CtorDump :=
  d.allTypes[k]?.bind (·.constructors[j]?)

def setAccess (d : UnitDump) (k j : Nat) (access : Access) : UnitDump :=
  d.mapCtors (accessEdit k j access)

theorem steps_setAccess (h : d.ctorAt? k j = some c) (access : Access) :
    ∃ before after,
      d.steps = before ++ .addConstructor (.ofIndex k) c.toSpec :: after ∧
      (d.setAccess k j access).steps =
        before ++ .addConstructor (.ofIndex k) { c with access := access }.toSpec :: after := by
  obtain ⟨before, after, hsteps, hsteps'⟩ :=
    declareStepsAll_accessEdit .absent (Nat.zero_le k) h
  refine ⟨(d.scope.map fun scope => Step.withScope ⟨scope⟩).toList ++ before,
    after ++ d.bindingSteps, ?_, ?_⟩
  · rw [steps_eq, declaringSteps, hsteps]
    simp
  · rw [setAccess, steps_mapCtors, hsteps']
    simp

end UnitDump

end CtorArity
