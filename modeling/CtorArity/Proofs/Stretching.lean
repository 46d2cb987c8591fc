import CtorArity.Proofs.Containment
import CtorArity.Proofs.Cursor

/-!
# Which spans a step stretches

A step extends the owner of what it declares, and the types around that one, to the
cursor. All other spans stay as they are (`type?_apply`). So once all steps that
are owned inside a type are behind, its span does not move any more (`span_run`).
-/

namespace CtorArity

/-- The type that is to hold what the step declares. -/
def Step.owner? : Step → Option TypeId
  | .declare spec => spec.parent.present?
  | .addConstructor owner _ => some owner
  | .create enclosing _ _ => enclosing.present?
  | .withScope _ | .setBase .. => none

-- ---------------------------------------------------------------------------
-- The types around a type stay around it
-- ---------------------------------------------------------------------------

namespace CompilationUnit

variable {u u' : CompilationUnit} {id outer : TypeId}

def parents (u : CompilationUnit) : List TypeId := u.types.toList.map (·.parent)

theorem Around.mono (hparents : u.parents <+: u'.parents) (h : u.Around outer id) :
    u'.Around outer id := by
  induction h with
  | self => exact .self
  | @parent id t ht _ ih =>
    have hget : u.parents[id.index]? = some t.parent := by
      simp [parents, getElem?_of_type? ht]
    obtain ⟨more, hmore⟩ := hparents
    have hget' : u'.parents[id.index]? = some t.parent := by
      rw [← hmore, List.getElem?_append_left (List.getElem?_eq_some_iff.mp hget).1]
      exact hget
    rw [parents, List.getElem?_map, Option.map_eq_some_iff] at hget'
    obtain ⟨t', ht', hparent⟩ := hget'
    refine .parent (t := t') ?_ (hparent ▸ ih)
    simpa [type?, isAbsent_of_type? ht] using ht'

theorem around_of_mem_ancestorsWithin {steps : Nat} (h : outer ∈ u.ancestorsWithin steps id) :
    u.Around outer id := by
  induction steps generalizing id with
  | zero => cases h
  | succ steps ih =>
    obtain ⟨-, rfl | ⟨t, ht, h⟩⟩ := mem_ancestorsWithin_succ.mp h
    · exact .self
    · exact .parent ht (ih h)

theorem not_around_absent (h : outer.isAbsent = false) : ¬ u.Around outer .absent := by
  intro haround
  generalize hid : (Handle.absent : TypeId) = id at haround
  cases haround with
  | self =>
    rw [← hid] at h
    cases h
  | parent ht =>
    have hpresent := isAbsent_of_type? ht
    rw [← hid] at hpresent
    cases hpresent

end CompilationUnit

namespace Draft

variable {d e : Draft} {id owner : TypeId} {step : Step} {t t' : TypeDecl}

theorem parents_prefix_run (d : Draft) (steps : List Step) :
    d.unit.parents <+: (d.run steps).unit.parents :=
  map_types_prefix_run (fun _ => rfl) (fun _ _ => rfl) d steps

-- ---------------------------------------------------------------------------
-- What a step does to a span
-- ---------------------------------------------------------------------------

theorem type?_modifyType {f : TypeDecl → TypeDecl} (hf : KeepsPlace f)
    (ht' : (d.modifyType owner f).unit.type? id = some t') :
    ∃ t, d.unit.type? id = some t ∧ t'.span = t.span := by
  have hpresent := CompilationUnit.isAbsent_of_type? ht'
  have hget := CompilationUnit.getElem?_of_type? ht'
  simp only [modifyType, Array.getElem?_modify] at hget
  split at hget
  · obtain ⟨t, ht, rfl⟩ := Option.map_eq_some_iff.mp hget
    exact ⟨t, by simpa [CompilationUnit.type?, hpresent] using ht, hf.span t⟩
  · exact ⟨t', by simpa [CompilationUnit.type?, hpresent] using hget, rfl⟩

theorem type?_pushType_inv {u : CompilationUnit} {new : TypeDecl}
    (ht' : { u with types := u.types.push new }.type? id = some t') :
    u.type? id = some t' ∨ u.type? id = none ∧ t' = new := by
  have hpresent := CompilationUnit.isAbsent_of_type? ht'
  have hget := CompilationUnit.getElem?_of_type? ht'
  rw [Array.getElem?_push] at hget
  split at hget
  · next hindex =>
    exact .inr ⟨by simp [CompilationUnit.type?, hpresent, hindex], (Option.some.inj hget).symm⟩
  · exact .inl (by simpa [CompilationUnit.type?, hpresent] using hget)

theorem parents_closeOwner (owner : TypeId) (d : Draft) :
    (d.closeOwner owner).unit.parents = d.unit.parents := by
  rw [closeOwner_eq, CompilationUnit.parents, ← Array.toList_map,
    map_reachAll (f := TypeDecl.parent) fun _ _ => rfl, Array.toList_map]
  rfl

theorem type?_owned {f : TypeDecl → TypeDecl} (hf : KeepsPlace f)
    (ht' : ((d.modifyType owner f).closeOwner owner).unit.type? id = some t') :
    ∃ t, d.unit.type? id = some t ∧ (t'.span = t.span ∨ t'.span = t.span.extend d.cursor ∧
      ((d.modifyType owner f).closeOwner owner).unit.Around id owner) := by
  rw [type?_closeOwner, Option.map_eq_some_iff] at ht'
  obtain ⟨s, hs, rfl⟩ := ht'
  obtain ⟨t, ht, hspan⟩ := type?_modifyType hf hs
  refine ⟨t, ht, ?_⟩
  split
  · next hmem =>
    refine .inr ⟨congrArg (Span.extend d.cursor) hspan, ?_⟩
    have hparents := parents_closeOwner owner (d.modifyType owner f)
    exact (CompilationUnit.around_of_mem_ancestorsWithin hmem).mono (hparents ▸ List.prefix_rfl)
  · exact .inl hspan

def Behind (d : Draft) (s : Span) : Prop :=
  s.stop ≤ d.cursor ∧ (d.cursor ≠ 0xFFFFFFFF → s.start < s.stop)

theorem Behind.extend {s : Span} (h : d.Behind s) : d.Behind (s.extend d.cursor) := by
  refine ⟨?_, fun hcursor => UInt32.lt_of_lt_of_le (h.2 hcursor) (Span.le_stop_extend _ s).1⟩
  have hstop := h.1
  simp only [Span.extend, UInt32.le_iff_toNat_le, toNat_max] at hstop ⊢
  omega

/-- The type was there before the step, and has its old span or, if it is around what
the step declares, its old span extended to the cursor. Or it is new. -/
def Stretched (d : Draft) (step : Step) (id : TypeId) (t : TypeDecl) : Prop :=
  (∃ old, d.unit.type? id = some old ∧ (t.span = old.span ∨
    t.span = old.span.extend (d.apply step).1.cursor ∧
      ∃ owner ∈ step.owner?, (d.apply step).1.unit.Around id owner)) ∨
    d.unit.type? id = none ∧ (d.apply step).1.Behind t.span

theorem stretched_owned {f : TypeDecl → TypeDecl}
    (hstep : (d.apply step).1 = (e.modifyType owner f).closeOwner owner) (hf : KeepsPlace f)
    (howner : step.owner? = some owner)
    (hadded : ∀ t, e.unit.type? id = some t →
      d.unit.type? id = some t ∨ d.unit.type? id = none ∧ e.Behind t.span)
    (ht : (d.apply step).1.unit.type? id = some t) : d.Stretched step id t := by
  have hcursor : (d.apply step).1.cursor = e.cursor := by
    rw [hstep, closeOwner_eq]
    rfl
  rw [Stretched, Behind, hcursor]
  rw [hstep] at ht
  obtain ⟨s, hs, hspan⟩ := type?_owned hf ht
  rw [← hstep] at hspan
  rcases hadded s hs with hold | ⟨hnew, hbehind⟩
  · refine .inl ⟨s, hold, hspan.imp_right fun hspan => ⟨hspan.1, owner, howner, hspan.2⟩⟩
  · refine .inr ⟨hnew, ?_⟩
    rcases hspan with hspan | ⟨hspan, -⟩
    · rw [hspan]
      exact hbehind
    · rw [hspan]
      exact hbehind.extend

theorem type?_apply (ht : (d.apply step).1.unit.type? id = some t) : d.Stretched step id t := by
  cases hs : d.unknown? step with
  | some unknown =>
    rw [apply_of_unknown hs] at ht
    exact .inl ⟨t, ht, .inl rfl⟩
  | none =>
    cases step with
    | withScope scope => exact .inl ⟨t, ht, .inl rfl⟩
    | declare spec =>
      obtain ⟨cursor, new, heq, hbare, -, -, -, hwrites, -, -, hroom⟩ :=
        declare_eq ((unknown?_declare d spec).mp hs)
      have hparent : new.parent = spec.parent := congrArg TypeDecl.parent hbare
      have hstep : (d.apply (.declare spec)).1 = ({ d with cursor }.addType new).1 := by
        simp only [apply, heq]
      have hadded : ∀ t, { d.unit with types := d.unit.types.push new }.type? id = some t →
          d.unit.type? id = some t ∨ d.unit.type? id = none ∧ { d with cursor }.Behind t.span := by
        intro t ht
        refine (type?_pushType_inv ht).imp_right fun hnew => ⟨hnew.1, ?_⟩
        rw [hnew.2]
        exact ⟨hwrites.stop, hroom⟩
      cases hp : new.parent.isAbsent with
      | false =>
        have howner : (Step.declare spec).owner? = some new.parent := by
          simp [Step.owner?, Handle.present?, ← hparent, hp]
        rw [addType_nested hp] at hstep
        exact stretched_owned hstep ⟨fun _ => rfl, fun _ => rfl, fun _ => rfl⟩ howner hadded ht
      | true =>
        rw [addType_top hp] at hstep
        rw [Stretched, hstep]
        rw [hstep] at ht
        exact (hadded t ht).imp_left fun hold => ⟨t, hold, .inl rfl⟩
    | setBase target base =>
      obtain ⟨hbase, hid⟩ := (unknown?_setBase d target base).mp hs
      have hf : KeepsPlace fun t => { t with base := base } :=
        ⟨fun _ => rfl, fun _ => rfl, fun _ => rfl⟩
      simp only [apply, setBase, hbase, hid, if_true] at ht
      obtain ⟨old, hold, hspan⟩ := type?_modifyType hf ht
      exact .inl ⟨old, hold, .inl hspan⟩
    | addConstructor owner spec =>
      obtain ⟨cursor, c, heq, hbare, -⟩ :=
        addConstructor_eq spec ((unknown?_addConstructor d owner spec).mp hs)
      have howner : c.owner = owner := congrArg Ctor.owner hbare
      have hstep : (d.apply (.addConstructor owner spec)).1 = ({ d with cursor }.addCtor c).1 := by
        simp only [apply, heq]
      rw [addCtor_eq] at hstep
      exact stretched_owned hstep ⟨fun _ => rfl, fun _ => rfl, fun _ => rfl⟩
        (congrArg some howner.symm) (fun _ ht => .inl ht) ht
    | create enclosing target argCount =>
      obtain ⟨cursor, c, heq, hbare, -⟩ := create_eq argCount
        ((unknown?_create d enclosing target argCount).symm.trans hs)
      have henclosing : c.enclosing = enclosing := congrArg Creation.enclosing hbare
      have hstep : (d.apply (.create enclosing target argCount)).1 =
          ({ d with cursor }.addCreation c).1 := by
        simp only [apply, heq]
      cases hc : c.enclosing.isAbsent with
      | false =>
        have howner : (Step.create enclosing target argCount).owner? = some c.enclosing := by
          simp [Step.owner?, Handle.present?, ← henclosing, hc]
        rw [addCreation_enclosed hc] at hstep
        exact stretched_owned hstep ⟨fun _ => rfl, fun _ => rfl, fun _ => rfl⟩ howner
          (fun _ ht => .inl ht) ht
      | true =>
        rw [hstep, addCreation_top hc] at ht
        exact .inl ⟨t, ht, .inl rfl⟩

-- ---------------------------------------------------------------------------
-- Runs
-- ---------------------------------------------------------------------------

/-- All types end before the cursor, and none is empty. -/
def TypesBehind (d : Draft) : Prop := ∀ id t, d.unit.type? id = some t → d.Behind t.span

theorem typesBehind_apply (h : d.TypesBehind) : (d.apply step).1.TypesBehind := by
  have hcursor := (starts_apply d step).1
  have hlater : ∀ s, d.Behind s → (d.apply step).1.Behind s := fun s hs =>
    ⟨UInt32.le_trans hs.1 hcursor, fun hne => hs.2 (ne_last_of_le hcursor hne)⟩
  intro id t ht
  rcases type?_apply ht with ⟨old, hold, hspan | ⟨hspan, -⟩⟩ | ⟨-, hbehind⟩
  · rw [hspan]
    exact hlater _ (h id old hold)
  · rw [hspan]
    exact (hlater _ (h id old hold)).extend
  · exact hbehind

theorem typesBehind_run (h : d.TypesBehind) (steps : List Step) : (d.run steps).TypesBehind :=
  run_of_apply (fun _ _ => typesBehind_apply) h steps

theorem typesBehind_start (file : String) : (start file).TypesBehind := by
  intro id t ht
  simp [start, CompilationUnit.type?] at ht

/-- A run that declares nothing inside a type leaves its span as it is. -/
theorem span_run (hid : d.knows id = true) {steps : List Step}
    (hout : ∀ step ∈ steps, ∀ owner ∈ step.owner?, ¬ (d.run steps).unit.Around id owner)
    (ht : (d.run steps).unit.type? id = some t) :
    ∃ old, d.unit.type? id = some old ∧ t.span = old.span := by
  induction steps generalizing d with
  | nil => exact ⟨t, ht, rfl⟩
  | cons step rest ih =>
    obtain ⟨hstep, hrest⟩ := List.forall_mem_cons.mp hout
    obtain ⟨s, hs, hspan⟩ := ih (knows_apply hid) hrest ht
    rcases type?_apply hs with ⟨old, hold, hsame | ⟨-, owner, howner, haround⟩⟩ | ⟨hnone, -⟩
    · exact ⟨old, hold, hspan.trans hsame⟩
    -- What is around a type when it is extended is still around it in the end.
    · exact absurd (haround.mono (parents_prefix_run _ rest)) (hstep owner howner)
    · rw [knows, hnone] at hid
      cases hid

end Draft

end CtorArity
