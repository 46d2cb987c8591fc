import CtorArity.Proofs.Stretching
import Mathlib.Logic.Relation
import Mathlib.Order.Defs.Unbundled

/-!
# Nesting

Which type stands in which a unit says twice: a type names the one around it, and
lists those in it. The walk outwards ends, since parents stand earlier in the table
(`walksOut_ancestorsAndSelf`), and the types it passes are those from which the lists
lead down to where it started (`reflTransGen_of_around`, `around_of_reflTransGen`). So
the types of a finished unit are ordered like the nodes of a forest
(`finish_nesting`).
-/

namespace CtorArity

namespace CompilationUnit

variable {u : CompilationUnit} {id inner outer outer' : TypeId} {t : TypeDecl}
  {start : Option TypeId} {walk : List TypeId}

-- ---------------------------------------------------------------------------
-- The walk outwards
-- ---------------------------------------------------------------------------

/-- The whole walk from a handle outwards: after each handle comes the parent of
its type, and the walk ends where there is none. Nothing bounds its length. -/
inductive WalksOut (u : CompilationUnit) : Option TypeId → List TypeId → Prop
  | done : WalksOut u none []
  | step {id : TypeId} {walk : List TypeId} :
      WalksOut u ((u.type? id).bind (·.parent.present?)) walk → WalksOut u (some id) (id :: walk)

theorem WalksOut.unique (h : u.WalksOut start walk) (h' : u.WalksOut start walk') :
    walk = walk' := by
  induction h generalizing walk' with
  | done =>
    cases h'
    rfl
  | step _ ih =>
    cases h' with
    | step hnext => rw [ih hnext]

theorem walksOut_of_unknown (h : u.type? id = none) (steps : Nat) :
    u.WalksOut id.present? (u.ancestorsWithin (steps + 1) id) := by
  cases hid : id.isAbsent
  · have hnext : u.WalksOut ((u.type? id).bind (·.parent.present?)) [] := h.symm ▸ .done
    simpa [Handle.present?, ancestorsWithin, hid, h] using WalksOut.step hnext
  · simpa [Handle.present?, ancestorsWithin, hid] using WalksOut.done

theorem WalksOut.cons (ht : u.type? id = some t) (h : u.WalksOut t.parent.present? walk) :
    u.WalksOut id.present? (id :: walk) := by
  have hnext : u.WalksOut ((u.type? id).bind (·.parent.present?)) walk := ht.symm ▸ h
  simpa [Handle.present?, isAbsent_of_type? ht] using WalksOut.step hnext

theorem walksOut_ancestorsWithin (h : u.outline.Closed) {steps : Nat}
    (hsteps : ∀ t, u.type? id = some t → id.index < steps) :
    u.WalksOut id.present? (u.ancestorsWithin (steps + 1) id) := by
  induction steps generalizing id with
  | zero =>
    cases ht : u.type? id with
    | none => exact walksOut_of_unknown ht 0
    | some t => exact absurd (hsteps t ht) (Nat.not_lt_zero _)
  | succ steps ih =>
    cases ht : u.type? id with
    | none => exact walksOut_of_unknown ht _
    | some t =>
      have hparent : ∀ p, u.type? t.parent = some p → t.parent.index < steps := by
        intro p hp
        have hlt := parent_index_lt h ht (isAbsent_of_type? hp)
        have hle := hsteps t ht
        omega
      rw [ancestorsWithin, isAbsent_of_type? ht, ht]
      exact (ih hparent).cons ht

theorem walksOut_ancestorsAndSelf (h : u.outline.Closed) (id : TypeId) :
    u.WalksOut id.present? (u.ancestorsAndSelf id) :=
  walksOut_ancestorsWithin h fun _ ht =>
    (Array.getElem?_eq_some_iff.mp (getElem?_of_type? ht)).1

theorem ancestorsAndSelf_eq (h : u.outline.Closed) (ht : u.type? id = some t) :
    u.ancestorsAndSelf id = id :: u.ancestorsAndSelf t.parent :=
  (walksOut_ancestorsAndSelf h id).unique ((walksOut_ancestorsAndSelf h t.parent).cons ht)

theorem WalksOut.descends (h : u.outline.Closed) (hw : u.WalksOut start walk) :
    walk.Pairwise (fun a b => b.index < a.index) ∧
      ∀ id ∈ start, ∀ a ∈ walk, a.index ≤ id.index := by
  induction hw with
  | done => simp
  | @step id walk hw ih =>
    obtain ⟨hpairwise, hstart⟩ := ih
    have hbelow : ∀ a ∈ walk, a.index < id.index := by
      intro a ha
      cases hnext : (u.type? id).bind (·.parent.present?) with
      | none =>
        rw [hnext] at hw
        cases hw
        cases ha
      | some parent =>
        obtain ⟨t, ht, hparent⟩ := Option.bind_eq_some_iff.mp hnext
        obtain ⟨hpresent, heq⟩ := Option.ite_none_left_eq_some.mp hparent
        obtain rfl := Option.some.inj heq
        have hlt := parent_index_lt h ht (Bool.eq_false_iff.mpr hpresent)
        exact Nat.lt_of_le_of_lt (hstart _ hnext a ha) hlt
    refine ⟨.cons hbelow hpairwise, ?_⟩
    rintro _ ⟨⟩ a ha
    rcases List.mem_cons.mp ha with rfl | ha
    · exact Nat.le_refl _
    · exact Nat.le_of_lt (hbelow a ha)

theorem nodup_ancestorsAndSelf (h : u.outline.Closed) (id : TypeId) :
    (u.ancestorsAndSelf id).Nodup := by
  refine ((walksOut_ancestorsAndSelf h id).descends h).1.imp ?_
  rintro a _ hlt rfl
  exact Nat.lt_irrefl _ hlt

-- ---------------------------------------------------------------------------
-- The types around a type
-- ---------------------------------------------------------------------------

theorem mem_ancestorsAndSelf_iff (h : u.outline.Closed) :
    outer ∈ u.ancestorsAndSelf inner ↔ outer.isAbsent = false ∧ u.Around outer inner := by
  constructor
  · intro hmem
    exact ⟨isAbsent_of_mem_ancestorsWithin hmem, around_of_mem_ancestorsWithin hmem⟩
  · rintro ⟨hpresent, haround⟩
    induction haround with
    | self => exact self_mem_ancestorsAndSelf u hpresent
    | parent ht _ ih =>
      rw [ancestorsAndSelf_eq h ht]
      exact List.mem_cons_of_mem _ ih

theorem nestedWithin_iff (h : u.outline.Closed) (houter : outer.isAbsent = false) :
    u.nestedWithin inner outer = true ↔ u.Around outer inner := by
  rw [nestedWithin, houter, Bool.not_false, Bool.true_and, List.contains_iff_mem,
    mem_ancestorsAndSelf_iff h, and_iff_right houter]

theorem Around.trans (h : u.Around outer' outer) (h' : u.Around outer inner) :
    u.Around outer' inner := by
  induction h' with
  | self => exact h
  | parent ht _ ih => exact .parent ht ih

theorem Around.index_le (h : u.outline.Closed) (houter : outer.isAbsent = false)
    (haround : u.Around outer inner) : outer.index ≤ inner.index := by
  have hmem := (mem_ancestorsAndSelf_iff h).mpr ⟨houter, haround⟩
  have hinner : inner.present? = some inner := by
    cases haround with
    | self => simp [Handle.present?, houter]
    | parent ht => simp [Handle.present?, isAbsent_of_type? ht]
  exact ((walksOut_ancestorsAndSelf h inner).descends h).2 inner hinner outer hmem

theorem Around.comparable (h : u.Around outer inner) (h' : u.Around outer' inner) :
    u.Around outer' outer ∨ u.Around outer outer' := by
  induction h with
  | self => exact .inl h'
  | parent ht h ih =>
    cases h' with
    | self => exact .inr (.parent ht h)
    | parent ht' h' =>
      obtain rfl := Option.some.inj (ht.symm.trans ht')
      exact ih h'

-- ---------------------------------------------------------------------------
-- The lists of nested types
-- ---------------------------------------------------------------------------

/-- The outer type lists the inner one. -/
def Nests (u : CompilationUnit) (outer inner : TypeId) : Prop :=
  ∃ t, u.type? outer = some t ∧ inner ∈ t.nested

theorem nested_eq (h : u.Linked) (ht : u.type? id = some t) :
    t.nested = handlesWhere (·.parent == id) u.types.toList := by
  have hlists := congrArg Contents.types (h.contents id)
  simp only [contents, isAbsent_of_type? ht, ht, Outline.contents, outline, handlesWhere_map]
    at hlists
  exact hlists

theorem nests_parent (h : u.Linked) (ht : u.type? id = some t)
    (hp : t.parent.isAbsent = false) : u.Nests t.parent id := by
  have hnames := (names_parent h.closed ht hp).1
  obtain ⟨p, hparent⟩ := Option.isSome_iff_exists.mp (names_iff.mp hnames)
  have hlisted : id ∈ handlesWhere (·.parent == t.parent) u.types.toList :=
    mem_handlesWhere_of_getElem? (by simpa using getElem?_of_type? ht) (beq_self_eq_true _)
  exact ⟨p, hparent, (nested_eq h hparent).symm ▸ hlisted⟩

/-- In a larger table handles come round again, and a list may name another type. -/
theorem parent_of_nests (h : u.Linked) (hsize : u.types.size ≤ 0xFFFFFFFF)
    (hnests : u.Nests outer inner) : ∃ t, u.type? inner = some t ∧ t.parent = outer := by
  obtain ⟨p, hp, hlisted⟩ := hnests
  rw [nested_eq h hp, mem_handlesWhere (by simpa using hsize)] at hlisted
  rw [type?_eq_getElem? hsize]
  simpa using hlisted

theorem reflTransGen_of_around (h : u.Linked) (houter : outer.isAbsent = false)
    (haround : u.Around outer inner) : Relation.ReflTransGen u.Nests outer inner := by
  induction haround with
  | self => exact .refl
  | @parent id t ht haround ih =>
    have hp : t.parent.isAbsent = false := by
      cases hp : t.parent.isAbsent
      · rfl
      · exact absurd (Handle.isAbsent_iff.mp hp ▸ haround) (not_around_absent houter)
    exact ih.tail (nests_parent h ht hp)

theorem around_of_reflTransGen (h : u.Linked) (hsize : u.types.size ≤ 0xFFFFFFFF)
    (hdown : Relation.ReflTransGen u.Nests outer inner) : u.Around outer inner := by
  induction hdown with
  | refl => exact .self
  | tail _ hnests ih =>
    obtain ⟨t, ht, rfl⟩ := parent_of_nests h hsize hnests
    exact .parent ht ih

-- ---------------------------------------------------------------------------
-- The order of the types
-- ---------------------------------------------------------------------------

abbrev DeclaredType (u : CompilationUnit) : Type := { id : TypeId // (u.type? id).isSome = true }

/-- The unit's own resolver has the first type stand within the second. -/
def DeclaredType.Within (inner outer : u.DeclaredType) : Prop :=
  u.resolver.nestedWithin inner.1 outer.1 = true

theorem DeclaredType.isAbsent_eq (a : u.DeclaredType) : a.1.isAbsent = false := by
  obtain ⟨t, ht⟩ := Option.isSome_iff_exists.mp a.2
  exact isAbsent_of_type? ht

theorem DeclaredType.within_iff (h : u.outline.Closed) {a b : u.DeclaredType} :
    a.Within b ↔ u.Around b.1 a.1 :=
  nestedWithin_iff h b.isAbsent_eq

theorem isPartialOrder_within (h : u.outline.Closed) :
    IsPartialOrder u.DeclaredType DeclaredType.Within where
  refl a := (DeclaredType.within_iff h).mpr .self
  trans a b c hab hbc := by
    rw [DeclaredType.within_iff h] at hab hbc ⊢
    exact hbc.trans hab
  antisymm a b hab hba := by
    rw [DeclaredType.within_iff h] at hab hba
    have hle := hab.index_le h b.isAbsent_eq
    have hge := hba.index_le h a.isAbsent_eq
    exact Subtype.ext (Handle.index_inj (Nat.le_antisymm hge hle))

theorem DeclaredType.comparable (h : u.outline.Closed) {a b c : u.DeclaredType}
    (hab : a.Within b) (hac : a.Within c) : b.Within c ∨ c.Within b := by
  rw [within_iff h] at hab hac
  rw [within_iff h, within_iff h]
  exact hab.comparable hac

end CompilationUnit

namespace Draft

open CompilationUnit

/-- In a finished unit the walk outwards from a handle ends and meets no type twice.
Where one type is within another, the lists of nested types lead from the other one
down to it, and only there, as long as every type has a handle of its own. So nesting
is a partial order in which any two types around a third are around one another. -/
theorem finish_nesting {file : String} {steps : List Step} {u : CompilationUnit}
    (h : (after file steps).finish = .ok u) :
    (∀ id, (∀ walk, u.WalksOut id.present? walk ↔ walk = u.ancestorsAndSelf id) ∧
        (u.ancestorsAndSelf id).Nodup) ∧
      (∀ inner outer : u.DeclaredType,
        (inner.Within outer → Relation.ReflTransGen u.Nests outer.1 inner.1) ∧
          (u.types.size ≤ 0xFFFFFFFF →
            Relation.ReflTransGen u.Nests outer.1 inner.1 → inner.Within outer)) ∧
      IsPartialOrder u.DeclaredType DeclaredType.Within ∧
      ∀ inner outer outer' : u.DeclaredType, inner.Within outer → inner.Within outer' →
        outer.Within outer' ∨ outer'.Within outer := by
  obtain ⟨-, -, -, rfl⟩ := finish_eq_ok.mp h
  have hlinked : (after file steps).unit.Linked := linked_run (linked_start file) steps
  have hclosed := hlinked.closed
  refine ⟨fun id => ⟨fun walk => ⟨fun hwalk => ?_, ?_⟩, nodup_ancestorsAndSelf hclosed id⟩,
    fun inner outer => ?_, isPartialOrder_within hclosed,
    fun _ _ _ => DeclaredType.comparable hclosed⟩
  · exact hwalk.unique (walksOut_ancestorsAndSelf hclosed id)
  · rintro rfl
    exact walksOut_ancestorsAndSelf hclosed id
  · rw [DeclaredType.within_iff hclosed]
    exact ⟨reflTransGen_of_around hlinked outer.isAbsent_eq, around_of_reflTransGen hlinked⟩

def boxes : List Step :=
  [.topClass "A", .nestedClass ⟨0⟩ "B", .topClass "C", .nestedClass ⟨1⟩ "D", .nestedClass ⟨0⟩ "E",
    .nestedClass ⟨3⟩ "F", .extending ⟨0⟩ ⟨5⟩]

theorem finish_nesting_boxes :
    (after "a.cs" boxes).finish = .ok (after "a.cs" boxes).unit ∧
      (after "a.cs" boxes).unit.types.size ≤ 0xFFFFFFFF ∧
      (after "a.cs" boxes).unit.WalksOut (some ⟨5⟩) [⟨5⟩, ⟨3⟩, ⟨1⟩, ⟨0⟩] ∧
      Relation.ReflTransGen (after "a.cs" boxes).unit.Nests ⟨0⟩ ⟨5⟩ ∧
      ¬ Relation.ReflTransGen (after "a.cs" boxes).unit.Nests ⟨4⟩ ⟨5⟩ := by
  have hfinish : (after "a.cs" boxes).finish = .ok (after "a.cs" boxes).unit := rfl
  have hsize : (after "a.cs" boxes).unit.types.size ≤ 0xFFFFFFFF := by decide
  obtain ⟨hwalks, hlists, -, -⟩ := finish_nesting hfinish
  refine ⟨hfinish, hsize, ((hwalks ⟨5⟩).1 _).mpr rfl, ?_, fun hdown => ?_⟩
  · exact (hlists ⟨⟨5⟩, rfl⟩ ⟨⟨0⟩, rfl⟩).1 rfl
  · have hwithin := (hlists ⟨⟨5⟩, rfl⟩ ⟨⟨4⟩, rfl⟩).2 hsize hdown
    cases hwithin

end Draft

end CtorArity
