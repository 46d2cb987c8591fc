import CtorArity.Proofs.Containment
import CtorArity.Proofs.Report

/-!
# From issues to diagnostics

A diagnostic keeps the start and the length of a span, and no length can be told
of an inverted one. In a finished unit no span is inverted (`LaidOut`), so all
issues of a check become diagnostics, and these point where the issues do.
-/

namespace CtorArity

-- ---------------------------------------------------------------------------
-- Lengths of ordered spans
-- ---------------------------------------------------------------------------

namespace Span

variable {s : Span}

theorem length_eq (h : s.Ordered) : s.length = .ok (s.stop - s.start) := by
  unfold length
  exact if_pos h

theorem ofLength_sub (h : s.Ordered) : ofLength s.start (s.stop - s.start) = s := by
  have hle : s.start.toNat ≤ s.stop.toNat := UInt32.le_iff_toNat_le.mp h
  have hstop : Saturating.add s.start (s.stop - s.start) = s.stop := by
    apply UInt32.toNat_inj.mp
    have hlt := s.stop.toNat_lt
    rw [Saturating.toNat_add, UInt32.toNat_sub_of_le _ _ h]
    omega
  simp only [ofLength, hstop]

end Span

theorem Notice.make_eq {span : Span} (h : span.Ordered) (file text : String)
    (category : Category) (code : UInt32) :
    make file span text category code =
      .ok ⟨file, span.start, span.stop - span.start, text, category, code⟩ := by
  simp only [make, Span.length_eq h]
  rfl

-- ---------------------------------------------------------------------------
-- One issue
-- ---------------------------------------------------------------------------

namespace Issue

variable {i : Issue}

/-- Neither the span of the issue nor that of what it points at is inverted. -/
structure Ordered (i : Issue) : Prop where
  span : i.span.Ordered
  related : ∀ also ∈ i.related, also.span.Ordered

structure ShownBy (i : Issue) (d : Diagnostic) : Prop where
  span : d.span = i.span
  related : List.Forall₂ (fun (also : SeeAlso) (n : Notice) =>
    n.start = also.span.start ∧ also.span.length = .ok n.length) i.related.toList d.related

theorem exists_shownBy (h : i.Ordered) (file : String) (category : Category) :
    ∃ d, i.toDiagnostic file category = .ok d ∧ i.ShownBy d := by
  let shown : Notice :=
    ⟨file, i.span.start, i.span.stop - i.span.start, i.message, category, i.code⟩
  have hmake : Diagnostic.make file i.span i.message category i.code = .ok ⟨shown, []⟩ := by
    simp only [Diagnostic.make, Notice.make_eq h.span]
    rfl
  have hspan : shown.span = i.span := Span.ofLength_sub h.span
  cases hrelated : i.related with
  | none =>
    refine ⟨⟨shown, []⟩, ?_, hspan, ?_⟩
    · simp only [toDiagnostic, hmake, hrelated]
      rfl
    · rw [hrelated]
      exact .nil
  | some also =>
    have halso := h.related also hrelated
    refine ⟨⟨shown, [⟨file, also.span.start, also.span.stop - also.span.start, also.message,
      .message, 0⟩]⟩, ?_, hspan, ?_⟩
    · simp only [toDiagnostic, hmake, hrelated]
      show Diagnostic.withRelated ⟨shown, []⟩ file also.span also.message = _
      simp only [Diagnostic.withRelated, Notice.make_eq halso]
      rfl
    · rw [hrelated]
      exact .cons ⟨rfl, Span.length_eq halso⟩ .nil

end Issue

theorem exists_mapM_forall₂ {f : α → Except ε β} {R : α → β → Prop} {l : List α}
    (h : ∀ a ∈ l, ∃ b, f a = .ok b ∧ R a b) : ∃ bs, l.mapM f = .ok bs ∧ List.Forall₂ R l bs := by
  induction l with
  | nil => exact ⟨[], rfl, .nil⟩
  | cons a rest ih =>
    obtain ⟨⟨b, hb, hR⟩, hrest⟩ := List.forall_mem_cons.mp h
    obtain ⟨bs, hbs, hforall⟩ := ih hrest
    refine ⟨b :: bs, ?_, .cons hR hforall⟩
    simp only [List.mapM_cons, hb, hbs]
    rfl

-- ---------------------------------------------------------------------------
-- All issues of a check
-- ---------------------------------------------------------------------------

namespace CompilationUnit

variable {u : CompilationUnit} {r : Resolver} {o : Options} {item : Item} {issue : Issue}

theorem LaidOut.typeNameSpan (h : u.LaidOut) (id : TypeId) : (u.typeNameSpan id).Ordered := by
  unfold CompilationUnit.typeNameSpan
  split
  · exact UInt32.le_refl _
  · next t ht =>
    have hplace := h.inPlace.types t (Array.mem_of_getElem? (getElem?_of_type? ht))
    split
    · exact hplace.ordered
    · exact hplace.name_ordered

theorem LaidOut.declaredHere? (h : u.LaidOut) (id : TypeId) :
    ∀ also ∈ u.declaredHere? id, also.span.Ordered := by
  intro also halso
  obtain ⟨t, -, rfl⟩ := Option.map_eq_some_iff.mp halso
  exact h.typeNameSpan id

theorem LaidOut.finding? (h : u.LaidOut) (hfound : u.finding? r o item = some issue) :
    issue.Ordered := by
  cases item with
  | type id =>
    obtain ⟨f, -, rfl⟩ := Option.map_eq_some_iff.mp hfound
    exact ⟨h.typeNameSpan f.derived, h.declaredHere? f.base⟩
  | creation id =>
    rw [CompilationUnit.finding?, Option.ite_none_right_eq_some] at hfound
    obtain ⟨-, hfound⟩ := hfound
    obtain ⟨f, -, rfl⟩ := Option.map_eq_some_iff.mp hfound
    refine ⟨?_, h.declaredHere? f.target⟩
    simp only [issueOfCreation, creationIssue]
    cases hc : u.creation? f.creation with
    | none => exact UInt32.le_refl _
    | some c =>
      have hmem := Array.mem_of_getElem? (getElem?_of_creation? hc)
      exact (h.inPlace.creations c hmem).ordered

theorem LaidOut.check (h : u.LaidOut) (r : Resolver) (o : Options) (signal : Signal) :
    ∀ issue ∈ (u.check r o signal).bag.issues.toList, issue.Ordered := by
  refine forall_issues_checkItems (fun item issue order hfound => ?_) signal u.topLevelItems
    (.start u.fileName) (by simp [Run.start, IssueBag.empty])
  have hordered := h.finding? hfound
  exact ⟨hordered.span, hordered.related⟩

/-- Whatever the steps that finish, all spans of the unit are laid out as its
declarations are owned; so under any options its check gives a diagnostic for
each issue, at the place of the issue. -/
theorem laidOut_and_diagnostics {file : String} {steps : List Step}
    (h : (Draft.after file steps).finish = .ok u) :
    u.LaidOut ∧ ∀ o, ∃ shown, u.diagnostics o = .ok shown ∧
      List.Forall₂ Issue.ShownBy (u.check u.resolver o .never).bag.issues.toList shown := by
  obtain ⟨-, -, -, rfl⟩ := Draft.finish_eq_ok.mp h
  have hlaid := Draft.laidOut_after file steps
  refine ⟨hlaid, fun o => exists_mapM_forall₂ fun issue hissue => ?_⟩
  exact Issue.exists_shownBy (hlaid.check _ o .never issue hissue) _ _

/-- A class takes up all offsets in one initializer clause; what comes after it
has no room left. -/
def crowded : List Step :=
  [.topClass "A", .nestedClass ⟨0⟩ "B", .extending ⟨1⟩ ⟨0⟩, .nestedClass ⟨1⟩ "",
    .addConstructor ⟨2⟩ { initializer := some (.base, 0xFFFFFFFF) },
    .addConstructor ⟨0⟩ { params := [⟨"p", false, false⟩] }, .nestedClass ⟨0⟩ "Late",
    .extending ⟨3⟩ ⟨0⟩, .instantiating ⟨3⟩ ⟨0⟩ 7, .instantiating .absent ⟨0⟩ 0xFFFFFFFF]

theorem crowded_laidOut_and_diagnostics :
    (Draft.after "a.cs" crowded).finish = .ok (Draft.after "a.cs" crowded).unit ∧
      (Draft.after "a.cs" crowded).cursor = 0xFFFFFFFF ∧
      (Draft.after "a.cs" crowded).unit.LaidOut ∧
      ∃ shown, (Draft.after "a.cs" crowded).unit.diagnostics {} = .ok shown ∧
        List.Forall₂ Issue.ShownBy ((Draft.after "a.cs" crowded).unit.check
          (Draft.after "a.cs" crowded).unit.resolver {} .never).bag.issues.toList shown := by
  have hfinish : (Draft.after "a.cs" crowded).finish = .ok (Draft.after "a.cs" crowded).unit := rfl
  obtain ⟨hlaid, hshown⟩ := laidOut_and_diagnostics hfinish
  exact ⟨hfinish, by decide +kernel, hlaid, hshown {}⟩

end CompilationUnit

end CtorArity
