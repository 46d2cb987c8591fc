/-!
# Handles

A declaration is named by its position in its unit's table of that kind. The
largest word is no position: it stands for "nothing", as the parent of a
top-level type or the owner of a top-level statement.
-/

namespace CtorArity

/-- What a handle names. -/
inductive Entity
  | type
  | ctor
  | creation
  | scope
  deriving DecidableEq, Repr

structure Handle (entity : Entity) where
  raw : UInt32
  deriving DecidableEq, Repr, Inhabited

abbrev TypeId := Handle .type
abbrev CtorId := Handle .ctor
abbrev CreationId := Handle .creation
abbrev ScopeId := Handle .scope

namespace Handle

variable {entity : Entity}

def absent : Handle entity := ⟨0xFFFFFFFF⟩

def isAbsent (h : Handle entity) : Bool := h == absent

def index (h : Handle entity) : Nat := h.raw.toNat

def ofIndex (n : Nat) : Handle entity := ⟨UInt32.ofNat n⟩

/-- The handle itself, unless it is the absent one. -/
def present? (h : Handle entity) : Option (Handle entity) :=
  if h.isAbsent then none else some h

theorem index_ofIndex {n : Nat} (h : n ≤ 0xFFFFFFFF) : (ofIndex n : Handle entity).index = n := by
  simp only [index, ofIndex, UInt32.toNat_ofNat']
  omega

theorem index_inj {a b : Handle entity} (h : a.index = b.index) : a = b := by
  cases a
  cases b
  simp only [index] at h
  exact congrArg Handle.mk (UInt32.toNat_inj.mp h)

end Handle

/-- The scope of a unit that names no other. -/
def ScopeId.own : ScopeId := ⟨0⟩

end CtorArity
