import Mathlib.Tactic.Common

/-! # The types of Go, as reflection sees them

A type is defined somewhere, and then has a name, or it is written down: a pointer, an interface
with its methods, or any other literal. Two types are identical if they are equal; the methods of an
interface are kept in one order. `assignableTo` is the test that a reflective call makes on its
arguments, channels apart: a pointer can be passed where its own type is the underlying one, or
where an interface is expected that it implements (`assignableTo_ptr`). -/

namespace Frpc.Lib.GoTypes

variable {N : Type*} [DecidableEq N]

/-- A method: its name, and its function type. -/
structure MethodSig (N : Type*) where
  name : N
  type : ℕ
deriving DecidableEq

/-- `reflect.Kind`: pointers, interfaces, and the others by a number. -/
inductive Kind
  | ptr
  | interface
  | other (k : ℕ)
deriving DecidableEq

/-- `reflect.Type` -/
inductive GoType (N : Type*)
  | named (i : ℕ)
  | ptr (elem : GoType N)
  | interface (methods : List (MethodSig N))
  | literal (kind i : ℕ)
deriving DecidableEq

/-- The declaration of a named type. The types that Go has itself are in no package. -/
structure Decl (N : Type*) where
  name : N
  pkgPath : Option N
  underlying : GoType N
  underlying_ne : ∀ i, underlying ≠ .named i

/-- The types of a program: the declarations, and the method sets of the types that are not
interfaces. -/
structure Types (N : Type*) where
  decl : ℕ → Decl N
  methodSet : GoType N → List (MethodSig N)

namespace Types

variable (types : Types N)

/-- The type that a defined type stands for. -/
def underlying : GoType N → GoType N
  | .named i => (types.decl i).underlying
  | t => t

/-- `t.Name()`; a type that is only written down has none. -/
def name : GoType N → Option N
  | .named i => some (types.decl i).name
  | _ => none

/-- `t.PkgPath()` -/
def pkgPath : GoType N → Option N
  | .named i => (types.decl i).pkgPath
  | _ => none

/-- `t.Kind()` -/
def kind (t : GoType N) : Kind :=
  match types.underlying t with
  | .ptr _ => .ptr
  | .interface _ => .interface
  | .literal k _ => .other k
  -- not reached
  | .named _ => .other 0

/-- `t.Elem()` of a pointer. -/
def elem (t : GoType N) : Option (GoType N) :=
  match types.underlying t with
  | .ptr e => some e
  | _ => none

/-- The method set of a type. -/
def methods (t : GoType N) : List (MethodSig N) :=
  match types.underlying t with
  | .interface ms => ms
  | _ => types.methodSet t

/-- `v.Implements(t)` -/
def implements (v t : GoType N) : Bool :=
  match types.underlying t with
  | .interface ms => ms.all fun m => decide (m ∈ types.methods v)
  | _ => false

/-- `directlyAssignable(t, v)`: the same type, or the same underlying type where one of them has no
name. -/
def directlyAssignable (t v : GoType N) : Bool :=
  t = v ||
    (!((types.name t).isSome && (types.name v).isSome) && types.kind t = types.kind v &&
      types.underlying t = types.underlying v)

/-- `v.AssignableTo(t)` -/
def assignableTo (v t : GoType N) : Bool := types.directlyAssignable t v || types.implements v t

variable {types}

theorem assignableTo_self (t : GoType N) : types.assignableTo t t = true := by
  unfold assignableTo directlyAssignable
  simp

omit [DecidableEq N] in
theorem kind_eq_ptr {t : GoType N} : types.kind t = .ptr ↔ (types.elem t).isSome := by
  unfold kind elem
  cases types.underlying t <;> simp

omit [DecidableEq N] in
theorem elem_eq_some {t e : GoType N} : types.elem t = some e ↔ types.underlying t = .ptr e := by
  unfold elem
  cases types.underlying t <;> simp

/-- A pointer can be passed where its type is the underlying one, and where an interface is expected
that it implements. -/
theorem assignableTo_ptr (e t : GoType N) :
    types.assignableTo (.ptr e) t = true ↔
      types.underlying t = .ptr e ∨ types.implements (.ptr e) t = true := by
  have hname : types.name (.ptr e) = none := rfl
  have hunder : types.underlying (.ptr e) = .ptr e := rfl
  unfold assignableTo directlyAssignable
  rw [Bool.or_eq_true, Bool.or_eq_true, Bool.and_eq_true, Bool.and_eq_true, decide_eq_true_iff,
    decide_eq_true_iff, decide_eq_true_iff, hname, hunder]
  refine or_congr_left ⟨?_, fun h => Or.inr ⟨⟨?_, ?_⟩, h⟩⟩
  · rintro (rfl | ⟨-, h⟩)
    · rfl
    · exact h
  · simp
  · unfold kind
    rw [h, hunder]

/-- A new value of a pointer type can be passed for it, whether the type has a name or not. -/
theorem assignableTo_of_elem {t e : GoType N} (h : types.elem t = some e) :
    types.assignableTo (.ptr e) t = true :=
  (assignableTo_ptr e t).mpr (Or.inl (elem_eq_some.mp h))

end Types

end Frpc.Lib.GoTypes
