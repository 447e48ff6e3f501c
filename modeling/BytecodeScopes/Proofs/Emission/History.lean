import BytecodeScopes.Label
import Mathlib.Data.List.Basic

/-!
The history of a body of code: the pieces written, in order, and the labels resolved, in order. The
code that a history stands for is the pieces one after another, where the operand of a label is two
zero bytes until the label is resolved and the distance to its target from then on.
-/

namespace BytecodeScopes

inductive Piece where
  | plain (bytes : List UInt8)
  | operand (label : Label)
  deriving DecidableEq, Repr

namespace Piece

def size : Piece → Nat
  | .plain bytes => bytes.length
  | .operand _ => 2

def label? : Piece → Option Label
  | .plain _ => none
  | .operand label => some label

end Piece

structure Resolution where
  label : Label
  target : Nat
  deriving DecidableEq, Repr

namespace Resolution

def distance (r : Resolution) : Int := (r.target : Int) - (r.label.position : Int)

def bytes (r : Resolution) : List UInt8 :=
  BigEndian.word16 (Int16.ofInt r.distance).toUInt16

end Resolution

structure History where
  pieces : List Piece := []
  resolutions : List Resolution := []
  deriving DecidableEq, Repr

namespace History

def labels (h : History) : List Label := h.pieces.filterMap Piece.label?

def resolution? (h : History) (label : Label) : Option Resolution :=
  h.resolutions.find? (·.label = label)

def target? (h : History) (label : Label) : Option Nat := (h.resolution? label).map (·.target)

def bytes (h : History) : Piece → List UInt8
  | .plain bytes => bytes
  | .operand label =>
      match h.resolution? label with
      | none => [0, 0]
      | some resolution => resolution.bytes

def code (h : History) : List UInt8 := h.pieces.flatMap h.bytes

def write (h : History) (piece : Piece) : History := { h with pieces := h.pieces ++ [piece] }

def resolve (h : History) (label : Label) (target : Nat) : History :=
  { h with resolutions := h.resolutions ++ [⟨label, target⟩] }

/-- Whether a label was given out, has no target yet, and is within reach of one. -/
def Resolvable (h : History) (limits : Limits) (label : Label) (target : Nat) : Prop :=
  label ∈ h.labels ∧ h.resolution? label = none ∧
    limits.jumpMin ≤ (⟨label, target⟩ : Resolution).distance ∧
    (⟨label, target⟩ : Resolution).distance ≤ limits.jumpMax

instance (h : History) (limits : Limits) (label : Label) (target : Nat) :
    Decidable (h.Resolvable limits label target) := by
  unfold Resolvable
  infer_instance

def resolveAll (h : History) (target : Nat) (labels : List Label) : History :=
  labels.foldl (fun h label => h.resolve label target) h

/-- Resolves labels in order up to the first that cannot be resolved. -/
def resolveWhile (limits : Limits) (target : Nat) : List Label → History → History
  | [], h => h
  | label :: labels, h =>
      if h.Resolvable limits label target then
        resolveWhile limits target labels (h.resolve label target)
      else h

theorem length_bytes (h : History) (piece : Piece) : (h.bytes piece).length = piece.size := by
  cases piece with
  | plain bytes => rfl
  | operand label =>
      rw [bytes]
      split <;> rfl

def width (pieces : List Piece) : Nat := Sizes.total (pieces.map Piece.size)

theorem length_flatMap_bytes (h : History) (pieces : List Piece) :
    (pieces.flatMap h.bytes).length = width pieces := by
  induction pieces with
  | nil => rfl
  | cons piece pieces ih =>
      rw [List.flatMap_cons, List.length_append, ih, length_bytes]
      rfl

theorem width_append (front back : List Piece) :
    width (front ++ back) = width front + width back := by
  rw [width, List.map_append, Sizes.total_append]
  rfl

@[simp] theorem labels_write_plain (h : History) (bytes : List UInt8) :
    (h.write (.plain bytes)).labels = h.labels := by
  simp [labels, write, Piece.label?]

@[simp] theorem labels_write_operand (h : History) (label : Label) :
    (h.write (.operand label)).labels = h.labels ++ [label] := by
  simp [labels, write, Piece.label?]

theorem code_write (h : History) (piece : Piece) :
    (h.write piece).code = h.code ++ h.bytes piece := by
  simp only [code, write, List.flatMap_append, List.flatMap_singleton]
  rfl

theorem resolution?_resolve_self {h : History} {label : Label} (target : Nat)
    (fresh : h.resolution? label = none) :
    (h.resolve label target).resolution? label = some ⟨label, target⟩ := by
  unfold resolution? at fresh
  simp [resolution?, resolve, List.find?_append, fresh]

theorem resolution?_resolve_other {h : History} {label other : Label} (target : Nat)
    (different : other ≠ label) :
    (h.resolve label target).resolution? other = h.resolution? other := by
  simp [resolution?, resolve, List.find?_append, different.symm]

theorem resolution?_eq_none_iff (h : History) (label : Label) :
    h.resolution? label = none ↔ label ∉ h.resolutions.map (·.label) := by
  simp [resolution?]

theorem flatMap_bytes_resolve (h : History) {label : Label} (target : Nat) (pieces : List Piece)
    (absent : .operand label ∉ pieces) :
    pieces.flatMap (h.resolve label target).bytes = pieces.flatMap h.bytes := by
  apply List.flatMap_congr
  intro piece member
  cases piece with
  | plain bytes => rfl
  | operand other =>
      have different : other ≠ label := by
        rintro rfl
        exact absent member
      simp only [bytes, resolution?_resolve_other target different]

end History

end BytecodeScopes
