import Mathlib.Logic.Function.Basic
import Mathlib.Order.Monotone.Basic
import Stencil.Number.Basic

/-!
# Number — sameness

Which numbers have one exact value: an integer has its own, however large it is (`same_integer`),
and so has a finite double, apart from the two zeros (`same_finite`).  One number stands for all
those of an exact value (`representative_eq_iff`).
-/

namespace Stencil.Number

instance : Inhabited Number := ⟨integer 0⟩

/-- One number for all those of an exact value. -/
noncomputable def representative (v : Number) : Number := Function.invFun value v.value

theorem representative_eq_iff {v w : Number} :
    v.representative = w.representative ↔ v.value = w.value := by
  constructor
  · intro h
    have hv : value v.representative = v.value := Function.invFun_eq ⟨v, rfl⟩
    have hw : value w.representative = w.value := Function.invFun_eq ⟨w, rfl⟩
    rw [← hv, h, hw]
  · intro h
    rw [representative, representative, h]

/-- An integer is the same as itself and as no other, however large they are. -/
theorem same_integer {n m : Int} : (integer n).same (integer m) = true ↔ n = m := by
  have hone : (Binary64.one : Int) ≠ 0 := by decide +kernel
  simp [same_iff, value, Int.mul_eq_mul_right_iff hone]

/-- A finite double is the same as itself and as no other, but zero goes with both signs. -/
theorem same_finite {s s' : Bool} {r r' : Fin Binary64.ranks} :
    (float (.finite s r)).same (float (.finite s' r')) = true ↔
      r = r' ∧ (s = s' ∨ r.val = 0) := by
  have hinj := (strictMono_nat_of_lt_succ Binary64.units_lt_units_succ).injective
  have hzero : Binary64.units 0 = 0 := Binary64.units_of_lt (by decide)
  have hr : Binary64.units r = 0 ↔ r.val = 0 :=
    ⟨fun h => hinj (h.trans hzero.symm), fun h => by rw [h, hzero]⟩
  have hrr' : Binary64.units r = Binary64.units r' ↔ r = r' := by rw [hinj.eq_iff, Fin.ext_iff]
  cases s <;> cases s' <;> simp [same_iff, value] <;> grind

end Stencil.Number
