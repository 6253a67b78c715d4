import Mathlib.Data.List.Nodup
import Stencil.Json.Basic

/-!
# Json — sameness

When two values of JSON are the same.  Arrays are compared element by element.  Objects have as many
fields as each other, and each field of one is found under its name in the other, in whatever order
(`Json.same`).  Numbers go by their exact values, and a truth value is the same as one or zero.

Two objects that give the same names in the same order are compared field by field
(`sameFields_eq`).
-/

namespace Stencil.Json

/-- The number that a truth value counts as. -/
def truth (value : Bool) : Number := .integer (if value then 1 else 0)

mutual

/-- Are two values the same? -/
def same : Json → Json → Bool
  | null, null => true
  | boolean b, boolean b' => b == b'
  | boolean b, number v => (truth b).same v
  | number v, boolean b => v.same (truth b)
  | number v, number v' => v.same v'
  | string s, string s' => s == s'
  | array es, array es' => sameElements es es'
  | object fs, object fs' => fs.length == fs'.length && sameFields fs fs'
  | _, _ => false
termination_by structural j => j

/-- Are the elements of two arrays the same, one by one? -/
def sameElements : List Json → List Json → Bool
  | [], [] => true
  | j :: js, k :: ks => same j k && sameElements js ks
  | _, _ => false
termination_by structural js => js

/-- Is every field found under its name, with the same value? -/
def sameFields : List (String × Json) → List (String × Json) → Bool
  | [], _ => true
  | (name, j) :: fs, gs =>
    (match gs.lookup name with
      | some k => same j k
      | none => false) && sameFields fs gs
termination_by structural fs => fs

end

/-- A field is found behind those of other names. -/
theorem lookup_append_cons {name : String} (j : Json) {before : List (String × Json)}
    (h : name ∉ before.map Prod.fst) (after : List (String × Json)) :
    (before ++ (name, j) :: after).lookup name = some j := by
  induction before with
  | nil => simp
  | cons field before ih =>
    rw [List.map_cons, List.mem_cons, not_or] at h
    rw [List.cons_append, List.lookup_cons, beq_eq_false_iff_ne.mpr h.1]
    exact ih h.2

/-- The fields in front of those that are looked up do not matter if they have other names. -/
theorem sameFields_append : ∀ {fs gs : List (String × Json)} (before : List (String × Json)),
    fs.map Prod.fst = gs.map Prod.fst → ((before ++ gs).map Prod.fst).Nodup →
    sameFields fs (before ++ gs) = sameElements (fs.map Prod.snd) (gs.map Prod.snd)
  | [], [], _, _, _ => rfl
  | (name, j) :: fs, (name', k) :: gs, before, hnames, hnodup => by
    obtain ⟨rfl, hbehind⟩ : name = name' ∧ fs.map Prod.fst = gs.map Prod.fst := by
      simpa using hnames
    have hbefore : name ∉ before.map Prod.fst := by
      rw [List.map_append, List.nodup_append'] at hnodup
      exact fun hmem => hnodup.2.2 hmem (List.mem_cons_self ..)
    have hrest := sameFields_append (before ++ [(name, k)]) hbehind (by simpa using hnodup)
    rw [List.append_assoc, List.singleton_append] at hrest
    rw [sameFields, lookup_append_cons k hbefore gs, hrest]
    rfl

/-- **Fields of the same names in the same order are compared one by one.** -/
theorem sameFields_eq {fs gs : List (String × Json)} (hnames : fs.map Prod.fst = gs.map Prod.fst)
    (hnodup : (gs.map Prod.fst).Nodup) :
    sameFields fs gs = sameElements (fs.map Prod.snd) (gs.map Prod.snd) :=
  sameFields_append [] hnames hnodup

end Stencil.Json
