import Stencil.Proofs.Grammar.Adjacency

/-!
# Grammar — the places of lists

Where the arrays, objects and lists of arguments of a template are, by its tokens alone.  A bracket
begins one by its kind and by the token before it (`opensList`), and a comma stands between items of
one and nowhere else.  Such a token is told by the tokens before it (`ListSpot`).

In a row that is put together from others the place is in one of them (`ListSpot.append`,
`ListSpot.apart`); so a proof about what is derived goes on with the part that the place is in.
Other tokens may come from there on, as long as they begin alike (`InPlace`): a rule is chosen by
the same kinds as before (`ListSpot.kind_front`, `ListSpot.not_beginsWith`).
-/

namespace Stencil.Grammar
open Stencil.Parser

variable {before : Option Token.Kind} {kind : Token.Kind} {o t : Token}
  {ts us pre rest : List Token}

/-- Does a bracket of the kind begin a list of items, behind the kind `before`?  Behind an operand
parentheses are those of a call and square brackets are those of a subscript; elsewhere they are
those of a grouped expression and of an array. -/
def opensList (before : Option Token.Kind) : Token.Kind → Bool
  | .leftBrace => true
  | .leftBracket => !before.any endsOperand
  | .leftParen => before.any endsOperand
  | _ => false

/-- Behind the tokens `pre` stands `t`, which begins a list or is a comma. -/
def ListSpot (before : Option Token.Kind) (ts pre : List Token) (t : Token) : Prop :=
  (∃ post, ts = pre ++ t :: post) ∧
    (opensList (kindBehind before pre) t.kind = true ∨ t.kind = .comma)

/-- No list begins with the kind, and no item ends at it. -/
def Plain (before : Option Token.Kind) (kind : Token.Kind) : Prop :=
  opensList before kind = false ∧ kind ≠ .comma

/-- No operator begins a list, and none is a comma. -/
theorem plain_of_joins {l : Level} (h : l.joins kind = true) : Plain before kind := by
  refine ⟨?_, ?_⟩
  · cases kind <;> first | rfl | (cases l <;> cases h)
  · rintro rfl
    cases l <;> cases h

theorem plain_closing (i : Item) : Plain before i.closing := by
  cases i <;> exact ⟨rfl, nofun⟩

/-- Behind an operator an operand is to come, so a bracket there is a primary's own. -/
theorem endsOperand_of_joins {l : Level} (h : l.joins kind = true) : endsOperand kind = false := by
  cases kind <;> first | rfl | (cases l <;> cases h)

namespace ListSpot

variable {P : List Token → Prop}

theorem nil (h : ListSpot before [] pre t) : False := by
  obtain ⟨⟨post, h⟩, -⟩ := h
  simp at h

/-- At the first token or behind it. -/
@[elab_as_elim]
theorem cons (h : ListSpot before (o :: ts) pre t) (hhere : t = o → ¬ Plain before o.kind → P [])
    (hbehind : ∀ later, ListSpot (some o.kind) ts later t → P (o :: later)) : P pre := by
  obtain ⟨⟨post, hts⟩, hopens⟩ := h
  cases pre with
  | nil =>
    cases hts
    refine hhere rfl fun ⟨hopen, hcomma⟩ => ?_
    rw [kindBehind_nil, hopen] at hopens
    exact hcomma (hopens.resolve_left Bool.false_ne_true)
  | cons p later =>
    cases hts
    exact hbehind later ⟨⟨post, rfl⟩, hopens⟩

/-- Behind a plain token. -/
@[elab_as_elim]
theorem skip (h : ListSpot before (o :: ts) pre t) (ho : o.kind = kind) (hkind : Plain before kind)
    (hbehind : ∀ later, ListSpot (some kind) ts later t → P (o :: later)) : P pre := by
  subst ho
  exact h.cons (fun _ hplain => absurd hkind hplain) hbehind

/-- A token that stands anywhere is no spot in a list. -/
theorem single (h : ListSpot before [o] pre t) (ho : o.kind = kind) (hkind : Plain before kind) :
    False :=
  h.skip (P := fun _ => False) ho hkind fun _ h => h.nil

/-- In the first of two rows or in the second. -/
@[elab_as_elim]
theorem append (h : ListSpot before (ts ++ us) pre t) (hfirst : ListSpot before ts pre t → P pre)
    (hsecond : ∀ later, ListSpot (kindBehind before ts) us later t → P (ts ++ later)) : P pre := by
  obtain ⟨⟨post, hsplit⟩, hopens⟩ := h
  rcases List.append_eq_append_iff.mp hsplit with ⟨later, rfl, hus⟩ | ⟨_ | ⟨p, left⟩, hts, hus⟩
  · exact hsecond later ⟨⟨post, hus⟩, by rwa [kindBehind_append] at hopens⟩
  · rw [List.append_nil] at hts
    subst hts
    exact List.append_nil ts ▸ hsecond [] ⟨⟨post, hus.symm⟩, hopens⟩
  · obtain ⟨rfl, -⟩ := List.cons.inj hus
    exact hfirst ⟨⟨left, hts⟩, hopens⟩

/-- In front of a plain token or behind it. -/
@[elab_as_elim]
theorem apart (h : ListSpot before (ts ++ o :: us) pre t) (ho : o.kind = kind)
    (hkind : Plain (kindBehind before ts) kind) (hfirst : ListSpot before ts pre t → P pre)
    (hsecond : ∀ later, ListSpot (some kind) us later t → P (ts ++ o :: later)) : P pre :=
  h.append hfirst fun _ h => h.skip (P := fun later => P (ts ++ later)) ho hkind hsecond

/-- In front of a plain token at the end. -/
theorem closed (h : ListSpot before (ts ++ [o]) pre t) (ho : o.kind = kind)
    (hkind : Plain (kindBehind before ts) kind) : ListSpot before ts pre t :=
  h.apart (P := fun pre => ListSpot before ts pre t) ho hkind id fun _ h => h.nil.elim

end ListSpot

/-! ### Other tokens in the place -/

/-- The tokens begin with `t`, or with another comma if that is one. -/
def InPlace (t : Token) (rest : List Token) : Prop :=
  front rest = t ∨ ((front rest).kind = .comma ∧ t.kind = .comma)

/-- In place the token is the one at hand. -/
theorem InPlace.kind_front (h : InPlace t rest) : (front rest).kind = t.kind :=
  h.elim (congrArg Token.kind) fun ⟨hrest, ht⟩ => hrest.trans ht.symm

theorem listed_of_opens (h : opensList before kind = true ∨ kind = .comma) :
    kind ∈ [.leftBrace, .leftBracket, .leftParen, .comma] := by
  rcases h with h | rfl
  · cases kind <;> first | decide | cases h
  · decide

namespace ListSpot

/-- A list is begun by one of three brackets and goes on with a comma. -/
theorem kind_mem (h : ListSpot before ts pre t) :
    t.kind ∈ [Token.Kind.leftBrace, .leftBracket, .leftParen, .comma] :=
  listed_of_opens h.2

theorem ne_nil (h : ListSpot before ts pre t) (hrest : InPlace t rest) : pre ++ rest ≠ [] := by
  intro he
  obtain ⟨-, rfl⟩ := List.append_eq_nil_iff.mp he
  have hmem := h.kind_mem
  rw [← hrest.kind_front] at hmem
  exact absurd hmem (by decide)

/-- The first token is of the kind of the first that was there. -/
theorem kind_front (h : ListSpot before ts pre t) (hrest : InPlace t rest) :
    (front (pre ++ rest)).kind = (front ts).kind := by
  obtain ⟨⟨post, rfl⟩, -⟩ := h
  cases pre with
  | nil => exact hrest.kind_front
  | cons p pre => rfl

/-- The first token is the one that was there, unless that is a comma. -/
theorem front_eq (h : ListSpot before ts pre t) (hrest : InPlace t rest)
    (hcomma : (front ts).kind ≠ .comma) : front (pre ++ rest) = front ts := by
  obtain ⟨⟨post, rfl⟩, -⟩ := h
  cases pre with
  | nil => exact hrest.resolve_right fun ⟨_, ht⟩ => hcomma ht
  | cons p pre => rfl

/-- No tag that ends a block begins where a piece begins. -/
theorem not_beginsWith (h : ListSpot before ts pre t) (hrest : InPlace t rest)
    (hpiece : Rule.piece.Begins ts) {ends : List Token.Kind} (hends : ends ⊆ blockEnds) :
    (ends.any fun kind => beginsWith [.openStatement, kind] (pre ++ rest)) = false := by
  refine List.any_eq_false.mpr fun kind hkind hbegins => ?_
  obtain ⟨o, w, left, hleft, ho, hw⟩ := beginsWith_pair hbegins
  have hmem := h.kind_mem
  rw [← hrest.kind_front] at hmem
  obtain ⟨⟨post, rfl⟩, -⟩ := h
  match pre, hleft with
  | [], hleft =>
    rw [List.nil_append] at hleft
    rw [hleft, front_cons, ho] at hmem
    exact absurd hmem (by decide)
  | [p], hleft =>
    cases hleft
    rw [front_cons, hw] at hmem
    simp only [List.mem_cons, List.not_mem_nil, or_false] at hmem
    rcases hmem with rfl | rfl | rfl | rfl <;> exact absurd (hends hkind) (by decide)
  | p :: q :: pre, hleft =>
    cases hleft
    have hnot := hpiece.2 kind (hends hkind) []
    simp [beginsWith, ho, hw] at hnot

end ListSpot

end Stencil.Grammar
