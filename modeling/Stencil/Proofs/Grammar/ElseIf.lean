import Mathlib.Logic.Relation
import Stencil.Proofs.Grammar.Adjacency
import Stencil.Proofs.Grammar.Inside
import Stencil.Proofs.Parser.Session

/-!
# Grammar — else-if

An `elif` is a conditional alone in the `else` of the one before it (`parse_expands`).  Where a tag
begins with `elif`, the tokens behind that word up to the tag that ends the chain (`splitEndif?`) may
stand in a conditional of their own, with its own end, and the template has the same tree.

What is derived outside tags begins and ends its own conditionals (`Derives.closed`), so that the
chain's end is found behind it.  Where an `elif` stands in what is derived, it is expanded in place
(`Derives.expandable`), and what stands around it stays as it was (`Expandable.within`).
-/

namespace Stencil.Grammar
open Stencil.Parser Stencil.Lexer

/-! ### The end of a chain -/

/-- How many conditionals are open behind the token at hand, if so many were open before it. -/
def depthBehind (depth : Nat) (ts : List Token) : Nat :=
  if beginsWith [.openStatement, .kwEndif] ts then depth - 1
  else if beginsWith [.openStatement, .kwIf] ts then depth + 1
  else depth

/-- The tokens up to the tag that ends the conditional they stand in, and those from that tag on.
The number is of the conditionals that have begun inside it. -/
def splitEndif? : Nat → List Token → Option (List Token × List Token)
  | _, [] => none
  | depth, t :: ts =>
    if depth = 0 ∧ beginsWith [.openStatement, .kwEndif] (t :: ts) then some ([], t :: ts)
    else (splitEndif? (depthBehind depth (t :: ts)) ts).map (Prod.map (t :: ·) id)

/-- Conditionals begin and end in pairs among the tokens, whatever stands behind them. -/
def Closed (ts : List Token) : Prop := ∀ depth rest,
  splitEndif? depth (ts ++ rest) = (splitEndif? depth rest).map (Prod.map (ts ++ ·) id)

variable {t o w o' w' : Token} {ts us rest before : List Token} {depth : Nat}

theorem splitEndif?_of_beginsWith (h : beginsWith [.openStatement, .kwEndif] ts = true) :
    splitEndif? 0 ts = some ([], ts) := by
  cases ts with
  | nil => cases h
  | cons t ts => rw [splitEndif?, if_pos ⟨rfl, h⟩]

/-- A token that begins or ends no conditional. -/
theorem splitEndif?_cons (hend : beginsWith [.openStatement, .kwEndif] (t :: ts) = false)
    (hif : beginsWith [.openStatement, .kwIf] (t :: ts) = false) :
    splitEndif? depth (t :: ts) = (splitEndif? depth ts).map (Prod.map (t :: ·) id) := by
  simp [splitEndif?, depthBehind, hend, hif]

/-- The tag that begins a conditional. -/
theorem splitEndif?_if (ho : o.kind = .openStatement) (hw : w.kind = .kwIf) :
    splitEndif? depth (o :: w :: ts) =
      (splitEndif? (depth + 1) (w :: ts)).map (Prod.map (o :: ·) id) := by
  simp [splitEndif?, depthBehind, beginsWith, ho, hw]

/-- The tag that ends a conditional which has begun inside. -/
theorem splitEndif?_endif (ho : o.kind = .openStatement) (hw : w.kind = .kwEndif) :
    splitEndif? (depth + 1) (o :: w :: ts) =
      (splitEndif? depth (w :: ts)).map (Prod.map (o :: ·) id) := by
  rw [splitEndif?, if_neg fun h => Nat.succ_ne_zero depth h.1, depthBehind, if_pos]
  · rfl
  · simp [beginsWith, ho, hw]

namespace Closed

theorem nil : Closed [] := fun depth rest => by
  show splitEndif? depth rest = (splitEndif? depth rest).map id
  exact Option.map_id.symm ▸ rfl

theorem append (h : Closed ts) (h' : Closed us) : Closed (ts ++ us) := by
  intro depth rest
  rw [List.append_assoc, h, h', Option.map_map, Prod.map_comp_map]
  congr 2
  exact funext fun _ => (List.append_assoc ..).symm

theorem cons (ht : t.kind ≠ .openStatement) (h : Closed ts) : Closed (t :: ts) := by
  intro depth rest
  rw [List.cons_append, splitEndif?_cons (not_beginsWith_cons ht) (not_beginsWith_cons ht), h,
    Option.map_map, Prod.map_comp_map]
  rfl

/-- A mark in front of another word. -/
theorem mark (hend : w.kind ≠ .kwEndif) (hif : w.kind ≠ .kwIf) (h : Closed (w :: ts)) :
    Closed (o :: w :: ts) := by
  intro depth rest
  rw [List.cons_append, List.cons_append, splitEndif?_cons (not_beginsWith_cons_cons hend)
    (not_beginsWith_cons_cons hif), ← List.cons_append, h, Option.map_map, Prod.map_comp_map]
  rfl

/-- What is inside a tag neither begins nor ends a conditional. -/
theorem inner (h : AllInner ts) : Closed ts := by
  induction ts with
  | nil => exact nil
  | cons t ts ih =>
    obtain ⟨ht, hts⟩ := allInner_cons.mp h
    exact cons (fun he => by rw [he] at ht; cases ht) (ih hts)

/-- A conditional with its end. -/
theorem conditional (ho : o.kind = .openStatement) (hw : w.kind = .kwIf) (h : Closed ts)
    (ho' : o'.kind = .openStatement) (hw' : w'.kind = .kwEndif) (h' : Closed us) :
    Closed (o :: w :: (ts ++ o' :: w' :: us)) := by
  intro depth rest
  have hwts : Closed (w :: ts) := h.cons (by rw [hw]; decide)
  have hwus : Closed (w' :: us) := h'.cons (by rw [hw']; decide)
  have hsplit : o :: w :: (ts ++ o' :: w' :: us) ++ rest =
      o :: (w :: ts ++ o' :: (w' :: us ++ rest)) := by simp
  rw [hsplit, List.cons_append, splitEndif?_if ho hw, ← List.cons_append, hwts, List.cons_append,
    splitEndif?_endif ho' hw', ← List.cons_append, hwus]
  simp only [Option.map_map, Prod.map_comp_map]
  congr 2
  exact funext fun _ => by simp

end Closed

/-- The rules for what stands outside tags. -/
def Rule.Outside : Rule → Prop
  | .branches | .piece | .body => True
  | _ => False

/-- **Outside tags conditionals are derived with their ends.** -/
theorem Derives.closed {r : Rule} {v : r.Tree} (h : Derives r ts v) (hr : r.Outside) :
    Closed ts := by
  have close {c : Token} {us : List Token} (hc : c.kind = .closeStatement) (h : Closed us) :
      Closed (c :: us) := .cons (by rw [hc]; decide) h
  have word {w : Token} {us : List Token} (hw : w.kind.isInner = true) (h : Closed us) :
      Closed (w :: us) := .cons (fun he => by rw [he] at hw; cases hw) h
  have tag {o w : Token} {kind : Token.Kind} {us : List Token} (hw : w.kind = kind)
      (hkind : kind.isInner = true ∧ kind ≠ .kwEndif ∧ kind ≠ .kwIf) (h : Closed us) :
      Closed (o :: w :: us) := by
    subst hw
    exact .mark hkind.2.1 hkind.2.2 (word hkind.1 h)
  -- only a conditional opens a chain, and it is derived with the tag that ends it
  induction h with
  | noElse htest hc _ _ ih =>
    exact (Closed.inner (htest.allInner trivial)).append (close hc (ih trivial))
  | elseIf htest hc _ _ hw _ _ ih ih' =>
    exact (Closed.inner (htest.allInner trivial)).append
      (close hc ((ih trivial).append (tag hw (by decide) (ih' trivial))))
  | elseBody htest hc _ _ hw hc' _ _ ih ih' =>
    exact (Closed.inner (htest.allInner trivial)).append
      (close hc ((ih trivial).append (tag hw (by decide) (close hc' (ih' trivial)))))
  | text ht => exact .cons (by rw [ht]; decide) .nil
  | output ho hn hc =>
    exact .cons (by rw [ho]; decide)
      ((Closed.inner (hn.allInner trivial)).append (.cons (by rw [hc]; decide) .nil))
  | set _ hw hn hc =>
    exact tag hw (by decide) ((Closed.inner (hn.allInner trivial)).append (close hc .nil))
  | conditional ho hw _ ho' hw' hc ih =>
    exact .conditional ho hw (ih trivial) ho' hw' (close hc .nil)
  | loop _ hw hv hi hiterable hc _ _ hw' hc' _ _ ih =>
    refine tag hw (by decide) ((Closed.inner (hv.allInner trivial)).append ?_)
    refine word (by rw [hi]; rfl) ((Closed.inner (hiterable.allInner trivial)).append ?_)
    exact close hc ((ih trivial).append (tag hw' (by decide) (close hc' .nil)))
  | bodyNil => exact .nil
  | bodyMore _ _ ih ih' => exact (ih trivial).append (ih' trivial)
  | _ => exact hr.elim

/-! ### Where an `elif` stands -/

/-- The kinds that stand for `elif`: the tag `else`, and the mark and the word of a conditional. -/
def elseIfKinds : List Token.Kind := [.openStatement, .kwElse, .closeStatement, .openStatement, .kwIf]

/-- The kinds of the tag that ends a conditional. -/
def endifKinds : List Token.Kind := [.openStatement, .kwEndif, .closeStatement]

/-- What stands behind an `elif` ends with its chain, whatever follows of the kind that may, and
what is derived with the `elif` is derived when it is expanded. -/
def Expandable (follows derived : List Token → Prop) (before rest : List Token) : Prop :=
  ∃ inner after, rest = inner ++ after ∧
    (∀ tail, follows tail → splitEndif? 0 (rest ++ tail) = some (inner, after ++ tail) ∧
      beginsWith endifKinds (after ++ tail) = true) ∧
    ∀ opening ending : List Token, opening.map Token.kind = elseIfKinds →
      ending.map Token.kind = endifKinds → derived (before ++ opening ++ inner ++ ending ++ after)

/-- What stands around stays as it was. -/
theorem Expandable.within {follows follows' derived derived' : List Token → Prop}
    {before' rest' : List Token} (h : Expandable follows derived before rest) (xs ys : List Token)
    (hfollows : ∀ tail, follows' tail → follows (ys ++ tail))
    (hderived : ∀ ts, derived ts → derived' (xs ++ (ts ++ ys)))
    (hbefore : before' = xs ++ before := by simp) (hrest : rest' = rest ++ ys := by simp) :
    Expandable follows' derived' before' rest' := by
  subst hbefore hrest
  obtain ⟨inner, after, rfl, hsplit, hexpand⟩ := h
  refine ⟨inner, after ++ ys, List.append_assoc .., fun tail htail => ?_,
    fun opening ending hopening hending => ?_⟩
  · simpa using hsplit (ys ++ tail) (hfollows tail htail)
  · simpa using hderived _ (hexpand opening ending hopening hending)

/-- Among the tokens a tag begins with `elif`: what is before its mark, and what is behind that
word. -/
def ElifAt (ts before rest : List Token) : Prop :=
  ∃ o w : Token, ts = before ++ o :: w :: rest ∧ o.kind = .openStatement ∧ w.kind = .kwElif

namespace ElifAt

theorem not_nil : ¬ ElifAt [] before rest := by
  rintro ⟨o, w, h, -⟩
  simp at h

/-- It stands in the first or in the second of two parts. -/
theorem append (h : ElifAt (ts ++ us) before rest) (hus : (front us).kind ≠ .kwElif) :
    (∃ rest', ElifAt ts before rest' ∧ rest = rest' ++ us) ∨
      ∃ before', ElifAt us before' rest ∧ before = ts ++ before' := by
  obtain ⟨o, w, h, ho, hw⟩ := h
  rcases List.append_eq_append_iff.mp h with ⟨before', rfl, hus'⟩ | ⟨more, rfl, hmore⟩
  · exact .inr ⟨before', ⟨o, w, hus', ho, hw⟩, rfl⟩
  · rcases more with _ | ⟨o', _ | ⟨w', rest'⟩⟩
    · exact .inr ⟨[], ⟨o, w, hmore.symm, ho, hw⟩, by simp⟩
    · obtain ⟨rfl, rfl⟩ := List.cons.inj hmore
      exact absurd hw hus
    · simp only [List.cons_append, List.cons.injEq] at hmore
      obtain ⟨rfl, rfl, rfl⟩ := hmore
      exact .inl ⟨rest', ⟨o, w, rfl, ho, hw⟩, rfl⟩

/-- It stands behind tokens that are no marks of statements. -/
theorem behind (h : ElifAt (ts ++ us) before rest) (hts : ∀ t ∈ ts, t.kind ≠ .openStatement) :
    ∃ before', ElifAt us before' rest ∧ before = ts ++ before' := by
  obtain ⟨o, w, h, ho, hw⟩ := h
  rcases List.append_eq_append_iff.mp h with ⟨before', rfl, hus⟩ | ⟨more, rfl, hmore⟩
  · exact ⟨before', ⟨o, w, hus, ho, hw⟩, rfl⟩
  · cases more with
    | nil => exact ⟨[], ⟨o, w, hmore.symm, ho, hw⟩, by simp⟩
    | cons o' more =>
      obtain ⟨rfl, -⟩ := List.cons.inj hmore
      exact absurd ho (hts o (by simp))

/-- It stands behind one such token. -/
theorem cons {o : Token} (h : ElifAt (o :: us) before rest) (ho : o.kind ≠ .openStatement) :
    ∃ before', ElifAt us before' rest ∧ before = o :: before' := by
  rw [← List.singleton_append] at h
  exact h.behind (List.forall_mem_singleton.mpr ho)

/-- It stands behind the inside of a tag and the token that ends this. -/
theorem inner {c : Token} (h : ElifAt (ts ++ c :: us) before rest) (hts : AllInner ts)
    (hc : c.kind ≠ .openStatement) :
    ∃ before', ElifAt us before' rest ∧ before = ts ++ c :: before' := by
  have hmarks : ∀ t ∈ ts ++ [c], t.kind ≠ .openStatement := by
    refine List.forall_mem_append.mpr ⟨fun t ht he => ?_, List.forall_mem_singleton.mpr hc⟩
    have := hts t ht
    rw [he] at this
    cases this
  rw [List.append_cons] at h
  obtain ⟨before', hus, rfl⟩ := h.behind hmarks
  exact ⟨before', hus, by simp⟩

/-- It stands behind the word of another tag. -/
theorem tag {kind : Token.Kind} (h : ElifAt (o :: w :: ts) before rest) (hw : w.kind = kind)
    (hkind : kind ≠ .kwElif ∧ kind ≠ .openStatement) :
    ∃ before', ElifAt ts before' rest ∧ before = o :: w :: before' := by
  subst hw
  rw [← List.singleton_append] at h
  rcases h.append hkind.1 with ⟨rest', ⟨o', w', h, -⟩, -⟩ | ⟨before', h', rfl⟩
  · have := congrArg List.length h
    simp at this
    omega
  · obtain ⟨before', hts, rfl⟩ := h'.cons hkind.2
    exact ⟨before', hts, rfl⟩

/-- It is the tag at hand, or stands behind its word. -/
theorem elif (h : ElifAt (o :: w :: ts) before rest) (hw : w.kind = .kwElif) :
    (before = [] ∧ rest = ts) ∨ ∃ before', ElifAt ts before' rest ∧ before = o :: w :: before' := by
  obtain ⟨o', w', h, ho', hw'⟩ := h
  rcases before with _ | ⟨o'', before⟩
  · simp only [List.nil_append, List.cons.injEq] at h
    exact .inl ⟨rfl, h.2.2.symm⟩
  · simp only [List.cons_append, List.cons.injEq] at h
    have hbehind : ElifAt (w :: ts) before rest := ⟨o', w', h.2, ho', hw'⟩
    obtain ⟨before', hts, rfl⟩ := hbehind.cons (by rw [hw]; decide)
    exact .inr ⟨before', hts, by rw [h.1]⟩

end ElifAt

/-- What may follow where a chain goes on to the end of what is derived. -/
def Rule.Follows : Rule → List Token → Prop
  | .branches, tail => beginsWith endifKinds tail = true
  | _, _ => True

/-- The chain of branches goes on to the end of what is derived. -/
theorem expandable_elseIf {ts us vs : List Token} {c : Token} {test other : Node}
    {body : List Node} (htest : Derives (.level .expression) ts test)
    (hc : c.kind = .closeStatement) (hbody : Derives .body us body)
    (hother : Derives .branches vs other) :
    Expandable Rule.branches.Follows
      (Derives .branches · (Node.conditional test body [other])) (ts ++ c :: us) vs := by
  refine ⟨vs, [], (List.append_nil vs).symm, fun tail htail => ?_,
    fun opening ending hopening hending => ?_⟩
  · have hend : beginsWith [.openStatement, .kwEndif] tail = true := by
      rcases tail with _ | ⟨o', _ | ⟨w', tail⟩⟩ <;>
        simp_all [Rule.Follows, beginsWith, endifKinds]
    rw [hother.closed trivial, splitEndif?_of_beginsWith hend]
    exact ⟨by simp, htail⟩
  · simp only [elseIfKinds, endifKinds, List.map_eq_cons_iff, List.map_eq_nil_iff]
      at hopening hending
    obtain ⟨oe, _, rfl, hoe, we, _, rfl, hwe, ce, _, rfl, hce, oi, _, rfl, hoi, wi, _, rfl, hwi,
      rfl⟩ := hopening
    obtain ⟨on, _, rfl, hon, wn, _, rfl, hwn, cn, _, rfl, hcn, rfl⟩ := hending
    have hinside := (Derives.conditional hoi hwi hother hon hwn hcn).bodyMore .bodyNil
    simpa using htest.elseBody hc hbody hoe hwe hce hinside

/-- What is derived outside tags does not begin with `elif`. -/
theorem Derives.front_ne_kwElif (h : Derives .body ts body) : (front ts).kind ≠ .kwElif := by
  cases h with
  | bodyNil => decide
  | bodyMore hn _ =>
    cases hn with
    | text ht => simp [ht]
    | output ho | set ho | conditional ho | loop ho => simp [ho]

/-- **An `elif` is expanded in what is derived.** -/
theorem Derives.expandable {r : Rule} {v : r.Tree} (h : Derives r ts v) (hr : r.Outside)
    (hat : ElifAt ts before rest) : Expandable r.Follows (Derives r · v) before rest := by
  have closing {c : Token} (hc : c.kind = .closeStatement) : c.kind ≠ .openStatement := by
    rw [hc]
    decide
  have begins {o : Token} {us : List Token} (ho : o.kind = .openStatement) :
      (front (o :: us)).kind ≠ .kwElif := by
    rw [front_cons, ho]
    decide
  have ended {o w c : Token} {kind : Token.Kind} {before rest : List Token} (hw : w.kind = kind)
      (hkind : kind ≠ .kwElif ∧ kind ≠ .openStatement) (hc : c.kind = .closeStatement) :
      ¬ ElifAt [o, w, c] before rest := fun hat => by
    obtain ⟨_, hc', -⟩ := hat.tag hw hkind
    obtain ⟨_, hnil, -⟩ := hc'.cons (closing hc)
    exact hnil.not_nil
  induction h generalizing before rest with
  | @noElse ts us c test body htest hc hbody _ ih =>
    obtain ⟨before, hus, rfl⟩ := hat.inner (htest.allInner trivial) (closing hc)
    exact (ih trivial hus).within (ts ++ [c]) [] (fun _ _ => trivial)
      fun us h => by simpa using htest.noElse hc h
  | @elseIf ts us vs c o w test other body htest hc hbody ho hw hother _ ih ih' =>
    obtain ⟨before, hmore, rfl⟩ := hat.inner (htest.allInner trivial) (closing hc)
    rcases hmore.append (begins ho) with ⟨rest, hus, rfl⟩ | ⟨before, htag, rfl⟩
    · exact (ih trivial hus).within (ts ++ [c]) (o :: w :: vs) (fun _ _ => trivial)
        fun us h => by simpa using htest.elseIf hc h ho hw hother
    · -- the chain goes on with this tag, or with one behind it
      rcases htag.elif hw with ⟨rfl, rfl⟩ | ⟨before, hvs, rfl⟩
      · simpa using expandable_elseIf htest hc hbody hother
      · exact (ih' trivial hvs).within (ts ++ c :: (us ++ [o, w])) [] (fun _ h => h)
          fun vs h => by simpa using htest.elseIf hc hbody ho hw h
  | @elseBody ts us vs c o w c' test body other htest hc hbody ho hw hc' hother _ ih ih' =>
    obtain ⟨before, hmore, rfl⟩ := hat.inner (htest.allInner trivial) (closing hc)
    rcases hmore.append (begins ho) with ⟨rest, hus, rfl⟩ | ⟨before, htag, rfl⟩
    · exact (ih trivial hus).within (ts ++ [c]) (o :: w :: c' :: vs) (fun _ _ => trivial)
        fun us h => by simpa using htest.elseBody hc h ho hw hc' hother
    · obtain ⟨before, hclose, rfl⟩ := htag.tag hw (by decide)
      obtain ⟨before, hvs, rfl⟩ := hclose.cons (closing hc')
      exact (ih' trivial hvs).within (ts ++ c :: (us ++ [o, w, c'])) [] (fun _ _ => trivial)
        fun vs h => by simpa using htest.elseBody hc hbody ho hw hc' h
  | text ht =>
    obtain ⟨_, hnil, -⟩ := hat.cons (by rw [ht]; decide)
    exact absurd hnil ElifAt.not_nil
  | output ho hn hc =>
    obtain ⟨_, hts, -⟩ := hat.cons (by rw [ho]; decide)
    obtain ⟨_, hnil, -⟩ := hts.inner (hn.allInner trivial) (by rw [hc]; decide)
    exact absurd hnil ElifAt.not_nil
  | set _ hw hn hc =>
    obtain ⟨_, hts, -⟩ := hat.tag hw (by decide)
    obtain ⟨_, hnil, -⟩ := hts.inner (hn.allInner trivial) (closing hc)
    exact absurd hnil ElifAt.not_nil
  | @conditional o w o' w' c ts n ho hw _ ho' hw' hc ih =>
    obtain ⟨before, hmore, rfl⟩ := hat.tag hw (by decide)
    rcases hmore.append (begins ho') with ⟨rest, hts, rfl⟩ | ⟨before, hend, -⟩
    · have hfollows (tail : List Token) : Rule.branches.Follows ([o', w', c] ++ tail) := by
        simp [Rule.Follows, endifKinds, beginsWith, ho', hw', hc]
      exact (ih trivial hts).within [o, w] [o', w', c] (fun tail _ => hfollows tail)
        fun ts h => by simpa using Derives.conditional ho hw h ho' hw' hc
    · exact absurd hend (ended hw' (by decide) hc)
  | @loop o w i c o' w' c' ts us vs v iterable body ho hw hv hi hiterable hc _ ho' hw' hc' _ _ ih =>
    obtain ⟨before, hhead, rfl⟩ := hat.tag hw (by decide)
    obtain ⟨before, hin, rfl⟩ := hhead.inner (hv.allInner trivial) (by rw [hi]; decide)
    obtain ⟨before, hmore, rfl⟩ := hin.inner (hiterable.allInner trivial) (closing hc)
    rcases hmore.append (begins ho') with ⟨rest, hvs, rfl⟩ | ⟨before, hend, -⟩
    · exact (ih trivial hvs).within (o :: w :: (ts ++ i :: (us ++ [c]))) [o', w', c']
        (fun _ _ => trivial)
        fun vs h => by simpa using Derives.loop ho hw hv hi hiterable hc h ho' hw' hc'
    · exact absurd hend (ended hw' (by decide) hc')
  | bodyNil => exact absurd hat ElifAt.not_nil
  | @bodyMore ts us n ns hn hns ih ih' =>
    rcases hat.append hns.front_ne_kwElif with ⟨rest, hts, rfl⟩ | ⟨before, hus, rfl⟩
    · exact (ih trivial hts).within [] us (fun _ _ => trivial) fun ts h => h.bodyMore hns
    · exact (ih' trivial hus).within ts [] (fun _ _ => trivial)
        fun us h => by simpa using hn.bodyMore h
  | _ => exact hr.elim

/-! ### Whole templates -/

/-- An `elif` is expanded: what stands behind it, up to the end of its chain, is put into a
conditional of its own in an `else`. -/
def Expands (ts ts' : List Token) : Prop :=
  ∃ before rest inner after opening ending, ElifAt ts before rest ∧
    splitEndif? 0 rest = some (inner, after) ∧ opening.map Token.kind = elseIfKinds ∧
    ending.map Token.kind = endifKinds ∧ ts' = before ++ opening ++ inner ++ ending ++ after

/-- In a template that is derived every chain has an end, and every `elif` may be expanded. -/
theorem expandable_of_derives (h : Derives .body (dropEnd ts) body) (hat : ElifAt ts before rest) :
    ∃ inner after, splitEndif? 0 rest = some (inner, after) ∧ rest = inner ++ after ∧
      beginsWith endifKinds after = true ∧
      ∀ opening ending : List Token, opening.map Token.kind = elseIfKinds →
        ending.map Token.kind = endifKinds →
          Derives .body (dropEnd (before ++ opening ++ inner ++ ending ++ after)) body := by
  have keeps {us : List Token} (h : Derives .body us body) (vs : List Token) :
      dropEnd (us ++ vs) = us ++ dropEnd vs :=
    dropEnd_append (fun t ht => (h.readable trivial t (List.mem_of_getLast? ht)).1) vs
  obtain ⟨ends, hts, hends⟩ := eq_dropEnd_append ts
  have hdrop : dropEnd ends = [] := by
    have := keeps h ends
    rw [← hts] at this
    exact List.self_eq_append_right.mp this
  have hfront : (front ends).kind ≠ .kwElif := by
    cases ends with
    | nil => decide
    | cons t ends => simp [hends t List.mem_cons_self]
  rw [hts] at hat
  -- no elif is among the tokens for the end that are dropped
  rcases hat.append hfront with ⟨rest, hin, rfl⟩ | ⟨_, ⟨o, w, heq, ho, -⟩, -⟩
  · obtain ⟨inner, after, rfl, hsplit, hexpand⟩ := h.expandable trivial hin
    obtain ⟨hsplit, hbegins⟩ := hsplit ends trivial
    refine ⟨inner, after ++ ends, hsplit, List.append_assoc .., hbegins,
      fun opening ending hopening hending => ?_⟩
    have hbody := hexpand opening ending hopening hending
    have heq := keeps hbody ends
    rw [hdrop, List.append_nil, List.append_assoc _ after ends] at heq
    exact heq.symm ▸ hbody
  · have := hends o (heq ▸ List.mem_append_right _ List.mem_cons_self)
    rw [ho] at this
    cases this

/-- **What is derived is derived when an `elif` is expanded.** -/
theorem Expands.derives {ts' : List Token} (h : Expands ts ts')
    (hbody : Derives .body (dropEnd ts) body) : Derives .body (dropEnd ts') body := by
  obtain ⟨before, rest, inner, after, opening, ending, hat, hsplit, hopening, hending, rfl⟩ := h
  obtain ⟨inner', after', hsplit', -, -, hexpand⟩ := expandable_of_derives hbody hat
  cases hsplit.symm.trans hsplit'
  exact hexpand opening ending hopening hending

/-- The count of words `elif`. -/
def elifs (ts : List Token) : Nat := ts.countP (·.kind = .kwElif)

/-- All of them may be expanded, one after the other. -/
theorem exists_expanded (hbody : Derives .body (dropEnd ts) body) :
    ∃ ts', Relation.ReflTransGen Expands ts ts' ∧ ∀ before rest, ¬ ElifAt ts' before rest := by
  induction hcount : elifs ts generalizing ts with
  | zero =>
    refine ⟨ts, .refl, fun before rest ⟨o, w, hts, ho, hw⟩ => ?_⟩
    simp [elifs, hts, hw] at hcount
  | succ count ih =>
    by_cases hat : ∃ before rest, ElifAt ts before rest
    · obtain ⟨before, rest, hat⟩ := hat
      obtain ⟨inner, after, hsplit, rfl, -, -⟩ := expandable_of_derives hbody hat
      have hexpands : Expands ts (before ++ elseIfKinds.map token ++ inner ++
          endifKinds.map token ++ after) :=
        ⟨before, _, inner, after, _, _, hat, hsplit, rfl, rfl, rfl⟩
      obtain ⟨o, w, rfl, ho, hw⟩ := hat
      obtain ⟨ts', hrun, hnone⟩ := ih (hexpands.derives hbody) (by
        simp [elifs, ho, hw, elseIfKinds, endifKinds] at hcount ⊢
        omega)
      exact ⟨ts', .head hexpands hrun, hnone⟩
    · exact ⟨ts, .refl, fun before rest h => hat ⟨before, rest, h⟩⟩

/-- **An `elif` is a conditional nested in `else`.**  In a template that is parsed the chain of every
`elif` has an end; however many of them are expanded, one after the other, the tree stays the same
unless the nesting becomes too deep; and all of them can be expanded. -/
theorem parse_expands {n : Node} (h : parse ts = .ok n) :
    (∀ before rest, ElifAt ts before rest → ∃ inner after,
      splitEndif? 0 rest = some (inner, after) ∧ rest = inner ++ after ∧
        beginsWith endifKinds after = true) ∧
    (∀ ts', Relation.ReflTransGen Expands ts ts' → NestedTooDeep ts' ∨ parse ts' = .ok n) ∧
    ∃ ts', Relation.ReflTransGen Expands ts ts' ∧ ∀ before rest, ¬ ElifAt ts' before rest := by
  rw [← parseWithin_depthLimit] at h
  obtain ⟨body, rfl, hbody⟩ := derives_of_parseWithin h
  refine ⟨fun before rest hat => ?_, fun ts' hrun => ?_, exists_expanded hbody⟩
  · obtain ⟨inner, after, hsplit, hrest, hbegins, -⟩ := expandable_of_derives hbody hat
    exact ⟨inner, after, hsplit, hrest, hbegins⟩
  · have hbody' : Derives .body (dropEnd ts') body := by
      induction hrun with
      | refl => exact hbody
      | tail _ hstep ih => exact hstep.derives ih
    exact (Classical.em (NestedTooDeep ts')).imp_right (parse_of_derives · hbody')

/-- What is before the `elif` of the sample. -/
def sampleBefore : List Token :=
  [token .openStatement, token .kwIf, ⟨.identifier, "a", 1, 7⟩, token .closeStatement,
    ⟨.text, "x", 1, 11⟩]

/-- What is behind it, up to the end of the chain. -/
def sampleInner : List Token :=
  [⟨.identifier, "b", 1, 20⟩, token .closeStatement, ⟨.text, "y", 1, 24⟩, token .openStatement,
    token .kwElse, token .closeStatement, ⟨.text, "z", 1, 35⟩]

/-- A conditional with `elif` and `else` has the tree of the one in which `elif` is expanded. -/
theorem parse_expands_sample :
    parse (sampleBefore ++ token .openStatement :: token .kwElif ::
        (sampleInner ++ endifKinds.map token)) =
      .ok (.program [.conditional (.identifier "a") [.string "x"]
        [.conditional (.identifier "b") [.string "y"] [.string "z"]]]) ∧
    parse (sampleBefore ++ elseIfKinds.map token ++ sampleInner ++ endifKinds.map token ++
        endifKinds.map token) =
      .ok (.program [.conditional (.identifier "a") [.string "x"]
        [.conditional (.identifier "b") [.string "y"] [.string "z"]]]) := by
  have hparse : parse (sampleBefore ++ token .openStatement :: token .kwElif ::
      (sampleInner ++ endifKinds.map token)) =
        .ok (.program [.conditional (.identifier "a") [.string "x"]
          [.conditional (.identifier "b") [.string "y"] [.string "z"]]]) := rfl
  have hexpands : Expands (sampleBefore ++ token .openStatement :: token .kwElif ::
      (sampleInner ++ endifKinds.map token))
        (sampleBefore ++ elseIfKinds.map token ++ sampleInner ++ endifKinds.map token ++
          endifKinds.map token) :=
    ⟨_, _, _, _, _, _, ⟨_, _, rfl, rfl, rfl⟩, rfl, rfl, rfl, rfl⟩
  refine ⟨hparse, ((parse_expands hparse).2.1 _ (.single hexpands)).resolve_left ?_⟩
  rintro ⟨token, h⟩
  cases h

end Stencil.Grammar
