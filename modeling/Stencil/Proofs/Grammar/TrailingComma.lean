import Stencil.Proofs.Grammar.Listing
import Stencil.Proofs.Grammar.Nesting

/-!
# Grammar — commas at the end of lists

A comma before the bracket that closes a list makes no difference, if there is an item in the list.
Any other comma more is refused: behind the bracket that begins a list, and on either side of a
comma (`comma_neutral_only_at_end`).

Where the comma is put, the parser is at work on the list (`Derives.lists`), and what it does with
the items afterwards is the same for other tokens with the same items.  That leaves the list itself.
Its items are read in front of a comma and the closing bracket as in front of the bracket alone, at
the same depths (`Derives.rowed`).  And an item refuses a comma at the depths at which it reads
anything (`Item.refuses_or_tooDeep`).  In an empty list no item has been read, so there alone it may
be that the nesting is found too deep before the comma is refused.
-/

namespace Stencil.Grammar
open Stencil.Parser

variable {i : Item} {k o c : Token} {ts us init inner row rest : List Token} {n : Node}

/-! ### The end of a list -/

/-- A list ends here: there is its closing bracket, or a comma and the closing bracket. -/
def EndsList (i : Item) (rest : List Token) : Prop :=
  (front rest).kind = i.closing ∨
    ∃ k c later, rest = k :: c :: later ∧ k.kind = .comma ∧ c.kind = i.closing

theorem endsList_closing (hc : c.kind = i.closing) (rest : List Token) : EndsList i (c :: rest) :=
  .inl hc

theorem endsList_comma (hk : k.kind = .comma) (hc : c.kind = i.closing) (rest : List Token) :
    EndsList i (k :: c :: rest) :=
  .inr ⟨k, c, rest, rfl, hk, hc⟩

/-- Takes a comma if there is one. -/
def skipComma : Parser Unit := do
  if (← current).kind = .comma then
    let _ ← advance

/-- Takes the end of a list with the items. -/
def closeList (i : Item) (xs : List i.Tree) : Parser (List i.Tree) := do
  skipComma
  let _ ← expect i.closing
  return xs

/-- Without a comma the closing bracket ends the list. -/
theorem closeList_closing (hc : c.kind = i.closing) (xs : List i.Tree) (rest : List Token) :
    (closeList i xs).run (c :: rest) = .ok xs rest := by
  have hskip : skipComma.run (c :: rest) = .ok () (c :: rest) := by
    rw [skipComma, bind_of_ok (current_run _)]
    exact congrArg (EStateM.run · _) (if_neg (hc ▸ i.closing_ne_comma))
  rw [closeList, bind_of_ok hskip, bind_of_ok (expect_cons hc rest), pure_run]

/-- With a comma the closing bracket ends the list as well. -/
theorem closeList_comma (hk : k.kind = .comma) (hc : c.kind = i.closing) (xs : List i.Tree)
    (rest : List Token) : (closeList i xs).run (k :: c :: rest) = .ok xs rest := by
  have hskip : skipComma.run (k :: c :: rest) = .ok () (c :: rest) := by
    rw [skipComma, bind_of_ok (current_run _), front_cons, if_pos hk,
      bind_of_ok (advance_cons k _)]
    rfl
  rw [closeList, bind_of_ok hskip, bind_of_ok (expect_cons hc rest), pure_run]

/-- Behind an item the end of its list is taken either way. -/
theorem behindItem_endsList (h : EndsList i rest) (item : Parser i.Tree) (x : i.Tree) :
    (behindItem i.closing item x).run rest = (closeList i [x]).run rest := by
  rcases h with h | ⟨k, c, later, rfl, hk, hc⟩
  · obtain ⟨c, later, rfl, -⟩ := eq_cons_of_front (by rw [h]; cases i <;> decide)
    have hc : c.kind = i.closing := h
    rw [behindItem_close hc i.closing_ne_comma, closeList_closing hc]
  · rw [behindItem_comma hk, bind_of_ok (delimited_close hc item later), closeList_comma hk hc,
      pure_run]

theorem stops_endsList (h : EndsList i rest) : Stops (Level.expression.rank + 1) rest := by
  rcases h with h | ⟨k, c, later, rfl, hk, -⟩
  · rw [Stops, h]
    cases i <;> decide
  · exact stops_cons hk (by decide) _

/-! ### Rows of items -/

/-- An item ends with a token that ends an operand. -/
theorem Derives.item_ends {x : i.Tree} (h : Derives (.item i) ts x)
    (before : Option Token.Kind) : (kindBehind before ts).any endsOperand = true := by
  cases h with
  | element h | positional h => exact h.ends trivial trivial before
  | keyword _ _ h | entry _ _ h => simpa using h.ends trivial trivial _

/-- The tokens are items without a comma behind the last.  At every depth they are read up to the
end of the list, or the nesting is found too deep whichever way the list ends. -/
structure ItemRow (i : Item) (row : List Token) (xs : List i.Tree) : Prop where
  ends : ∀ before, (kindBehind before row).any endsOperand = true
  reaches : ∀ d, Reaches (EndsList i) (· = closeList i xs) (delimited i.closing (i.parser d)) row

theorem ItemRow.last {x : i.Tree} (h : Derives (.item i) ts x) : ItemRow i ts [x] where
  ends := h.item_ends
  reaches d := by
    have hitem : Reaches (EndsList i) (· = pure x) (i.parser d) ts :=
      (h.steady d).mono fun _ => stops_endsList
    have hend : Reaches (EndsList i) (· = closeList i [x])
        (i.parser d >>= behindItem i.closing (i.parser d)) ts :=
      hitem.ended.turn fun rest hrest => behindItem_endsList hrest (i.parser d) x
    exact hend.congr fun rest _ => delimited_round (trims_item i d)
      (by simp [ne_nil_of_begins h.begins]) (front_ne_closing h.begins i rest)

/-- An item and a comma in front of a row. -/
theorem ItemRow.more {x : i.Tree} {xs : List i.Tree} (h : Derives (.item i) ts x)
    (hc : c.kind = .comma) (hrow : ItemRow i row xs) : ItemRow i (ts ++ c :: row) (x :: xs) where
  ends before := by simpa using hrow.ends _
  reaches d := by
    have hlater : Reaches (EndsList i) (· = closeList i (x :: xs))
        (behindItem i.closing (i.parser d) x) (c :: row) := by
      refine ((hrow.reaches d).bind fun q hq => ?_).congr fun rest _ => behindItem_comma hc _ x _
      rw [hq, closeList, closeList]
      simp only [bind_assoc, pure_bind]
    have hround := Reaches.after (h.steady d) hlater fun _ _ => stops_cons hc (by decide) _
    refine hround.congr fun rest _ => delimited_round (trims_item i d) (by simp) ?_
    rw [List.append_assoc]
    exact front_ne_closing h.begins i _

/-- The items of a list are a row with or without a comma behind it. -/
abbrev Rowed : (r : Rule) → List Token → r.Tree → Prop
  | .items i, ts, xs => (ts = [] ∧ xs = []) ∨
      ∃ row, ItemRow i row xs ∧ (ts = row ∨ ∃ q : Token, q.kind = .comma ∧ ts = row ++ [q])
  | _, _, _ => True

/-- Items are a row of some, with or without a comma behind the last, or none. -/
theorem Derives.rowed {r : Rule} {v : r.Tree} (h : Derives r ts v) : Rowed r ts v := by
  induction h with
  | itemsNil => exact .inl ⟨rfl, rfl⟩
  | itemsLast hx => exact .inr ⟨_, .last hx, .inl rfl⟩
  | @itemsMore i ts us c x xs hx hc hxs _ ih =>
    rcases ih with ⟨rfl, rfl⟩ | ⟨row, hrow, rfl | ⟨q, hq, rfl⟩⟩
    · exact .inr ⟨ts, .last hx, .inr ⟨c, hc, rfl⟩⟩
    · exact .inr ⟨_, hrow.more hx hc, .inl rfl⟩
    · exact .inr ⟨_, hrow.more hx hc, .inr ⟨q, hq, by simp⟩⟩
  | _ => trivial

/-! ### A comma in the place of an item -/

/-- At a depth an item is found nowhere, or a comma in its place is refused. -/
theorem Item.refuses_or_tooDeep (i : Item) (d : Nat) : (∀ ts, TooDeep ((i.parser d).run ts)) ∨
    ∀ ts, (front ts).kind = .comma → (i.parser d).run ts = .error (noExpression (front ts)) ts := by
  have hexpression (d : Nat) : (∀ ts, TooDeep ((Parser.expression d).run ts)) ∨
      ∀ ts, (front ts).kind = .comma →
        (Parser.expression d).run ts = .error (noExpression (front ts)) ts := by
    by_cases hd : Level.expression.height < d
    · exact .inr fun ts hcomma => Level.refuses hd (by rw [hcomma]; rfl) (by rw [hcomma]; decide)
    · exact .inl (Level.tooDeep_of_le (Nat.not_lt.mp hd))
  -- an argument and an entry begin with an expression of one rule less
  cases i with
  | element => exact hexpression d
  | argument =>
    cases d with
    | zero => exact .inl tooDeep_run
    | succ d =>
      have hrun (ts : List Token) : ∃ f, (Parser.argument (d + 1)).run ts =
          (Parser.expression d >>= f).run ts := by
        rw [Parser.argument]
        exact ⟨_, bind_of_ok (current_run ts)⟩
      refine (hexpression d).imp (fun h ts => ?_) fun h ts hcomma => ?_ <;>
        obtain ⟨f, hf⟩ := hrun ts
      · exact hf ▸ tooDeep_bind (h ts)
      · exact hf.trans (bind_of_error (h ts hcomma))
  | entry =>
    cases d with
    | zero => exact .inl fun ts => tooDeep_bind (tooDeep_run ts)
    | succ d =>
      have hrun : ∃ f, Item.entry.parser (d + 1) = Parser.expression d >>= f := by
        show ∃ f, Parser.entry (d + 1) = _
        rw [Parser.entry]
        exact ⟨_, rfl⟩
      obtain ⟨f, hf⟩ := hrun
      refine (hexpression d).imp (fun h ts => ?_) fun h ts hcomma => ?_
      · exact hf ▸ tooDeep_bind (h ts)
      · exact hf ▸ bind_of_error (h ts hcomma)

/-- Where an item was read, a comma in the place of one is refused. -/
theorem delimited_refuses {d : Nat} (hk : k.kind = .comma)
    (hitem : ¬ ∀ ts, TooDeep ((i.parser d).run ts)) (rest : List Token) :
    (delimited i.closing (i.parser d)).run (k :: rest) = .error (noExpression k) (k :: rest) := by
  rw [delimited_round (trims_item i d) (by simp) (hk ▸ i.closing_ne_comma.symm)]
  exact bind_of_error ((i.refuses_or_tooDeep d).resolve_left hitem _ hk)

/-- Where the items have just begun a comma is refused as no expression. -/
theorem delimited_refuses_or_tooDeep (hk : k.kind = .comma) (i : Item) (d : Nat)
    (rest : List Token) : TooDeep ((delimited i.closing (i.parser d)).run (k :: rest)) ∨
      (delimited i.closing (i.parser d)).run (k :: rest) =
        .error (noExpression k) (k :: rest) := by
  by_cases hitem : ∀ ts, TooDeep ((i.parser d).run ts)
  · refine .inl ?_
    rw [delimited_round (trims_item i d) (by simp) (hk ▸ i.closing_ne_comma.symm)]
    exact tooDeep_bind (hitem _)
  · exact .inr (delimited_refuses hk hitem rest)

/-! ### Lists of a template -/

theorem Item.opening_injective {i j : Item} (h : i.opening = j.opening) : i = j := by
  cases i <;> cases j <;> first | rfl | cases h

/-- A closing bracket does not stand in a row whose brackets match, behind such a row. -/
theorem not_balanced (hts : Balanced ts) (hc : c.kind = i.closing) :
    ¬ Balanced (ts ++ c :: us) := by
  have hnest : nest [] i.closing = none := by cases i <;> rfl
  have hts : (ts.map Token.kind).foldlM nest [] = some [] := hts
  simp [Balanced, List.foldlM_append, hts, hc, hnest]

/-- A row whose brackets match is determined by where it begins and by the kind of bracket that
closes it. -/
theorem balanced_unique {us' : List Token} {c' : Token} (hts : Balanced ts) (hus : Balanced us)
    (hc : c.kind = i.closing) (hc' : c'.kind = i.closing)
    (h : ts ++ c :: rest = us ++ c' :: us') : ts = us ∧ c = c' ∧ rest = us' := by
  rcases List.append_eq_append_iff.mp h with
    ⟨_ | ⟨t, mid⟩, hmid, hrest⟩ | ⟨_ | ⟨t, mid⟩, hmid, hrest⟩
  · cases hrest
    exact ⟨by simpa using hmid.symm, rfl, rfl⟩
  · obtain ⟨rfl, -⟩ := List.cons.inj hrest
    exact absurd (hmid ▸ hus) (not_balanced hts hc)
  · cases hrest
    exact ⟨by simpa using hmid, rfl, rfl⟩
  · obtain ⟨rfl, -⟩ := List.cons.inj hrest
    exact absurd (hmid ▸ hts) (not_balanced hus hc')

theorem Item.sound (i : Item) (d : Nat) : Accepts (i.parser d) (Derives (.item i)) := by
  cases i with
  | element =>
    intro ts rest n h
    obtain ⟨used, rfl, hn⟩ := (rules_sound d).level .expression h
    exact ⟨used, rfl, .element hn⟩
  | argument => exact (rules_sound d).argument
  | entry => exact (rules_sound d).entry

/-- Only the last token is dropped. -/
theorem dropEnd_behind (ho : o.kind ≠ .endOfInput) (init rest : List Token) :
    dropEnd (init ++ o :: rest) = init ++ o :: dropEnd rest := by
  have hend : ∀ t ∈ (init ++ [o]).getLast?, t.kind ≠ .endOfInput := by simpa using ho
  simpa using dropEnd_append hend rest

/-- Behind two tokens that do not stand for the end, the end is dropped as before. -/
theorem dropEnd_behind_pair (ho : o.kind ≠ .endOfInput) (hk : k.kind ≠ .endOfInput)
    (init rest : List Token) :
    dropEnd (init ++ o :: k :: rest) = init ++ o :: k :: dropEnd rest := by
  rw [dropEnd_behind ho]
  exact congrArg (init ++ o :: ·) (dropEnd_behind hk [] rest)

/-- A list in a template: behind the tokens `init` the bracket `o` begins one, `inner` stands
between its brackets, and `c` closes it. -/
structure IsList (i : Item) (init : List Token) (o : Token) (inner : List Token) (c : Token) :
    Prop where
  opening : o.kind = i.opening
  opens : opensList (kindBehind none init) o.kind = true
  balanced : Balanced inner
  closing : c.kind = i.closing

/-- A template ends in work on a list, wherever a bracket begins one and at each comma. -/
theorem exists_listing {t : Token} (h : parse (init ++ t :: rest) = .ok n)
    (ht : opensList (kindBehind none init) t.kind = true ∨ t.kind = .comma) :
    ∃ q : Parser Node, Listing t q ∧
      ∀ later, InPlace t later → program.run (init ++ later) = q.run later := by
  have hend : t.kind ≠ .endOfInput := fun he => by
    rw [he] at ht
    exact ht.elim nofun nofun
  rw [← parseWithin_depthLimit] at h
  obtain ⟨body, -, hbody⟩ := derives_of_parseWithin h
  rw [dropEnd_behind hend] at hbody
  have hlists : Lists t program init :=
    ((hbody.lists trivial nofun ⟨⟨_, rfl⟩, ht⟩ depthLimit).1).bind
  obtain ⟨body', left, -, hrun⟩ := parseWithin_eq_ok.mp h
  refine hlists.resolve_left fun hdeep => ?_
  have hrun : program.run (init ++ t :: dropEnd rest) = .ok (.program body') left := by
    rw [← dropEnd_behind hend]
    exact bind_of_ok hrun
  have hdeep := hdeep (t :: dropEnd rest) (.inl rfl)
  rw [hrun] at hdeep
  exact not_tooDeep_ok _ _ hdeep

/-- At a list of a template its items are read, and the template goes on with them alone. -/
theorem IsList.reads (h : IsList i init o inner c)
    (hparse : parse (init ++ o :: (inner ++ c :: rest)) = .ok n) :
    ∃ (d : Nat) (xs : List i.Tree) (f : List i.Tree → Parser Node), Derives (.items i) inner xs ∧
      (delimited i.closing (i.parser d)).run (inner ++ c :: dropEnd rest) =
        .ok xs (dropEnd rest) ∧
      ∀ later, program.run (init ++ o :: later) =
        (delimited i.closing (i.parser d) >>= f).run later := by
  obtain ⟨q, hq, hrun⟩ := exists_listing hparse (.inl h.opens)
  cases hq with
  | comma ho => exact absurd (h.opening.symm.trans ho) (by cases i <;> decide)
  | @opening j d f ho =>
    obtain rfl := Item.opening_injective (h.opening.symm.trans ho)
    have hrun (later : List Token) : program.run (init ++ o :: later) =
        (delimited i.closing (i.parser d) >>= f).run later :=
      (hrun (o :: later) (.inl rfl)).trans (bind_of_ok (advance_cons o later))
    -- the items that are read are those between the brackets
    have hend : o.kind ≠ .endOfInput := h.opening ▸ by cases i <;> decide
    have hend' : c.kind ≠ .endOfInput := h.closing ▸ by cases i <;> decide
    have hok := hparse
    rw [parse, dropEnd_behind hend, dropEnd_behind hend', hrun] at hok
    cases hitems : (delimited i.closing (i.parser d)).run (inner ++ c :: dropEnd rest) with
    | error e left =>
      rw [bind_of_error hitems] at hok
      cases hok
    | ok xs left =>
      have hread := hitems
      rw [delimited, bind_of_ok (remaining_run _)] at hread
      obtain ⟨_, hsplit, row, c', rfl, hc', hrow⟩ := accepts_delimitedFor (i.sound d) _ hread
      rw [List.append_assoc, List.singleton_append] at hsplit
      obtain ⟨rfl, -, rfl⟩ :=
        balanced_unique h.balanced (hrow.nests trivial []) h.closing hc' hsplit
      exact ⟨d, xs, f, hrow, hitems, hrun⟩

/-- Templates that are read alike are parsed alike. -/
theorem parse_eq_of_run (h : program.run (dropEnd ts) = program.run (dropEnd us)) :
    parse ts = parse us := by
  rw [parse, parse, h]

/-- The items of a list without a comma behind the last; behind them the list may end either way. -/
theorem IsList.exists_row (h : IsList i init o inner c) (hne : inner ≠ [])
    (hparse : parse (init ++ o :: (inner ++ c :: rest)) = .ok n) :
    ∃ row, (∀ before, (kindBehind before row).any endsOperand = true) ∧
      (inner = row ∨ ∃ q : Token, q.kind = .comma ∧ inner = row ++ [q]) ∧
      parse (init ++ o :: (row ++ c :: rest)) = .ok n ∧
      ∀ k : Token, k.kind = .comma → parse (init ++ o :: (row ++ k :: c :: rest)) = .ok n := by
  obtain ⟨d, xs, f, hitems, hread, hrun⟩ := h.reads hparse
  obtain ⟨row, hrow, hinner⟩ := hitems.rowed.resolve_left fun hnil => hne hnil.1
  have ho : o.kind ≠ .endOfInput := h.opening ▸ by cases i <;> decide
  have hc : c.kind ≠ .endOfInput := h.closing ▸ by cases i <;> decide
  have hends : ∃ ends, EndsList i ends ∧ inner ++ c :: dropEnd rest = row ++ ends := by
    rcases hinner with rfl | ⟨q, hq, rfl⟩
    · exact ⟨_, endsList_closing h.closing _, rfl⟩
    · exact ⟨_, endsList_comma hq h.closing _, by rw [List.append_assoc, List.singleton_append]⟩
  -- the row was found, so the depth is enough for it
  have hclose {ends : List Token} (hends' : EndsList i ends) :
      (delimited i.closing (i.parser d)).run (row ++ ends) = (closeList i xs).run ends := by
    rcases hrow.reaches d with hdeep | ⟨_, rfl, hreach⟩
    · obtain ⟨ends₀, hends₀, heq⟩ := hends
      have hdeep := hdeep ends₀ hends₀
      rw [← heq, hread] at hdeep
      exact absurd hdeep (not_tooDeep_ok _ _)
    · exact hreach ends hends'
  have hwhole : program.run (init ++ o :: (inner ++ c :: dropEnd rest)) =
      (f xs).run (dropEnd rest) := (hrun _).trans (bind_of_ok hread)
  refine ⟨row, hrow.ends, hinner, ?_, fun k hk => ?_⟩ <;> refine .trans (parse_eq_of_run ?_) hparse
  · rw [dropEnd_behind ho, dropEnd_behind hc, dropEnd_behind ho, dropEnd_behind hc, hwhole, hrun]
    exact bind_of_ok ((hclose (endsList_closing h.closing _)).trans
      (closeList_closing h.closing xs _))
  · have hk' : k.kind ≠ .endOfInput := by rw [hk]; decide
    rw [dropEnd_behind ho, dropEnd_behind_pair hk' hc, dropEnd_behind ho, dropEnd_behind hc, hwhole,
      hrun]
    exact bind_of_ok ((hclose (endsList_comma hk h.closing _)).trans
      (closeList_comma hk h.closing xs _))

/-! ### Commas that are refused -/

/-- The template is refused at the token, which is the one at the place: no expression begins with
it. -/
def RefusedAt (ts : List Token) (place : Nat) (t : Token) : Prop :=
  parse ts = .error (noExpression t) ∧ ((Session.ofTokens ts).run program).2.position = place

/-- A comma behind another token is where the parsing ends. -/
theorem refusedAt_comma (ho : o.kind ≠ .endOfInput) (hk : k.kind = .comma)
    (h : program.run (init ++ o :: k :: dropEnd rest) =
      .error (noExpression k) (k :: dropEnd rest)) :
    RefusedAt (init ++ o :: k :: rest) (init.length + 1) k := by
  have hts := dropEnd_behind_pair ho (by rw [hk]; decide : k.kind ≠ .endOfInput) init rest
  have hused : (Session.ofTokens (init ++ o :: k :: rest)).left =
      (init ++ [o]) ++ k :: dropEnd rest := by
    rw [Session.left_ofTokens, hts, List.append_assoc, List.singleton_append]
  have hrun := Session.run_of_error (Session.tracks_program _) hused (by rwa [Session.left_ofTokens, hts])
  rw [RefusedAt, parse_eq_run, hrun]
  exact ⟨rfl, by simp [Session.ofTokens]⟩

/-- Items that are not empty begin with an expression. -/
theorem Derives.items_begins {xs : List i.Tree} (h : Derives (.items i) ts xs) (hne : ts ≠ []) :
    Level.expression.begins (front ts).kind = true := by
  cases h with
  | itemsNil => exact absurd rfl hne
  | itemsLast h => exact h.begins
  | itemsMore h => exact begins_append h.begins _

/-- A comma behind the bracket that begins a list is refused.  Only where there is no item may the
nesting be found too deep before. -/
theorem IsList.refuses (h : IsList i init o inner c) (hk : k.kind = .comma)
    (hparse : parse (init ++ o :: (inner ++ c :: rest)) = .ok n) :
    RefusedAt (init ++ o :: k :: (inner ++ c :: rest)) (init.length + 1) k ∨
      (inner = [] ∧ NestedTooDeep (init ++ o :: k :: (inner ++ c :: rest))) := by
  obtain ⟨d, xs, f, hitems, hread, hrun⟩ := h.reads hparse
  have ho : o.kind ≠ .endOfInput := h.opening ▸ by cases i <;> decide
  by_cases hne : inner = []
  · rcases delimited_refuses_or_tooDeep hk i d (dropEnd (inner ++ c :: rest)) with hdeep | hrefused
    · obtain ⟨t, left, hdeep⟩ := hdeep
      refine .inr ⟨hne, t, ?_⟩
      rw [parse, dropEnd_behind_pair ho (by rw [hk]; decide), hrun, bind_of_error hdeep]
    · exact .inl (refusedAt_comma ho hk ((hrun _).trans (bind_of_error hrefused)))
  · -- the first item was read, so the depth is enough to refuse the comma
    have hbegins := hitems.items_begins hne
    refine .inl (refusedAt_comma ho hk ((hrun _).trans
      (bind_of_error (delimited_refuses hk (fun hdeep => ?_) _))))
    obtain ⟨t, left, hdeep⟩ := hdeep (inner ++ c :: dropEnd rest)
    rw [delimited_round (trims_item i d) (by simp) (front_ne_closing hbegins i _),
      bind_of_error hdeep] at hread
    cases hread

/-- A comma behind a comma of a template is refused, and a comma before one makes that refused. -/
theorem refuses_at_comma {q : Token} (hq : q.kind = .comma) (hk : k.kind = .comma)
    (hparse : parse (init ++ q :: rest) = .ok n) :
    RefusedAt (init ++ q :: k :: rest) (init.length + 1) k ∧
      RefusedAt (init ++ k :: q :: rest) (init.length + 1) q := by
  obtain ⟨p, hp, hrun⟩ := exists_listing hparse (.inr hq)
  cases hp with
  | @opening i d f hopen => exact absurd (hopen.symm.trans hq) (by cases i <;> decide)
  | @comma i d x f used left _ hx =>
    have hitem : ¬ ∀ ts, TooDeep ((i.parser d).run ts) := fun hdeep =>
      not_tooDeep_ok _ _ (hx ▸ hdeep used)
    -- either comma stands behind the item that was read, and the other in the place of an item
    have refused {a b : Token} (ha : a.kind = .comma) (hb : b.kind = .comma) (rest : List Token) :
        RefusedAt (init ++ a :: b :: rest) (init.length + 1) b := by
      refine refusedAt_comma (by rw [ha]; decide) hb ?_
      rw [hrun (a :: b :: dropEnd rest) (.inr ⟨ha, hq⟩)]
      refine bind_of_error ?_
      rw [behindItem_comma ha]
      exact bind_of_error (delimited_refuses hb hitem _)
    exact ⟨refused hq hk rest, refused hk hq rest⟩

/-! ### Whole templates -/

/-- **A comma more makes no difference at the end of a list, and is refused elsewhere.**  In a
template that is parsed, a list with items may end in a comma or not: with one put there or taken
away, the template has the same tree.  A comma behind the bracket that begins a list is refused, and
so is one behind a comma; before a comma it makes that one refused.  These are all the other places
between items, as every comma of a template stands behind an item.  In a list without items the
nesting may be found too deep instead, as no item has been read there. -/
theorem comma_neutral_only_at_end (hk : k.kind = .comma) (hparse : parse ts = .ok n) :
    (∀ i init o inner c rest, IsList i init o inner c → ts = init ++ o :: (inner ++ c :: rest) →
      (inner ≠ [] → (∀ q ∈ inner.getLast?, q.kind ≠ .comma) →
        parse (init ++ o :: (inner ++ k :: c :: rest)) = .ok n) ∧
      (∀ items q, inner = items ++ [q] → q.kind = .comma →
        parse (init ++ o :: (items ++ c :: rest)) = .ok n) ∧
      (inner ≠ [] → RefusedAt (init ++ o :: k :: (inner ++ c :: rest)) (init.length + 1) k) ∧
      (inner = [] → RefusedAt (init ++ o :: k :: c :: rest) (init.length + 1) k ∨
        NestedTooDeep (init ++ o :: k :: c :: rest))) ∧
    ∀ init q rest, q.kind = .comma → ts = init ++ q :: rest →
      RefusedAt (init ++ q :: k :: rest) (init.length + 1) k ∧
        RefusedAt (init ++ k :: q :: rest) (init.length + 1) q := by
  refine ⟨?_, fun init q rest hq hts => refuses_at_comma hq hk (hts ▸ hparse)⟩
  rintro i init o inner c rest hlist rfl
  refine ⟨fun hne hlast => ?_, fun items q hinner hq => ?_, fun hne => ?_, fun hnil => ?_⟩
  · obtain ⟨row, -, rfl | ⟨q, hq, rfl⟩, -, hcomma⟩ := hlist.exists_row hne hparse
    · exact hcomma k hk
    · exact absurd hq (hlast q (by simp))
  · obtain ⟨row, hends, hrow, hclosed, -⟩ := hlist.exists_row (by simp [hinner]) hparse
    rcases hrow with rfl | ⟨q', -, hrow⟩
    · -- an item does not end in a comma
      have hend := hends none
      rw [hinner] at hend
      simp [hq, endsOperand] at hend
    · obtain ⟨rfl, -⟩ := List.append_inj' (hinner.symm.trans hrow) rfl
      exact hclosed
  · exact (hlist.refuses hk hparse).resolve_right fun h => hne h.1
  · subst hnil
    exact (hlist.refuses hk hparse).imp_right And.right

/-- The tokens of `{{ f([...]) }}` with those between the square brackets. -/
def sampleArray (inner : List Token) : List Token :=
  [⟨.openExpression, "\x7b\x7b", 1, 1⟩, ⟨.identifier, "f", 1, 4⟩, ⟨.leftParen, "(", 1, 5⟩] ++
    ⟨.leftBracket, "[", 1, 6⟩ :: (inner ++ ⟨.rightBracket, "]", 1, 12⟩ ::
      [⟨.rightParen, ")", 1, 13⟩, ⟨.closeExpression, "\x7d\x7d", 1, 15⟩])

/-- The list in `{{ f([a, b,]) }}` is the same without its last comma, and refuses one more in front
of its items. -/
theorem comma_neutral_only_at_end_sample :
    let a : Token := ⟨.identifier, "a", 1, 7⟩
    let b : Token := ⟨.identifier, "b", 1, 10⟩
    let comma : Token := ⟨.comma, ",", 1, 8⟩
    let tree := Node.program [.call (.identifier "f") [.array [.identifier "a", .identifier "b"]]]
    parse (sampleArray [a, comma, b, comma]) = .ok tree ∧
      parse (sampleArray [a, comma, b]) = .ok tree ∧
      RefusedAt (sampleArray [comma, a, comma, b, comma]) 4 comma := by
  intro a b comma tree
  have hparse : parse (sampleArray [a, comma, b, comma]) = .ok tree := rfl
  obtain ⟨hlists, -⟩ := comma_neutral_only_at_end (k := comma) rfl hparse
  obtain ⟨-, hdelete, hfront, -⟩ := hlists .element _ _ [a, comma, b, comma] _ _
    ⟨rfl, rfl, rfl, rfl⟩ rfl
  exact ⟨hparse, hdelete [a, comma, b] comma rfl rfl, hfront (List.cons_ne_nil _ _)⟩

/-- The tokens in front of the arguments of a filter, inside many parentheses and behind many
`not`. -/
def deepFront : List Token :=
  ⟨.openExpression, "\x7b\x7b", 0, 0⟩ :: (List.replicate 88 ⟨.leftParen, "(", 0, 0⟩ ++
    List.replicate 7 ⟨.kwNot, "not", 0, 0⟩ ++
      [⟨.identifier, "x", 0, 0⟩, ⟨.pipe, "|", 0, 0⟩, ⟨.identifier, "f", 0, 0⟩])

/-- The tokens of that filter with those between the parentheses behind its name. -/
def deepFilter (arguments : List Token) : List Token :=
  deepFront ++ ⟨.leftParen, "(", 0, 0⟩ :: (arguments ++ ⟨.rightParen, ")", 0, 0⟩ ::
    (List.replicate 88 ⟨.rightParen, ")", 0, 0⟩ ++ [⟨.closeExpression, "\x7d\x7d", 0, 0⟩]))

/-- In an empty list the nesting may be found too deep where the comma is: there is depth enough for
the list without items, and not for an item. -/
theorem comma_in_empty_list_too_deep :
    let comma : Token := ⟨.comma, ",", 0, 0⟩
    IsList .argument deepFront ⟨.leftParen, "(", 0, 0⟩ [] ⟨.rightParen, ")", 0, 0⟩ ∧
      (∃ n, parse (deepFilter []) = .ok n) ∧ NestedTooDeep (deepFilter [comma]) ∧
      ¬ RefusedAt (deepFilter [comma]) (deepFront.length + 1) comma := by
  intro comma
  have haccepted : (parse (deepFilter [])).isOk = true := by decide +kernel
  have hfailed : (parse (deepFilter [comma])).map (fun _ => ()) =
      .error (.malformed ⟨.nestingTooDeep, some comma⟩) := by decide +kernel
  have hdeep : parse (deepFilter [comma]) = .error (.malformed ⟨.nestingTooDeep, some comma⟩) := by
    cases hparse : parse (deepFilter [comma]) <;> rw [hparse] at hfailed <;> cases hfailed
    rfl
  refine ⟨⟨rfl, by decide, rfl, rfl⟩, ?_, ⟨_, hdeep⟩, fun hrefused => ?_⟩
  · cases hparse : parse (deepFilter []) with
    | ok n => exact ⟨n, rfl⟩
    | error e =>
      rw [hparse] at haccepted
      cases haccepted
  · cases hdeep.symm.trans hrefused.1

end Stencil.Grammar
