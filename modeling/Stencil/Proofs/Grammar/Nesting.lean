import Stencil.Proofs.Grammar.Inside
import Stencil.Proofs.Grammar.Parsing

/-!
# Grammar — nesting

A template that is parsed is properly nested in three ways at once (`nested_of_parse`).  It is a row
of texts and whole tags (`Passage`); inside each tag the brackets of the three pairs match
(`Balanced`); and the tags that begin, divide and end blocks match as well (`OpenBlock.step`).

Both kinds of matching are those of a stack.  What is derived inside a tag leaves every stack of
brackets as it was (`Derives.nests`), and whole pieces leave every stack of blocks as it was
(`Derives.parted`); only between the words of one conditional does the block on top change, which
notes whether its `else` has been seen.
-/

namespace Stencil.Grammar
open Stencil.Parser Stencil.Lexer

/-! ### Brackets -/

/-- The pairs of brackets that are open behind a token, if it may stand there. -/
def nest : List Item → Token.Kind → Option (List Item)
  | stack, .leftParen => some (.argument :: stack)
  | stack, .leftBracket => some (.element :: stack)
  | stack, .leftBrace => some (.entry :: stack)
  | .argument :: stack, .rightParen => some stack
  | .element :: stack, .rightBracket => some stack
  | .entry :: stack, .rightBrace => some stack
  | _, .rightParen | _, .rightBracket | _, .rightBrace => none
  | stack, _ => some stack

/-- Every bracket is closed by the other of its pair, and the last opened is the first closed. -/
def Balanced (ts : List Token) : Prop := (ts.map Token.kind).foldlM nest [] = some []

/-! ### Blocks -/

/-- A block of pieces that is not ended yet. -/
inductive OpenBlock
  /-- Has the `else` of the conditional been seen? -/
  | conditional (hasElse : Bool)
  | loop

/-- The blocks that are open behind the tag with the leading word, if it may stand there: `elif` and
`else` only in a conditional whose `else` has not been seen. -/
def OpenBlock.step : List OpenBlock → Token.Kind → Option (List OpenBlock)
  | blocks, .kwIf => some (conditional false :: blocks)
  | blocks, .kwFor => some (loop :: blocks)
  | conditional false :: outer, .kwElif => some (conditional false :: outer)
  | conditional false :: outer, .kwElse => some (conditional true :: outer)
  | conditional _ :: outer, .kwEndif => some outer
  | loop :: outer, .kwEndfor => some outer
  | _, .kwElif | _, .kwElse | _, .kwEndif | _, .kwEndfor => none
  | blocks, _ => some blocks

/-! ### Passages -/

/-- A text, or a whole tag with the marks around it. -/
inductive Passage
  | text (t : Token)
  | tag (tag : Tag) (opener : Token) (inner : List Token) (closer : Token)

namespace Passage

/-- The tokens of a passage. -/
def tokens : Passage → List Token
  | text t => [t]
  | tag _ opener inner closer => opener :: (inner ++ [closer])

/-- A tag is closed by its own mark, no text and no mark stands inside it, and the brackets inside
it match. -/
def Proper : Passage → Prop
  | text t => t.kind = .text
  | tag g opener inner closer =>
    opener.kind = g.openKind ∧ AllInner inner ∧ Balanced inner ∧ closer.kind = g.closeKind

/-- The word that leads a statement tag. -/
def lead? : Passage → Option Token.Kind
  | tag .statement _ (w :: _) _ => some w.kind
  | _ => none

end Passage

/-- The tokens are passages, which lead from the one stack of blocks to the other. -/
def Parted (ts : List Token) (blocks blocks' : List OpenBlock) : Prop :=
  ∃ passages : List Passage, ts = passages.flatMap Passage.tokens ∧
    (∀ p ∈ passages, p.Proper) ∧
    (passages.filterMap Passage.lead?).foldlM OpenBlock.step blocks = some blocks'

/-! ### Inside tags -/

variable {kind : Token.Kind} {t : Token} {ts us : List Token} {blocks blocks' blocks'' : List OpenBlock}

/-- The tokens leave open the brackets that were open before them, and no others. -/
def Nests (ts : List Token) : Prop := ∀ stack, (ts.map Token.kind).foldlM nest stack = some stack

/-- The kinds that are no brackets. -/
def isNeutral : Token.Kind → Bool
  | .leftParen | .leftBracket | .leftBrace | .rightParen | .rightBracket | .rightBrace => false
  | _ => true

theorem nest_of_isNeutral (h : isNeutral kind = true) (stack : List Item) :
    nest stack kind = some stack := by
  cases kind <;> first | rfl | cases h

/-- An opening bracket is put on the stack. -/
@[simp] theorem nest_opening (i : Item) (stack : List Item) :
    nest stack i.opening = some (i :: stack) := by
  cases i <;> rfl

/-- A closing bracket takes its own kind off the stack. -/
@[simp] theorem nest_closing (i : Item) (stack : List Item) :
    nest (i :: stack) i.closing = some stack := by
  cases i <;> rfl

/-- No operator is a bracket. -/
theorem isNeutral_of_joins {l : Level} (h : l.joins kind = true) : isNeutral kind = true := by
  cases kind <;> first | rfl | (cases l <;> cases h)

namespace Nests

theorem nil : Nests [] := fun _ => rfl

/-- Rows that are nested on their own are nested one behind the other. -/
theorem append (h : Nests ts) (h' : Nests us) : Nests (ts ++ us) := by
  intro stack
  simp [List.map_append, List.foldlM_append, h stack, h' stack]

/-- A token that is no bracket may be put in front. -/
theorem cons (ht : t.kind = kind) (hkind : isNeutral kind = true) (h : Nests ts) :
    Nests (t :: ts) := by
  intro stack
  simp [ht, nest_of_isNeutral hkind, h stack]

/-- Brackets of one kind may be put around. -/
theorem brackets {i : Item} {o c : Token} (ho : o.kind = i.opening) (hc : c.kind = i.closing)
    (h : Nests ts) : Nests (o :: (ts ++ [c])) := by
  intro stack
  simp [ho, hc, List.foldlM_append, h (i :: stack)]

end Nests

/-- **Inside a tag the brackets match.** -/
theorem Derives.nests {r : Rule} {v : r.Tree} (h : Derives r ts v) (hr : r.Inside) : Nests ts := by
  induction h with
  -- rules that are others
  | tighter _ _ ih | array _ ih | object _ ih | index _ ih | slice _ _ ih | present _ ih
  | element _ ih | positional _ ih | itemsLast _ ih | plain _ ih => exact ih trivial
  -- expressions
  | inline _ hi _ he _ ih ih' ih'' =>
    exact (ih trivial).append (.cons hi rfl ((ih' trivial).append (.cons he rfl (ih'' trivial))))
  | operator _ _ hjoins _ ih ih' =>
    exact (ih trivial).append (.cons rfl (isNeutral_of_joins hjoins) (ih' trivial))
  | not ho _ ih => exact .cons ho rfl (ih trivial)
  | test _ hi _ ih ih' =>
    exact (ih trivial).append (.cons hi rfl (ih' (List.Subset.refl _)))
  | testNot _ hi ho _ ih ih' =>
    exact (ih trivial).append (.cons hi rfl (.cons ho rfl (ih' (List.Subset.refl _))))
  | filter _ hp _ ih ih' =>
    exact (ih trivial).append (.cons hp rfl (ih' (List.subset_append_left [_] [_])))
  | property _ hd ht ih => exact (ih trivial).append (.cons hd rfl (.cons ht rfl .nil))
  | subscript _ ho _ hc ih ih' =>
    exact (ih trivial).append (.brackets (i := .element) ho hc (ih' trivial))
  | call _ _ ih ih' => exact (ih trivial).append (ih' trivial)
  -- primaries and names
  | number ht | string ht | boolean ht | identifier ht => exact .cons ht rfl .nil
  | parenthesis ho _ hc ih => exact .brackets (i := .argument) ho hc (ih trivial)
  | name ht => rcases kind_of_named hr ht with hk | hk <;> exact .cons hk rfl .nil
  | applied _ _ ih ih' => exact (ih hr).append (ih' trivial)
  -- between brackets
  | absent | itemsNil => exact .nil
  | sliceEnd _ hc ih => exact (ih trivial).append (.cons hc rfl .nil)
  | sliceLast _ hc _ ih ih' | sliceMore _ hc _ ih ih' | keyword _ hc _ ih ih'
  | entry _ hc _ ih ih' | itemsMore _ hc _ ih ih' | assign _ hc _ ih ih' =>
    exact (ih trivial).append (.cons hc rfl (ih' trivial))
  | enclosed ho _ hc ih => exact .brackets ho hc (ih trivial)
  | _ => exact hr.elim

/-! ### Whole tags -/

namespace Parted

theorem nil : Parted [] blocks blocks := ⟨[], rfl, by simp, rfl⟩

/-- Passages in a row open and close blocks one after another. -/
theorem trans (h : Parted ts blocks blocks') (h' : Parted us blocks' blocks'') :
    Parted (ts ++ us) blocks blocks'' := by
  obtain ⟨passages, rfl, hproper, hblocks⟩ := h
  obtain ⟨passages', rfl, hproper', hblocks'⟩ := h'
  refine ⟨passages ++ passages', by simp, List.forall_mem_append.mpr ⟨hproper, hproper'⟩, ?_⟩
  simp [List.filterMap_append, List.foldlM_append, hblocks, hblocks']

theorem text (ht : t.kind = .text) : Parted [t] blocks blocks :=
  ⟨[.text t], rfl, List.forall_mem_singleton.mpr ht, rfl⟩

/-- An output tag opens and closes no block. -/
theorem output {o c : Token} (ho : o.kind = .openExpression) (hin : AllInner ts) (hts : Nests ts)
    (hc : c.kind = .closeExpression) : Parted (o :: (ts ++ [c])) blocks blocks :=
  ⟨[.tag .expression o ts c], by simp [Passage.tokens],
    List.forall_mem_singleton.mpr ⟨ho, hin, hts [], hc⟩, rfl⟩

/-- A statement tag that is led by the word `w`. -/
theorem statement (blocks : List OpenBlock) {o w c : Token} (ho : o.kind = .openStatement) (hw : w.kind = kind)
    (hkind : kind.isInner = true ∧ isNeutral kind = true)
    (hstep : OpenBlock.step blocks kind = some blocks') (hin : AllInner ts) (hts : Nests ts)
    (hc : c.kind = .closeStatement) : Parted (o :: w :: (ts ++ [c])) blocks blocks' := by
  have hinner : AllInner (w :: ts) := allInner_cons.mpr ⟨hw ▸ hkind.1, hin⟩
  have hproper : (Passage.tag .statement o (w :: ts) c).Proper :=
    ⟨ho, hinner, Nests.cons hw hkind.2 hts [], hc⟩
  exact ⟨[.tag .statement o (w :: ts) c], by simp [Passage.tokens],
    List.forall_mem_singleton.mpr hproper, by simpa [Passage.lead?, hw] using hstep⟩

/-- A statement tag that is a word alone. -/
theorem word (blocks : List OpenBlock) {o w c : Token} (ho : o.kind = .openStatement) (hw : w.kind = kind)
    (hkind : kind.isInner = true ∧ isNeutral kind = true)
    (hstep : OpenBlock.step blocks kind = some blocks') (hc : c.kind = .closeStatement) :
    Parted [o, w, c] blocks blocks' :=
  statement blocks ho hw hkind hstep allInner_nil .nil hc

end Parted

/-- What follows the word that begins a conditional: the rest of that tag, and passages of which
some may divide the conditional. -/
def PartedBranches (ts : List Token) : Prop :=
  ∃ inner c us hasElse, ts = inner ++ c :: us ∧ AllInner inner ∧ Nests inner ∧
    c.kind = .closeStatement ∧
    ∀ outer, Parted us (.conditional false :: outer) (.conditional hasElse :: outer)

/-- The passages that a rule for whole tags derives. -/
abbrev Rule.Parted : Rule → List Token → Prop
  | .branches, ts => PartedBranches ts
  | .piece, ts | .body, ts => ∀ blocks, Grammar.Parted ts blocks blocks
  | _, _ => True

/-- **Pieces are passages that leave the blocks as they were.** -/
theorem Derives.parted {r : Rule} {v : r.Tree} (h : Derives r ts v) : r.Parted ts := by
  induction h with
  | noElse htest hc _ _ ih =>
    exact ⟨_, _, _, false, rfl, htest.allInner trivial, htest.nests trivial, hc, fun outer => ih _⟩
  -- the tag of an elif belongs to the same block, which has had no else so far
  | elseIf htest hc _ ho hw _ _ ih ih' =>
    obtain ⟨inner, c, us, hasElse, rfl, hin, hnests, hc', hus⟩ := ih'
    refine ⟨_, _, _, hasElse, rfl, htest.allInner trivial, htest.nests trivial, hc, fun outer => ?_⟩
    have htag := Parted.statement (.conditional false :: outer) ho hw (by decide) rfl
      hin hnests hc'
    simpa using (ih _).trans (htag.trans (hus outer))
  | elseBody htest hc _ ho hw hc' _ _ ih ih' =>
    refine ⟨_, _, _, true, rfl, htest.allInner trivial, htest.nests trivial, hc, fun outer => ?_⟩
    have htag := Parted.word (.conditional false :: outer) ho hw (by decide) rfl hc'
    exact (ih _).trans (htag.trans (ih' _))
  | text ht => exact fun _ => .text ht
  | output ho hn hc => exact fun _ => .output ho (hn.allInner trivial) (hn.nests trivial) hc
  | set ho hw hn hc =>
    exact fun _ =>
      .statement _ ho hw (by decide) rfl (hn.allInner trivial) (hn.nests trivial) hc
  -- the first tag opens the block that the branches are in, and the last one closes it
  | conditional ho hw _ ho' hw' hc ih =>
    obtain ⟨inner, c, us, hasElse, rfl, hin, hnests, hc', hus⟩ := ih
    intro blocks
    have hif := Parted.statement blocks ho hw (by decide) rfl hin hnests hc'
    have hendif := Parted.word (.conditional hasElse :: blocks) ho' hw' (by decide) rfl hc
    simpa using hif.trans ((hus blocks).trans hendif)
  | loop ho hw hv hi hiterable hc _ ho' hw' hc' _ _ ih =>
    intro blocks
    have hin := allInner_append.mpr ⟨hv.allInner trivial,
      allInner_cons.mpr ⟨by rw [hi]; rfl, hiterable.allInner trivial⟩⟩
    have hnests := (hv.nests trivial).append (.cons hi rfl (hiterable.nests trivial))
    have hfor := Parted.statement blocks ho hw (by decide) rfl hin hnests hc
    have hendfor := Parted.word (.loop :: blocks) ho' hw' (by decide) rfl hc'
    simpa using hfor.trans ((ih _).trans hendfor)
  | bodyNil => exact fun _ => .nil
  | bodyMore _ _ ih ih' => exact fun blocks => (ih blocks).trans (ih' blocks)
  | _ => trivial

/-! ### Whole templates -/

/-- **A template that is parsed is properly nested.**  Its tokens, without an end of the input at
their end, are texts and whole tags; inside each tag the brackets match; and so do the tags that
begin and end blocks, with `elif` and `else` directly within a conditional only, one `else` at most
and no `elif` behind it. -/
theorem nested_of_parse {n : Node} (h : parse ts = .ok n) :
    ∃ passages : List Passage, dropEnd ts = passages.flatMap Passage.tokens ∧
      (∀ p ∈ passages, p.Proper) ∧
      (passages.filterMap Passage.lead?).foldlM OpenBlock.step [] = some [] := by
  rw [← parseWithin_depthLimit] at h
  obtain ⟨body, -, hbody⟩ := derives_of_parseWithin h
  exact hbody.parted []

/-- The tokens of `{% if a[b] %}s{% elif c %}{% else %}{% endif %}`. -/
def sampleConditional : List Token :=
  [⟨.openStatement, "\x7b%", 1, 1⟩, ⟨.kwIf, "if", 1, 4⟩, ⟨.identifier, "a", 1, 7⟩,
    ⟨.leftBracket, "[", 1, 8⟩, ⟨.identifier, "b", 1, 9⟩, ⟨.rightBracket, "]", 1, 10⟩,
    ⟨.closeStatement, "%\x7d", 1, 12⟩, ⟨.text, "s", 1, 14⟩, ⟨.openStatement, "\x7b%", 1, 15⟩,
    ⟨.kwElif, "elif", 1, 18⟩, ⟨.identifier, "c", 1, 23⟩, ⟨.closeStatement, "%\x7d", 1, 25⟩,
    ⟨.openStatement, "\x7b%", 1, 27⟩, ⟨.kwElse, "else", 1, 30⟩, ⟨.closeStatement, "%\x7d", 1, 35⟩,
    ⟨.openStatement, "\x7b%", 1, 37⟩, ⟨.kwEndif, "endif", 1, 40⟩,
    ⟨.closeStatement, "%\x7d", 1, 46⟩]

/-- `if a[b]`, a text and an `elif` branch: the brackets match, and the block is opened and closed.
-/
theorem nested_of_parse_sample :
    parse sampleConditional = .ok (.program [.conditional
      (.member (.identifier "a") (.identifier "b") true) [.string "s"]
      [.conditional (.identifier "c") [] []]]) ∧
    ∃ passages : List Passage, dropEnd sampleConditional = passages.flatMap Passage.tokens ∧
      (∀ p ∈ passages, p.Proper) ∧
      (passages.filterMap Passage.lead?).foldlM OpenBlock.step [] = some [] := by
  have hparse : parse sampleConditional = .ok (.program [.conditional
      (.member (.identifier "a") (.identifier "b") true) [.string "s"]
      [.conditional (.identifier "c") [] []]]) := rfl
  exact ⟨hparse, nested_of_parse hparse⟩

end Stencil.Grammar
