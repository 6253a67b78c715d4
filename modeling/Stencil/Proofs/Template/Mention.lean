import Stencil.Node.Json
import Stencil.Proofs.Grammar.Content
import Stencil.Proofs.Json.Characters
import Stencil.Proofs.Lexer.Agreement
import Stencil.Proofs.Text.Character

/-!
# Template — characters of the output

The characters in the tokens of a template and in its tree.  One that is neither ASCII nor part of a
word comes into a token only from a text or from a string literal (`Lexer.common_of_cuts`), and both
are leaves of the tree (`Grammar.mentions_of_parse`).  So what the tokens mention of such characters,
the tree mentions as well (`mentions_of_tokens`).
-/

namespace Stencil

variable {c : Char}

/-! ### The tree -/

namespace Node

variable {n : Node} {part part' part'' : String × Json} {parts : List (String × Json)}

/-- A node mentions what its parts mention. -/
theorem mentions_first (h : part.2.Mentions c) : (tagged n (part :: parts)).Mentions c :=
  .inr (.inr (.inr (.inl h)))

theorem mentions_second (h : part'.2.Mentions c) :
    (tagged n (part :: part' :: parts)).Mentions c := .inr (.inr (.inr (.inr (.inr (.inl h)))))

theorem mentions_third (h : part''.2.Mentions c) :
    (tagged n (part :: part' :: part'' :: parts)).Mentions c :=
  .inr (.inr (.inr (.inr (.inr (.inr (.inr (.inl h)))))))

end Node

namespace Grammar

open Node

variable {x : Leaf} {t : Token} {n : Node} {ns : List Node} {ls : List Leaf}

/-- The leaf is a text or a string literal with the character in it. -/
def Leaf.Carries (c : Char) : Leaf → Prop
  | text s | string s => c ∈ s.toList
  | _ => False

mutual

/-- An expression mentions what its leaves carry. -/
theorem mentions_of_leaf (h : x.Carries c) : ∀ n : Node, x ∈ leaves n → n.toJson.Mentions c
  | .string s, hx => by
    obtain rfl := List.mem_singleton.mp hx
    exact mentions_first h
  | .number _, hx | .boolean _, hx | .identifier _, hx => by
    obtain rfl := List.mem_singleton.mp hx
    exact h.elim
  | .array ns, hx => mentions_first (mentions_of_leafAll h ns hx)
  | .object ps, hx => mentions_first (mentions_of_leafPairs h ps hx)
  | .member a b _, hx | .filter a b, hx | .keyword a b, hx | .assignment a b, hx =>
    (List.mem_append.mp hx).elim (fun hx => mentions_first (mentions_of_leaf h a hx))
      fun hx => mentions_second (mentions_of_leaf h b hx)
  | .call f args, hx =>
    (List.mem_append.mp hx).elim (fun hx => mentions_first (mentions_of_leaf h f hx))
      fun hx => mentions_second (mentions_of_leafAll h args hx)
  | .binary _ a b, hx => by
    rcases List.mem_append.mp hx with hx | hx
    · exact mentions_second (mentions_of_leaf h a hx)
    · cases hx with
      | head => exact h.elim
      | tail _ hx => exact mentions_third (mentions_of_leaf h b hx)
  | .unary _ a, hx => by
    cases hx with
    | head => exact h.elim
    | tail _ hx => exact mentions_second (mentions_of_leaf h a hx)
  | .conditional a body alternate, hx => by
    rcases List.mem_append.mp hx with hx | hx
    · rcases List.mem_append.mp hx with hx | hx
      · exact mentions_second (mentions_of_leafAll h body hx)
      · exact mentions_first (mentions_of_leaf h a hx)
    · exact mentions_third (mentions_of_leafAll h alternate hx)
  | .test a negated f, hx => by
    rcases List.mem_append.mp hx with hx | hx
    · rcases List.mem_append.mp hx with hx | hx
      · exact mentions_first (mentions_of_leaf h a hx)
      · cases negated with
        | false => cases hx
        | true =>
          obtain rfl := List.mem_singleton.mp hx
          exact h.elim
    · exact mentions_third (mentions_of_leafTest h f hx)
  | .slice start stop step, hx => by
    rcases List.mem_append.mp hx with hx | hx
    · rcases List.mem_append.mp hx with hx | hx
      · exact mentions_first (mentions_of_leafPart h start hx)
      · exact mentions_second (mentions_of_leafPart h stop hx)
    · exact mentions_third (mentions_of_leafPart h step hx)
  | .bare, hx | .program _, hx | .loop .., hx => nomatch hx

/-- The test behind `is` mentions what its leaves carry. -/
theorem mentions_of_leafTest (h : x.Carries c) : ∀ n : Node, x ∈ leavesOfTest n → n.toJson.Mentions c
  | .identifier _, hx => by
    obtain rfl := List.mem_singleton.mp hx
    exact h.elim
  | .call f args, hx =>
    (List.mem_append.mp hx).elim (fun hx => mentions_first (mentions_of_leafTest h f hx))
      fun hx => mentions_second (mentions_of_leafAll h args hx)
  | .bare, hx | .program _, hx | .number _, hx | .string _, hx | .boolean _, hx | .array _, hx
  | .object _, hx | .member .., hx | .binary .., hx | .unary .., hx | .conditional .., hx
  | .loop .., hx | .assignment .., hx | .filter .., hx | .test .., hx | .slice .., hx
  | .keyword .., hx => nomatch hx

/-- A list of nodes mentions what the leaves of each carry. -/
theorem mentions_of_leafAll (h : x.Carries c) : ∀ ns : List Node, x ∈ leavesOfAll ns →
    Json.ElementsMention c (listJson ns)
  | [], hx => nomatch hx
  | n :: ns, hx => (List.mem_append.mp hx).imp (mentions_of_leaf h n) (mentions_of_leafAll h ns)

theorem mentions_of_leafPairs (h : x.Carries c) : ∀ ps : List (Node × Node), x ∈ leavesOfPairs ps →
    Json.ElementsMention c (pairsJson ps)
  | [], hx => nomatch hx
  | (k, v) :: ps, hx => by
    rcases List.mem_append.mp hx with hx | hx
    · rcases List.mem_append.mp hx with hx | hx
      · exact .inl (.inr (.inl (mentions_of_leaf h k hx)))
      · exact .inl (.inr (.inr (.inr (.inl (mentions_of_leaf h v hx)))))
    · exact .inr (mentions_of_leafPairs h ps hx)

theorem mentions_of_leafPart (h : x.Carries c) : ∀ p : Option Node, x ∈ leavesOfPart p →
    (partJson p).Mentions c
  | none, hx => nomatch hx
  | some n, hx => mentions_of_leaf h n hx

end

mutual

/-- A piece of a template mentions what the leaves carry that are read off it. -/
theorem Yields.mentions (h : x.Carries c) :
    ∀ {n : Node} {ls : List Leaf}, Yields n ls → x ∈ ls → n.toJson.Mentions c
  | _, _, .text s, hx => by
    obtain rfl := List.mem_singleton.mp hx
    exact mentions_first h
  | n, _, .plain _, hx => mentions_of_leaf h n hx
  | _, _, .conditional a hbody halternate, hx => by
    rcases List.mem_append.mp hx with hx | hx
    · rcases List.mem_append.mp hx with hx | hx
      · exact mentions_first (mentions_of_leaf h a hx)
      · exact mentions_second (hbody.mentions h hx)
    · exact mentions_third (halternate.mentions h hx)
  | _, _, .loop target iterable hbody, hx => by
    rcases List.mem_append.mp hx with hx | hx
    · rcases List.mem_append.mp hx with hx | hx
      · exact mentions_first (mentions_of_leaf h target hx)
      · exact mentions_second (mentions_of_leaf h iterable hx)
    · exact mentions_third (hbody.mentions h hx)

/-- The pieces of a body mention what the leaves carry that are read off them in a row. -/
theorem YieldsAll.mentions (h : x.Carries c) : ∀ {ns : List Node} {ls : List Leaf},
    YieldsAll ns ls → x ∈ ls → Json.ElementsMention c (listJson ns)
  | _, _, .nil, hx => nomatch hx
  | _, _, .cons hn hns, hx => (List.mem_append.mp hx).imp (hn.mentions h) (hns.mentions h)

end

/-! ### Whole templates -/

variable {ts : List Token}

/-- The tree keeps every text and every string literal. -/
theorem mem_contentFrom (ht : t.kind = .text ∨ t.kind = .string) (h : t ∈ ts) :
    ∀ inLoop, t ∈ contentFrom inLoop ts := by
  have hkept : t.kind.isContent = true := by rcases ht with hk | hk <;> rw [hk] <;> rfl
  have hin : t.kind ≠ .kwIn := by rcases ht with hk | hk <;> rw [hk] <;> nofun
  induction h with
  | head us =>
    intro inLoop
    rw [contentFrom_of_isContent hkept fun hk => absurd hk hin]
    exact .head _
  | tail u h ih =>
    intro inLoop
    rw [contentFrom]
    split
    · exact ih true
    split
    · exact ih false
    split
    · exact .tail _ (ih inLoop)
    · exact ih inLoop

/-- A leaf that is read off a text or a string literal has its characters. -/
theorem Leaf.Of.carries (h : x.Of t) (ht : t.kind = .text ∨ t.kind = .string)
    (hc : c ∈ t.value.toList) : x.Carries c := by
  cases x with
  | text s | string s => exact h.2 ▸ hc
  | operator s =>
    obtain ⟨⟨l, hl⟩, -⟩ := h
    rcases ht with hk | hk <;> rw [hk] at hl <;> cases l <;> cases hl
  | testName s => rcases h.1 with hn | hn <;> rcases ht with hk | hk <;> cases hn.symm.trans hk
  | negated => rcases ht with hk | hk <;> cases (show t.kind = .kwNot from h).symm.trans hk
  | _ => rcases ht with hk | hk <;> cases h.1.symm.trans hk

/-- Where tokens and leaves correspond, each token has its leaf. -/
theorem exists_leaf_of_mem {us : List Token} (h : List.Forall₂ Leaf.Of ls us) (ht : t ∈ us) :
    ∃ x ∈ ls, x.Of t := by
  induction h with
  | nil => cases ht
  | cons hof _ ih =>
    cases ht with
    | head => exact ⟨_, .head _, hof⟩
    | tail _ ht =>
      obtain ⟨x, hx, hof⟩ := ih ht
      exact ⟨x, .tail _ hx, hof⟩

/-- **The tree mentions what stands in the texts and the string literals.** -/
theorem mentions_of_parse (h : parse ts = .ok n) (hmem : t ∈ ts)
    (ht : t.kind = .text ∨ t.kind = .string) (hc : c ∈ t.value.toList) :
    n.toJson.Mentions c := by
  rw [← parseWithin_depthLimit] at h
  obtain ⟨body, rfl, hbody⟩ := derives_of_parseWithin h
  obtain ⟨ls, hyields, us, hof, hkept⟩ := hbody.yields (by simp)
  obtain ⟨ends, hts, hends⟩ := eq_dropEnd_append ts
  have hcontent : contentFrom false ts = us := by
    rw [hts, hkept, contentFrom_of_end hends, List.append_nil]
  have hmem' : t ∈ us := hcontent ▸ mem_contentFrom ht hmem false
  obtain ⟨x, hx, hof⟩ := exists_leaf_of_mem hof hmem'
  exact mentions_first (YieldsAll.mentions (hof.carries ht hc) hyields hx)

end Grammar

/-! ### The tokens -/

/-- The names of the kinds that the lexer knows are ASCII. -/
theorem Token.name_ascii {kind : Token.Kind} (h : kind ∈ Token.Kind.known) :
    kind.name.toList.all (·.toNat < 0x80) = true := by
  revert kind
  decide

/-- Of a token that is cut from a text, only the value can mention what is not ASCII. -/
theorem Token.mem_value_of_mentions {t : Token} (hkind : t.kind ∈ Token.Kind.known)
    (hc : 0x80 ≤ c.toNat) (h : t.toJson.Mentions c) : c ∈ t.value.toList := by
  have hname : c ∉ t.kind.name.toList := Json.not_mem_of_ascii hc (name_ascii hkind)
  have hinteger (n : Int) : c ∉ (Json.numberText (.integer n)).toList :=
    Json.not_mem_of_ascii hc (Json.integerText_ascii n)
  have htype : c ∉ "type".toList := Json.not_mem_of_ascii hc (by decide)
  have hvalue : c ∉ "value".toList := Json.not_mem_of_ascii hc (by decide)
  have hline : c ∉ "line".toList := Json.not_mem_of_ascii hc (by decide)
  have hcolumn : c ∉ "col".toList := Json.not_mem_of_ascii hc (by decide)
  simpa only [toJson, Json.Mentions, Json.FieldsMention, hname, hinteger, htype, hvalue, hline,
    hcolumn, false_or, or_false] using h

namespace Lexer

variable {tag tag' : Option Tag} {s : Segment} {segments : List Segment} {cs rest : List Char}
  {kind : Token.Kind} {value spelling : List Char} {t : Token}

/-- The character is ASCII, or part of a word. -/
def IsCommon (c : Char) : Prop := c.toNat < 0x80 ∨ Text.isWord c = true

/-- A word is a keyword, a truth value or a name, all of which are known kinds. -/
theorem known_wordKind (word : List Char) : Vocabulary.wordKind word ∈ Token.Kind.known := by
  rw [Vocabulary.wordKind]
  cases h : Vocabulary.keywords.lookup word with
  | none => decide
  | some kind =>
    have hall : ∀ entry ∈ Vocabulary.keywords, entry.2 ∈ Token.Kind.known := by decide
    obtain ⟨before, after, hwords, -⟩ := List.lookup_eq_some_iff.mp h
    exact hall (word, kind) (by simp [hwords])

/-- Digits are characters of words, and a sign is ASCII. -/
theorem common_signed {sign digits : List Char} (hsign : sign = [] ∨ sign = ['-'])
    (hdigits : AllDigits digits) : ∀ d ∈ sign ++ digits, IsCommon d := by
  have hdigit : ∀ d ∈ digits, IsCommon d := fun d hd => .inr (Text.isWord_of_isDigit (hdigits.2 d hd))
  rcases hsign with rfl | rfl
  · exact hdigit
  · exact List.forall_mem_cons.mpr ⟨.inl (by decide), hdigit⟩

/-- Of the tokens inside a tag only a string literal has anything else in it. -/
theorem common_of_lexical (h : Lexical spelling kind value) :
    kind ∈ Token.Kind.known ∧ (kind ≠ .string → ∀ d ∈ value, IsCommon d) := by
  cases h with
  | word hc hcs =>
    refine ⟨known_wordKind _, fun _ => List.forall_mem_cons.mpr ⟨?_, fun d hd => .inr (hcs d hd)⟩⟩
    exact .inr (Text.isWord_of_startsWord hc)
  | notIn => exact ⟨by decide, fun _ => by simp [IsCommon]⟩
  | whole hsign hdigits => exact ⟨by decide, fun _ => common_signed hsign hdigits⟩
  | pointed hsign hdigits hpart =>
    refine ⟨by decide, fun _ => List.forall_mem_append.mpr ⟨common_signed hsign hdigits, ?_⟩⟩
    exact List.forall_mem_cons.mpr ⟨.inl (by decide), common_signed (.inl rfl) hpart⟩
  | string => exact ⟨by decide, fun h => absurd rfl h⟩
  | operator hmem =>
    have hknown : ∀ entry ∈ Vocabulary.operators, entry.2 ∈ Token.Kind.known := by decide
    have hascii : ∀ entry ∈ Vocabulary.operators, entry.1.all (·.toNat < 0x80) = true := by decide
    refine ⟨hknown _ hmem, fun _ d hd => .inl ?_⟩
    simpa using List.all_eq_true.mp (hascii _ hmem) d hd

/-- Of the segments, only plain text and string literals have anything else in their tokens. -/
theorem common_of_admits (h : Admits tag s rest tag') (hs : s.content = some (kind, value)) :
    kind ∈ Token.Kind.known ∧
      (kind ≠ .text → kind ≠ .string → ∀ d ∈ value, IsCommon d) := by
  cases h with
  | comment | spacing => cases hs
  | text =>
    cases hs
    exact ⟨by decide, fun h => absurd rfl h⟩
  | opener tag | closer tag =>
    cases hs
    cases tag <;> exact ⟨by decide, fun _ _ => by simp [IsCommon, Tag.opener, Tag.closer]⟩
  | token hlexical =>
    cases hs
    exact ⟨(common_of_lexical hlexical).1, fun _ => (common_of_lexical hlexical).2⟩

/-- Of the tokens that a text is cut into, only plain text and string literals have anything else in
them. -/
theorem common_of_cuts (h : Cuts tag cs segments tag' rest) :
    ∀ {place : Place}, t ∈ tokensOf place segments → t.kind ∈ Token.Kind.known ∧
      (t.kind ≠ .text → t.kind ≠ .string → ∀ d ∈ t.value.toList, IsCommon d) := by
  induction h with
  | nil => exact fun ht => nomatch ht
  | @cons _ _ _ s _ _ _ hadmits _ ih =>
    intro place ht
    rcases List.mem_append.mp ht with ht | ht
    · obtain ⟨⟨kind, value⟩, hcontent, rfl⟩ := Option.map_eq_some_iff.mp (Option.mem_toList.mp ht)
      simpa using common_of_admits hadmits hcontent
    · exact ih ht

end Lexer

/-! ### Templates -/

namespace Template

theorem elementsMention_map {ts : List Token} :
    Json.ElementsMention c (ts.map Token.toJson) ↔ ∃ t ∈ ts, t.toJson.Mentions c := by
  induction ts with
  | nil => simp [Json.ElementsMention]
  | cons t ts ih => simp [Json.ElementsMention, ih]

/-- **The tree of a template mentions all that its tokens mention**, but for ASCII and the characters
of words. -/
theorem mentions_of_tokens {source : String} {ts : List Token} {n : Node}
    (htokens : tokenize source = .ok ts) (hparse : parse ts = .ok n) (hc : 0x80 ≤ c.toNat)
    (hword : Text.isWord c = false) (h : (Json.array (ts.map Token.toJson)).Mentions c) :
    n.toJson.Mentions c := by
  obtain ⟨segments, hscans, rfl⟩ := Lexer.tokenize_eq_ok_iff_scans.mp htokens
  obtain ⟨t, ht, h⟩ := elementsMention_map.mp h
  obtain ⟨hknown, hcommon⟩ := Lexer.common_of_cuts hscans.cuts ht
  have hvalue : c ∈ t.value.toList := t.mem_value_of_mentions hknown hc h
  have hkind : t.kind = .text ∨ t.kind = .string := by
    by_contra hne
    rw [not_or] at hne
    rcases hcommon hne.1 hne.2 c hvalue with hlt | hw
    · omega
    · exact absurd hw (by rw [hword]; exact Bool.false_ne_true)
  exact Grammar.mentions_of_parse hparse ht hkind hvalue

end Template

end Stencil
