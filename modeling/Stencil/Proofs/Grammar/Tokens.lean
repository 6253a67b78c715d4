import Stencil.Proofs.Grammar.Breaks

/-!
# Grammar — the tokens that are taken

What the grammar derives is made of tokens that can be taken (`Derives.readable`): none of them
stands for the end of the input, and those that are numbers can be read.  Where a rule breaks off
the tokens before are of this kind as well, but for the last of them if this is a number that cannot
be read; and that is the failure then (`Breaks.orderly`).
-/

namespace Stencil.Grammar
open Stencil.Parser

/-- A number that cannot be read. -/
def Refused (t : Token) : Prop := t.kind = .number ∧ ∃ e, Numeral.read t.value = .error e

/-- A token that can be taken. -/
def Readable (t : Token) : Prop := t.kind ≠ .endOfInput ∧ ¬ Refused t

def AllReadable (ts : List Token) : Prop := ∀ t ∈ ts, Readable t

/-- The tokens before a failure: all of them could be taken, up to the number that the failure is
about. -/
def Orderly (ts : List Token) : Failure → Prop
  | .malformed _ => AllReadable ts
  | .numeral e => ∃ init t, ts = init ++ [t] ∧ AllReadable init ∧ t.kind = .number ∧
      Numeral.read t.value = .error e

/-- The names of tests and filters are words. -/
def Rule.Named : Rule → Prop
  | .applied names => names ⊆ [.identifier, .boolean]
  | _ => True

/-- Some token of a kind. -/
def token (kind : Token.Kind) : Token := ⟨kind, "", 0, 0⟩

@[simp] theorem token_kind (kind : Token.Kind) : (token kind).kind = kind := rfl

variable {t : Token} {ts us : List Token} {e : Failure}

/-- Any token but a number and the end can be taken. -/
theorem readable_iff (h : t.kind ≠ .number) : Readable t ↔ t.kind ≠ .endOfInput :=
  and_iff_left fun hr => h hr.1

/-- Operators can be taken. -/
theorem readable_of_joins {l : Level} (h : l.joins t.kind = true) : Readable t := by
  have hk : t.kind ≠ .endOfInput ∧ t.kind ≠ .number := by
    constructor <;> intro he <;> rw [he] at h <;> cases l <;> cases h
  exact (readable_iff hk.2).mpr hk.1

/-- Brackets can be taken. -/
theorem readable_of_bracket {i : Item} (h : t.kind = i.opening ∨ t.kind = i.closing) :
    Readable t := by
  have hk : t.kind ≠ .endOfInput ∧ t.kind ≠ .number := by
    rcases h with h | h <;> rw [h] <;> cases i <;> decide
  exact (readable_iff hk.2).mpr hk.1

/-- A name is a word. -/
theorem kind_of_named {names : List Token.Kind} (hr : (Rule.applied names).Named)
    (ht : t.kind ∈ names) : t.kind = .identifier ∨ t.kind = .boolean := by
  simpa using hr ht

theorem allReadable_nil : AllReadable [] := fun _ h => nomatch h

@[simp] theorem allReadable_cons : AllReadable (t :: ts) ↔ Readable t ∧ AllReadable ts :=
  List.forall_mem_cons

@[simp] theorem allReadable_append : AllReadable (ts ++ us) ↔ AllReadable ts ∧ AllReadable us :=
  List.forall_mem_append

/-- Before a failure that is not about a number, all tokens could be taken. -/
theorem orderly_malformed {error : Error} : Orderly ts (.malformed error) ↔ AllReadable ts := .rfl

theorem orderly_foundAt {cause : Cause} {rest : List Token} :
    Orderly ts (foundAt cause rest) ↔ AllReadable ts := .rfl

/-- The tokens behind some that can be taken. -/
theorem Orderly.append (h : Orderly us e) (hts : AllReadable ts) : Orderly (ts ++ us) e := by
  cases e with
  | malformed error => exact allReadable_append.mpr ⟨hts, h⟩
  | numeral error =>
    obtain ⟨init, t, rfl, hinit, ht⟩ := h
    exact ⟨ts ++ init, t, (List.append_assoc ..).symm, allReadable_append.mpr ⟨hts, hinit⟩, ht⟩

/-- A token that can be taken may stand in front. -/
theorem Orderly.cons (h : Orderly us e) (ht : Readable t) : Orderly (t :: us) e :=
  h.append (allReadable_cons.mpr ⟨ht, allReadable_nil⟩)

/-- A token that is no number is not the one that could not be read. -/
theorem Orderly.of_cons (ht : t.kind ≠ .number) (h : Orderly (t :: us) e) : Orderly us e := by
  cases e with
  | malformed error => exact (allReadable_cons.mp h).2
  | numeral error =>
    obtain ⟨init, u, hus, hinit, hu, hread⟩ := h
    cases init with
    | nil =>
      cases hus
      exact absurd hu ht
    | cons t init =>
      obtain ⟨-, rfl⟩ := List.cons.inj hus
      exact ⟨init, u, rfl, (allReadable_cons.mp hinit).2, hu, hread⟩

/-- No token before a failure stands for the end. -/
theorem Orderly.not_endOfInput (h : Orderly ts e) : ∀ t ∈ ts, t.kind ≠ .endOfInput := by
  cases e with
  | malformed error => exact fun t ht => (h t ht).1
  | numeral error =>
    obtain ⟨init, u, rfl, hinit, hu, -⟩ := h
    intro t ht
    rcases List.mem_append.mp ht with ht | ht
    · exact (hinit t ht).1
    · rw [List.mem_singleton.mp ht, hu]
      decide

/-- **What is derived can be taken.** -/
theorem Derives.readable {r : Rule} {v : r.Tree} (h : Derives r ts v) (hr : r.Named) :
    AllReadable ts := by
  induction h with
  | number ht hread =>
    refine allReadable_cons.mpr ⟨⟨by rw [ht]; decide, ?_⟩, allReadable_nil⟩
    rintro ⟨-, e, he⟩
    rw [hread] at he
    cases he
  | name ht =>
    have hk : _ ∈ [Token.Kind.identifier, .boolean] := hr ht
    refine allReadable_cons.mpr ⟨⟨fun he => ?_, fun hn => ?_⟩, allReadable_nil⟩
    · rw [he] at hk
      exact absurd hk (by decide)
    · rw [hn.1] at hk
      exact absurd hk (by decide)
  | _ => grind [Rule.Named, allReadable_nil, allReadable_append, allReadable_cons, readable_iff,
      readable_of_joins, readable_of_bracket]

/-- The parts of a slice, with their colons, could be taken. -/
theorem Parts.readable {ps : List (Option Node)} (h : Parts ts ps) : AllReadable ts := by
  induction h with
  | nil => exact allReadable_nil
  | cons hpart hc _ ih =>
    grind [Derives.readable, Rule.Named, allReadable_append, allReadable_cons, readable_iff]

/-- Before a token that is missing, those expected before it could be taken. -/
theorem Misses.orderly {kinds : List Token.Kind} {rest : List Token} (h : Misses kinds ts rest e)
    (hk : ∀ kind ∈ kinds, kind ≠ .endOfInput ∧ kind ≠ .number) : Orderly ts e := by
  induction h with
  | here _ => exact orderly_foundAt.mpr allReadable_nil
  | later ht _ ih =>
    have ht' := hk _ List.mem_cons_self
    rw [← ht] at ht'
    exact (ih fun kind h => hk kind (List.mem_cons_of_mem _ h)).cons
      ((readable_iff ht'.2).mpr ht'.1)

/-- **The tokens before a break could be taken.** -/
theorem Breaks.orderly {r : Rule} {rest : List Token} (h : Breaks r ts rest e) (hr : r.Named) :
    Orderly ts e := by
  induction h with
  | number ht he => exact ⟨[], _, rfl, allReadable_nil, ht, he⟩
  | conditionalEnd ho hw hn hm =>
    have hm := hm.orderly (by decide)
    grind [Orderly.append, Orderly.cons, Derives.readable, Rule.Named, readable_iff]
  | loopEnd hn hm =>
    have hm := hm.orderly (by decide)
    have hn := @hn (token .openStatement) (token .kwEndfor) (token .closeStatement) rfl rfl rfl
    grind [Orderly.append, Orderly.cons, Derives.readable, Rule.Named, allReadable_append,
      allReadable_cons]
  | _ => grind [Orderly.append, Orderly.cons, orderly_malformed, orderly_foundAt, Derives.readable,
      Parts.readable, Rule.Named, allReadable_nil, allReadable_append, allReadable_cons,
      readable_iff, readable_of_joins, readable_of_bracket]

end Stencil.Grammar
