import Mathlib.Data.List.Infix
import Mathlib.Logic.Function.Iterate
import Stencil.Shell.Basic

/-!
# Shell — entries

The lines that the shell reads fall into entries.  An entry goes on as long as its last line ends
with a backslash or a block is open (`GoesOn`), and no whole entry is the beginning of another, so
lines fall into entries in one way at most (`eq_of_flatten_eq`).

One line either leaves the entry begun or finishes it (`takeLine_go`).  What is left behind a
finished entry is the mode alone, so a run on lines that end with an entry can be cut there: what
comes later is what a new shell would print, in the mode to which the entries before have turned it
(`entries_independent`).
-/

namespace Stencil.Shell

/-! ### Entries -/

/-- The line goes on with the next one. -/
def EndsOpen (line : String) : Prop := line.toList.getLast? = some '\\'

instance (line : String) : Decidable (EndsOpen line) := inferInstanceAs (Decidable (_ = _))

/-- At the start of an entry the line stops the shell. -/
def Leaves (line : String) : Prop :=
  Text.trim Text.isBlank line.toList = "exit".toList ∨
    Text.trim Text.isBlank line.toList = "quit".toList

instance (line : String) : Decidable (Leaves line) := inferInstanceAs (Decidable (_ ∨ _))

/-- What a line adds to its entry. -/
def lineText (line : String) : List Char :=
  if EndsOpen line then line.toList.dropLast else line.toList

/-- The lines of an entry as one text. -/
def entryText (lines : List String) : List Char := joinLines (lines.map lineText)

/-- An entry that begins with these lines goes on. -/
def GoesOn (lines : List String) : Prop :=
  (∃ line ∈ lines.getLast?, EndsOpen line) ∨ 0 < openBlocks (entryText lines)

instance (lines : List String) : Decidable (GoesOn lines) := inferInstanceAs (Decidable (_ ∨ _))

/-- The lines begin an entry, which goes on behind each of them. -/
structure Begun (lines : List String) : Prop where
  stays : ∀ line ∈ lines.head?, ¬ Leaves line
  goesOn : ∀ init, init <+: lines → init ≠ [] → GoesOn init

/-- The lines are one entry: it goes on behind each of them but the last. -/
structure IsEntry (lines : List String) : Prop where
  ne_nil : lines ≠ []
  stays : ∀ line ∈ lines.head?, ¬ Leaves line
  goesOn : ∀ init, init <+: lines → init ≠ [] → init ≠ lines → GoesOn init
  ends : ¬ GoesOn lines

theorem isEntry_iff {lines : List String} : IsEntry lines ↔
    lines ≠ [] ∧ (∀ line ∈ lines.head?, ¬ Leaves line) ∧
      (∀ init ∈ lines.inits, init ≠ [] → init ≠ lines → GoesOn init) ∧ ¬ GoesOn lines := by
  simp only [List.mem_inits]
  exact ⟨fun ⟨hne, hstays, hgoes, hends⟩ => ⟨hne, hstays, hgoes, hends⟩,
    fun ⟨hne, hstays, hgoes, hends⟩ => ⟨hne, hstays, hgoes, hends⟩⟩

instance (lines : List String) : Decidable (IsEntry lines) := decidable_of_iff' _ isEntry_iff

/-- The entry turns the mode. -/
def TurnsMode (lines : List String) : Prop :=
  (Text.trim Text.isBlank (entryText lines)).map Char.toLower = "verbose-mode".toList

instance (lines : List String) : Decidable (TurnsMode lines) := inferInstanceAs (Decidable (_ = _))

/-- The mode behind entries: each one that turns it turns it once. -/
def modeAfter (verbose : Bool) (entries : List (List String)) : Bool :=
  not^[entries.countP (TurnsMode ·)] verbose

variable {s s' : Shell} {line : String} {lines begun : List String} {printed : String}
  {turns : List Turn} {verbose : Bool}

@[simp] theorem modeAfter_nil (verbose : Bool) : modeAfter verbose [] = verbose := rfl

theorem modeAfter_cons (verbose : Bool) (e : List String) (entries : List (List String)) :
    modeAfter verbose (e :: entries) =
      modeAfter (if TurnsMode e then !verbose else verbose) entries := by
  unfold modeAfter
  by_cases he : TurnsMode e <;> simp [he]

theorem begun_nil : Begun [] :=
  ⟨by simp, fun init hinit hne => absurd (List.prefix_nil.mp hinit) hne⟩

theorem head?_snoc {P : String → Prop} (h : ∀ line ∈ begun.head?, P line)
    (hline : begun = [] → P line) : ∀ l ∈ (begun ++ [line]).head?, P l := by
  cases begun with
  | nil => simpa using hline rfl
  | cons first rest => simpa using h

/-- An entry that goes on behind one more line. -/
theorem Begun.snoc (h : Begun begun) (hline : begun = [] → ¬ Leaves line)
    (hgoes : GoesOn (begun ++ [line])) : Begun (begun ++ [line]) where
  stays := head?_snoc h.stays hline
  goesOn init hinit hne := by
    rcases List.prefix_concat_iff.mp hinit with rfl | hinit
    · exact hgoes
    · exact h.goesOn init hinit hne

/-- An entry that ends with one more line. -/
theorem Begun.isEntry (h : Begun begun) (hline : begun = [] → ¬ Leaves line)
    (hends : ¬ GoesOn (begun ++ [line])) : IsEntry (begun ++ [line]) where
  ne_nil := by simp
  stays := head?_snoc h.stays hline
  goesOn init hinit hne hproper := by
    rcases List.prefix_concat_iff.mp hinit with rfl | hinit
    · exact absurd rfl hproper
    · exact h.goesOn init hinit hne
  ends := hends

/-- No entry is the beginning of another. -/
theorem IsEntry.eq_of_isPrefix {e f : List String} (he : IsEntry e) (hf : IsEntry f)
    (h : e <+: f) : e = f := by
  by_contra hne
  exact he.ends (hf.goesOn e h he.ne_nil hne)

/-- **Lines fall into entries in one way at most.** -/
theorem eq_of_flatten_eq {es : List (List String)} : ∀ {fs : List (List String)},
    (∀ e ∈ es, IsEntry e) → (∀ f ∈ fs, IsEntry f) → es.flatten = fs.flatten → es = fs := by
  induction es with
  | nil =>
    intro fs _ hfs h
    cases fs with
    | nil => rfl
    | cons f fs =>
      exact absurd (List.append_eq_nil_iff.mp h.symm).1 (hfs f List.mem_cons_self).ne_nil
  | cons e es ih =>
    intro fs hes hfs h
    rw [List.forall_mem_cons] at hes
    cases fs with
    | nil => exact absurd (List.append_eq_nil_iff.mp h).1 hes.1.ne_nil
    | cons f fs =>
      rw [List.forall_mem_cons] at hfs
      rw [List.flatten_cons, List.flatten_cons] at h
      obtain rfl : e = f := by
        rcases List.prefix_or_prefix_of_prefix (List.prefix_append e es.flatten)
          (h ▸ List.prefix_append f fs.flatten) with hpre | hpre
        · exact hes.1.eq_of_isPrefix hfs.1 hpre
        · exact (hfs.1.eq_of_isPrefix hes.1 hpre).symm
      rw [ih hes.2 hfs.2 (List.append_cancel_left h)]

/-! ### A line -/

/-- The shell has read the lines of the entry begun. -/
def Holds (s : Shell) (begun : List String) : Prop := s.entry = begun.map lineText

theorem finish_go_eq {source : List Char} (h : s.finish source = (printed, .go s')) :
    s' = start (if (Text.trim Text.isBlank source).map Char.toLower = "verbose-mode".toList
      then !s.verbose else s.verbose) := by
  unfold finish at h
  simp only [] at h
  split at h
  · rename_i hblank
    cases h
    rw [List.isEmpty_iff.mp hblank]
    rfl
  · split at h
    · rename_i hmode
      cases h
      rw [if_pos hmode]
    · rename_i hmode
      split at h <;> cases h
      rw [if_neg hmode]

/-- **A line that does not stop the shell** leaves the entry begun, one line longer, or it finishes
the entry. -/
theorem takeLine_go (hs : Holds s begun) (h : s.takeLine line.toList = (printed, .go s')) :
    (begun = [] → ¬ Leaves line) ∧
    (GoesOn (begun ++ [line]) ∧ Holds s' (begun ++ [line]) ∧ s'.verbose = s.verbose ∨
      ¬ GoesOn (begun ++ [line]) ∧
        s' = start (if TurnsMode (begun ++ [line]) then !s.verbose else s.verbose)) := by
  have hlast : (∃ l ∈ (begun ++ [line]).getLast?, EndsOpen l) ↔ EndsOpen line := by simp
  have hentry : s.entry = begun.map lineText := hs
  have hnil : s.entry.isEmpty = true ↔ begun = [] := by simp [hentry]
  unfold takeLine at h
  simp only [] at h
  split at h
  · cases h
  rename_i hstays
  refine ⟨fun hbegun hleaves => hstays ⟨hnil.mpr hbegun, hleaves⟩, ?_⟩
  split at h
  · -- the line ends with a backslash
    rename_i hopen
    cases h
    refine .inl ⟨.inl (hlast.mpr hopen), ?_, rfl⟩
    simp [Holds, hentry, lineText, show EndsOpen line from hopen]
  · rename_i hopen
    have htext : s.entry ++ [line.toList] = (begun ++ [line]).map lineText := by
      simp [hentry, lineText, show ¬ EndsOpen line from hopen]
    rw [htext] at h
    split at h
    · rename_i hblocks
      cases h
      exact .inl ⟨.inr hblocks, rfl, rfl⟩
    · rename_i hblocks
      refine .inr ⟨?_, finish_go_eq h⟩
      rintro (hends | hgoes)
      · exact hopen (hlast.mp hends)
      · exact hblocks hgoes

/-! ### Runs -/

/-- The shell takes the lines one by one, prints these turns, and awaits a further line. -/
inductive Takes : Shell → List String → List Turn → Shell → Prop
  | nil (s : Shell) : Takes s [] [] s
  | cons {s s₁ s' : Shell} {line printed : String} {lines : List String} {turns : List Turn} :
      s.takeLine line.toList = (printed, .go s₁) → Takes s₁ lines turns s' →
      Takes s (line :: lines) (⟨s.prompt, printed⟩ :: turns) s'

/-- A transcript behind some turns. -/
def Transcript.behind (turns : List Turn) (t : Transcript) : Transcript :=
  { t with turns := turns ++ t.turns }

theorem Takes.run_append (h : Takes s lines turns s') (events : List Event) :
    s.run (lines.map .line ++ events) = (s'.run events).behind turns := by
  induction h with
  | nil => rfl
  | cons hline _ ih =>
    rw [List.map_cons, List.cons_append, run, step, hline]
    simp only [ih, Transcript.behind, List.cons_append]

/-- A run with a turn for every line and one more has taken all of them. -/
theorem takes_of_run : ∀ {lines : List String} {s : Shell},
    (s.run (lines.map .line)).crash = none →
    (s.run (lines.map .line)).turns.length = lines.length + 1 →
    ∃ turns s', Takes s lines turns s' := by
  intro lines
  induction lines with
  | nil => exact fun {s} _ _ => ⟨[], s, .nil s⟩
  | cons line lines ih =>
    intro s hcrash hturns
    rw [List.map_cons, run, step] at hcrash hturns
    rcases hline : s.takeLine line.toList with ⟨printed, next⟩
    rw [hline] at hcrash hturns
    cases next with
    | go s₁ =>
      obtain ⟨turns, s', htakes⟩ := ih hcrash (by simpa using hturns)
      exact ⟨_, s', .cons hline htakes⟩
    | stop => simp at hturns
    | crash failure => simp at hcrash

theorem entry_eq_nil_of_prompt (h : s.prompt = ">>> ") : s.entry = [] := by
  unfold prompt at h
  split at h
  · exact List.isEmpty_iff.mp ‹_›
  · exact absurd h (by decide)

/-- The lines that were taken, behind those of the entry begun, fall into entries, and the mode at
the end is the one to which these have turned it. -/
theorem Takes.exists_entries (h : Takes s lines turns s') (hend : s'.entry = []) :
    ∀ {begun : List String}, Begun begun → Holds s begun →
      ∃ entries : List (List String), entries.flatten = begun ++ lines ∧
        (∀ e ∈ entries, IsEntry e) ∧ s' = start (modeAfter s.verbose entries) := by
  induction h with
  | nil s =>
    intro begun _ hs
    obtain rfl : begun = [] := by simpa [Holds, hend] using hs
    exact ⟨[], rfl, by simp, by rw [modeAfter_nil, start, ← hend]⟩
  | @cons s s₁ s' line printed lines turns hline _ ih =>
    intro begun hbegun hs
    obtain ⟨hstays, ⟨hgoes, hs₁, hmode⟩ | ⟨hends, rfl⟩⟩ := takeLine_go hs hline
    · obtain ⟨entries, hflat, hentries, hs'⟩ := ih hend (hbegun.snoc hstays hgoes) hs₁
      exact ⟨entries, by simpa using hflat, hentries, by rw [hs', hmode]⟩
    · obtain ⟨entries, hflat, hentries, hs'⟩ := ih hend begun_nil rfl
      refine ⟨(begun ++ [line]) :: entries, by simpa using hflat, ?_, ?_⟩
      · exact List.forall_mem_cons.mpr ⟨hbegun.isEntry hstays hends, hentries⟩
      · rw [hs', modeAfter_cons]
        rfl

/-- The shell has taken all lines, did not stop before, and awaits a new entry. -/
structure Completes (lines : List String) (t : Transcript) : Prop where
  crash : t.crash = none
  turns : t.turns.length = lines.length + 1
  prompt : t.turns.getLast?.map Turn.prompt = some ">>> "

/-- **Entries are independent of each other.**  Where the shell has taken all lines and awaits a new
entry, the lines fall into entries, in one way only.  Whatever comes then, the shell goes on behind
the turns of these lines as a new one would, in the mode to which the entries have turned it. -/
theorem entries_independent {verbose : Bool} {lines : List String}
    (h : Completes lines ((start verbose).run (lines.map .line))) :
    ∃ entries : List (List String),
      (entries.flatten = lines ∧ ∀ e ∈ entries, IsEntry e) ∧
      (∀ others : List (List String), others.flatten = lines → (∀ e ∈ others, IsEntry e) →
        others = entries) ∧
      ∀ events : List Event,
        (start verbose).run (lines.map .line ++ events) =
          ((start (modeAfter verbose entries)).run events).behind
            ((start verbose).run (lines.map .line)).turns.dropLast := by
  obtain ⟨turns, s, htakes⟩ := takes_of_run h.crash h.turns
  have hrun : (start verbose).run (lines.map .line) = (s.run []).behind turns := by
    simpa using htakes.run_append []
  -- the shell awaits a new entry, so none is begun
  have hend : s.entry = [] := by
    have hprompt := h.prompt
    rw [hrun] at hprompt
    exact entry_eq_nil_of_prompt (by simpa [Transcript.behind, run] using hprompt)
  obtain ⟨entries, hflat, hentries, rfl⟩ := htakes.exists_entries hend begun_nil rfl
  refine ⟨entries, ⟨hflat, hentries⟩, fun others hothers hall => ?_, fun events => ?_⟩
  · exact eq_of_flatten_eq hall hentries (hothers.trans hflat.symm)
  · have hturns : ((start verbose).run (lines.map .line)).turns.dropLast = turns := by
      rw [hrun]
      simp [Transcript.behind, run]
    rw [hturns]
    exact htakes.run_append events

/-- A blank line, a word that turns the mode, a template that breaks off, and a block that goes on
over a line with a backslash. -/
def sampleEntries : List (List String) :=
  [[" "], ["Verbose-Mode"], ["\x7b\x7b 1 +"],
    ["\x7b% if a %\x7d", "exit\\", "\x7b% endif %\x7d"]]

/-- Behind these entries the shell goes on as a new one in the other mode. -/
theorem entries_independent_sample :
    Completes sampleEntries.flatten ((start false).run (sampleEntries.flatten.map .line)) ∧
    ∀ events : List Event,
      (start false).run (sampleEntries.flatten.map .line ++ events) =
        ((start true).run events).behind
          ((start false).run (sampleEntries.flatten.map .line)).turns.dropLast := by
  have hcompletes : Completes sampleEntries.flatten
      ((start false).run (sampleEntries.flatten.map .line)) := by
    refine ⟨?_, ?_, ?_⟩ <;> decide +kernel
  have hentries : ∀ e ∈ sampleEntries, IsEntry e := by decide +kernel
  have hmode : modeAfter false sampleEntries = true := by decide +kernel
  obtain ⟨entries, -, hunique, hrun⟩ := entries_independent hcompletes
  obtain rfl := hunique sampleEntries rfl hentries
  exact ⟨hcompletes, fun events => hmode ▸ hrun events⟩

end Stencil.Shell
