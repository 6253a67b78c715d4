import Stencil.Proofs.Lexer.Call
import Stencil.Proofs.Source.Place

/-!
# Lexer — any operations on a text

A `Reader` is a lexer over a stream, with the places that were marked in it.  `perform` is one
operation of the stream or of the lexer, in the state in which the operation leaves them, whether it
succeeds or fails; `reach` is where any operations in a row come to.

Every operation of the lexer moves ahead or not at all (`Ahead`), and returning to a marked place leads
to a place of the text again.  So the cursor stands within the text always (`within_reach`).
-/

namespace Stencil.Lexer

variable {α β : Type} {p : Lexing α} {f : α → Lexing β} {lexer lexer' mid : Lexer} {a : α}
  {passed rest source : List Char} {token : Token}

/-! ### Moving ahead -/

/-- From the one lexer to the other some characters are passed. -/
def Ahead (lexer lexer' : Lexer) : Prop :=
  ∃ passed, lexer.cursor.rest = passed ++ lexer'.cursor.rest ∧
    lexer'.cursor.place = lexer.cursor.place.after passed

namespace Ahead

theorem refl (lexer : Lexer) : Ahead lexer lexer := ⟨[], rfl, rfl⟩

theorem trans (h : Ahead lexer mid) (h' : Ahead mid lexer') : Ahead lexer lexer' := by
  obtain ⟨passed, hrest, hplace⟩ := h
  obtain ⟨passed', hrest', hplace'⟩ := h'
  refine ⟨passed ++ passed', ?_, ?_⟩
  · rw [hrest, hrest', List.append_assoc]
  · rw [hplace', hplace, Place.after_append]

/-- Characters at hand that the cursor is moved past lie between the two lexers. -/
theorem of_past (hrest : lexer.cursor.rest = passed ++ rest)
    (hcursor : lexer'.cursor = lexer.cursor.past passed rest) : Ahead lexer lexer' :=
  ⟨passed, by rw [hrest, hcursor]; rfl, by rw [hcursor]; rfl⟩

/-- What is passed is there to be passed, so a cursor within the text stays within it. -/
theorem within (h : Ahead lexer lexer') (hwithin : lexer.cursor.Within source) :
    lexer'.cursor.Within source := by
  obtain ⟨passed, hrest, hplace⟩ := h
  have hcursor : lexer'.cursor = lexer.cursor.past passed lexer'.cursor.rest := by
    rw [Cursor.past, ← hplace]
  rw [hcursor]
  exact hwithin.past hrest

end Ahead

/-- The lexer that an operation leaves, whether it succeeds or fails. -/
def leftBy (p : Lexing α) (lexer : Lexer) : Lexer :=
  match p.run lexer with
  | .ok _ lexer' | .error _ lexer' => lexer'

theorem leftBy_of_ok (h : p.run lexer = .ok a lexer') : leftBy p lexer = lexer' := by
  rw [leftBy, h]

theorem leftBy_of_error {e : Error} (h : p.run lexer = .error e lexer') : leftBy p lexer = lexer' := by
  rw [leftBy, h]

/-- The operation moves ahead. -/
def Moves (p : Lexing α) (lexer : Lexer) : Prop := Ahead lexer (leftBy p lexer)

/-- An operation that succeeds moves ahead to the lexer that it leaves. -/
theorem moves_of_ok (h : p.run lexer = .ok a lexer') (hahead : Ahead lexer lexer') :
    Moves p lexer := by
  rwa [Moves, leftBy_of_ok h]

/-- Two operations in a row move ahead, the second from where the first has left the lexer. -/
theorem Moves.bind (h : Moves p lexer) (hf : ∀ a mid, p.run lexer = .ok a mid → Moves (f a) mid) :
    Moves (p >>= f) lexer := by
  cases hp : p.run lexer with
  | ok a mid =>
    rw [Moves, leftBy_of_ok hp] at h
    refine h.trans ?_
    have hleft : leftBy (p >>= f) lexer = leftBy (f a) mid := by
      rw [leftBy, bind_of_ok hp, leftBy]
    rw [hleft]
    exact hf a mid hp
  | error e mid =>
    rw [Moves, leftBy_of_error hp] at h
    rwa [Moves, leftBy_of_error (bind_of_error hp)]

theorem moves_place (lexer : Lexer) : Moves place lexer := .refl lexer

theorem moves_remaining (lexer : Lexer) : Moves remaining lexer := .refl lexer

/-- A failure leaves the lexer where it stands. -/
theorem moves_throw (e : Error) (lexer : Lexer) : Moves (throw e : Lexing α) lexer := Ahead.refl lexer

/-- A token is put down without a move. -/
theorem moves_emit (kind : Token.Kind) (value : List Char) (line column : Int) (lexer : Lexer) :
    Moves (emit kind value line column) lexer := Ahead.refl lexer

/-- One character is passed, or at the end of the text none. -/
theorem moves_advance (lexer : Lexer) : Moves advance lexer := by
  cases hrest : lexer.cursor.rest with
  | nil =>
    have hnext : lexer.cursor.next? = none := by rw [Cursor.next?, hrest]
    have hrun : advance.run lexer = .error (.pastEnd lexer.cursor.place) lexer := by
      rw [advance, bind_of_ok (get_run _), hnext]
      rfl
    rw [Moves, leftBy_of_error hrun]
    exact .refl lexer
  | cons c cs => exact moves_of_ok (advance_run hrest) (.of_past hrest rfl)

/-- The characters of a spelling are passed one at a time; where one is not at hand, those before it
are. -/
theorem moves_pass (spelling : List Char) : ∀ lexer, Moves (pass spelling) lexer := by
  induction spelling with
  | nil => exact fun lexer => .refl lexer
  | cons c spelling ih => exact fun lexer => (moves_advance lexer).bind fun _ mid _ => ih mid

theorem moves_passAll (lexer : Lexer) : Moves passAll lexer :=
  (moves_remaining lexer).bind fun _ _ _ => moves_pass _ _

/-! ### Each operation of the lexer -/

theorem moves_skipSpacing (lexer : Lexer) : Moves skipSpacing lexer :=
  (moves_remaining lexer).bind fun _ _ _ => moves_pass _ _

theorem moves_readText (lexer : Lexer) : Moves readText lexer :=
  (moves_place lexer).bind fun _ _ _ => (moves_remaining _).bind fun _ _ _ =>
    (moves_pass _ _).bind fun _ _ _ => moves_emit _ _ _ _ _

/-- Of a comment that does not end, the rest of the text is passed. -/
theorem moves_skipComment (lexer : Lexer) : Moves skipComment lexer := by
  refine (moves_place lexer).bind fun _ _ _ => (moves_advance _).bind fun _ _ _ =>
    (moves_advance _).bind fun _ _ _ => (moves_remaining _).bind fun _ _ _ => ?_
  split
  · exact moves_pass _ _
  · exact (moves_passAll _).bind fun _ _ _ => moves_throw _ _

theorem moves_matchOperator (lexer : Lexer) : Moves matchOperator lexer := by
  refine (moves_place lexer).bind fun _ _ _ => (moves_remaining _).bind fun _ _ _ => ?_
  split
  · exact (moves_pass _ _).bind fun _ _ _ => .refl _
  · exact .refl _

theorem moves_readWord (line column : Int) (lexer : Lexer) : Moves (readWord line column) lexer := by
  refine (moves_remaining lexer).bind fun _ _ _ => (moves_pass _ _).bind fun _ _ _ => ?_
  split
  · exact (moves_pass _ _).bind fun _ _ _ => moves_emit _ _ _ _ _
  · exact moves_emit _ _ _ _ _

/-- The digits taken before are the caller's; those that are passed here are at hand. -/
theorem moves_readNumber (line column : Int) (taken : List Char) (lexer : Lexer) :
    Moves (readNumber line column taken) lexer :=
  (moves_remaining lexer).bind fun _ _ _ => (moves_pass _ _).bind fun _ _ _ =>
    moves_emit _ _ _ _ _

/-- Of a string that does not end, the rest of the text is passed. -/
theorem moves_readString (line column : Int) (lexer : Lexer) : Moves (readString line column) lexer := by
  refine (moves_advance lexer).bind fun _ _ _ => (moves_remaining _).bind fun _ _ _ => ?_
  split
  · exact (moves_pass _ _).bind fun _ _ _ => moves_emit _ _ _ _ _
  · exact (moves_passAll _).bind fun _ _ _ => moves_throw _ _

/-- What lies between two tokens is passed. -/
theorem Skips.ahead {gap : List Segment} (h : Skips lexer gap mid) : Ahead lexer mid :=
  ⟨spellingOf gap, h.scans.spelling_append, h.place_eq⟩

theorem ahead_halted (lexer : Lexer) (f : Flaw) : Ahead lexer (lexer.halted f) := by
  cases f with
  | comment | string => exact .of_past (List.append_nil _).symm rfl
  | tag | character => exact .refl lexer

/-- One token, or the failure to read one, is behind what is skipped before it. -/
theorem moves_next (lexer : Lexer) : Moves next lexer := by
  have houtcome := outcome_next lexer
  cases hrun : next.run lexer with
  | ok token lexer' =>
    rw [hrun] at houtcome
    refine moves_of_ok hrun ?_
    cases houtcome with
    | ended hskips => exact hskips.ahead
    | @made _ _ _ s _ hskips hscan hplace =>
      exact hskips.ahead.trans ⟨s.spelling, (admits_of_scan hscan).1, hplace⟩
  | error e lexer' =>
    rw [hrun] at houtcome
    rw [Moves, leftBy_of_error hrun]
    cases houtcome with
    | failed hskips => exact hskips.ahead.trans (ahead_halted _ _)

/-- By induction on the rounds: each reads a token, or ends the reading where it stands. -/
theorem moves_drain (rounds : Nat) : ∀ lexer : Lexer, Moves (drain rounds) lexer := by
  induction rounds with
  | zero => exact fun lexer => .refl lexer
  | succ rounds ih =>
    intro lexer
    refine (moves_next lexer).bind fun token mid _ => ?_
    split
    · exact .refl mid
    · exact (ih mid).bind fun _ mid' _ => .refl mid'

theorem moves_tokens (lexer : Lexer) : Moves tokens lexer :=
  (moves_remaining lexer).bind fun _ _ _ => moves_drain _ _

/-! ### Any operations in a row -/

/-- A lexer over a stream, and the places that were marked in it. -/
structure Reader where
  source : List Char
  lexer : Lexer
  marks : List Place

/-- What can be asked of a reader: the operations of the stream, and those of the lexer. -/
inductive Operation
  | streamNext
  | streamPeek (offset : Int)
  | startsWith (text : List Char)
  | atEnd
  | mark
  /-- Returns to one of the marked places. -/
  | reset (index : Nat)
  | peek
  | advance
  | emit (kind : Token.Kind) (value : List Char) (line column : Int)
  | skipSpacing
  | skipComment
  | matchOperator
  | readText
  | readWord (line column : Int)
  | readNumber (line column : Int) (taken : List Char)
  | readString (line column : Int)
  | next
  | tokens

namespace Reader

/-- A reader at the start of a text. -/
def ofText (source : String) : Reader := ⟨source.toList, Lexer.ofText source, []⟩

/-- The stream that the lexer reads. -/
def stream (r : Reader) : Stream := ⟨r.source, r.lexer.cursor⟩

/-- The reader with another cursor. -/
def seek (r : Reader) (cursor : Cursor) : Reader := { r with lexer := { r.lexer with cursor } }

/-- The reader behind an operation of the lexer, whether it succeeds or fails. -/
def run (r : Reader) (p : Lexing α) : Reader := { r with lexer := leftBy p r.lexer }

/-- The reader behind an operation.  Looking ahead changes nothing. -/
def perform (r : Reader) : Operation → Reader
  | .streamNext =>
    match r.stream.next? with
    | some (_, stream) => r.seek stream.cursor
    | none => r
  | .streamPeek _ | .startsWith _ | .atEnd | .peek => r
  | .mark => { r with marks := r.marks ++ [r.stream.mark] }
  | .reset index =>
    match r.marks[index]? with
    | some place => r.seek (r.stream.reset place).cursor
    | none => r
  | .advance => r.run Lexer.advance
  | .emit kind value line column => r.run (Lexer.emit kind value line column)
  | .skipSpacing => r.run Lexer.skipSpacing
  | .skipComment => r.run Lexer.skipComment
  | .matchOperator => r.run Lexer.matchOperator
  | .readText => r.run Lexer.readText
  | .readWord line column => r.run (Lexer.readWord line column)
  | .readNumber line column taken => r.run (Lexer.readNumber line column taken)
  | .readString line column => r.run (Lexer.readString line column)
  | .next => r.run Lexer.next
  | .tokens => r.run Lexer.tokens

/-- The cursor stands within the text, and so does one at any marked place. -/
structure Sound (source : List Char) (r : Reader) : Prop where
  source_eq : r.source = source
  cursor : r.lexer.cursor.Within source
  marks : ∀ place ∈ r.marks, (r.stream.reset place).cursor.Within source

variable {r : Reader}

/-- A place within the text may be gone to; the marks are not touched. -/
theorem Sound.seek {cursor : Cursor} (h : Sound source r) (hcursor : cursor.Within source) :
    Sound source (r.seek cursor) :=
  ⟨h.source_eq, hcursor, h.marks⟩

/-- An operation of the lexer that moves ahead keeps the cursor within the text. -/
theorem Sound.run (h : Sound source r) (hmoves : ∀ lexer, Moves p lexer) : Sound source (r.run p) :=
  ⟨h.source_eq, (hmoves r.lexer).within h.cursor, h.marks⟩

/-- The stream hands out a character that is at hand. -/
theorem Sound.streamNext (h : Sound source r) : Sound source (r.perform .streamNext) := by
  rw [perform]
  split
  · rename_i c stream hnext
    obtain ⟨⟨d, cursor⟩, hcursor, heq⟩ := Option.map_eq_some_iff.mp hnext
    cases heq
    refine h.seek ?_
    unfold Cursor.next? at hcursor
    split at hcursor
    · cases hcursor
    · rename_i rest hrest
      cases hcursor
      exact h.cursor.past hrest
  · exact h

/-- A marked place is where the stream stands. -/
theorem Sound.mark (h : Sound source r) : Sound source (r.perform .mark) := by
  refine ⟨h.source_eq, h.cursor, fun place hplace => ?_⟩
  rcases List.mem_append.mp hplace with hplace | hplace
  · exact h.marks place hplace
  · obtain rfl := List.mem_singleton.mp hplace
    have hcursor : (r.stream.reset r.stream.mark).cursor = r.lexer.cursor := by
      rw [show r.lexer.cursor = ⟨r.lexer.cursor.place, r.lexer.cursor.rest⟩ from rfl, h.cursor.rest_eq,
        ← h.source_eq]
      rfl
    show (r.stream.reset r.stream.mark).cursor.Within source
    rw [hcursor]
    exact h.cursor

/-- A place that was marked before is within the text, and any other index changes nothing. -/
theorem Sound.reset (h : Sound source r) (index : Nat) : Sound source (r.perform (.reset index)) := by
  rw [perform]
  split
  · rename_i place hplace
    exact h.seek (h.marks place (List.mem_of_getElem? hplace))
  · exact h

/-- **Every operation leads from a place of the text to a place of it.** -/
theorem Sound.perform (h : Sound source r) (operation : Operation) :
    Sound source (r.perform operation) := by
  cases operation with
  | streamNext => exact h.streamNext
  | streamPeek | startsWith | atEnd | peek => exact h
  | mark => exact h.mark
  | reset index => exact h.reset index
  | advance => exact h.run moves_advance
  | emit => exact h.run (moves_emit _ _ _ _)
  | skipSpacing => exact h.run moves_skipSpacing
  | skipComment => exact h.run moves_skipComment
  | matchOperator => exact h.run moves_matchOperator
  | readText => exact h.run moves_readText
  | readWord => exact h.run (moves_readWord _ _)
  | readNumber => exact h.run (moves_readNumber _ _ _)
  | readString => exact h.run (moves_readString _ _)
  | next => exact h.run moves_next
  | tokens => exact h.run moves_tokens

end Reader

end Stencil.Lexer
