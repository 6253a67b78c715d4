import Mathlib.Control.Monad.Basic
import Mathlib.Data.List.TakeWhile
import Stencil.CommandLine.Basic
import Stencil.Proofs.CommandLine.Arguments
import Stencil.Proofs.Sequence
import Stencil.Proofs.Template.Failure
import Stencil.Proofs.Template.Mention

/-!
# CommandLine — delivery

What a job leaves behind, however it ends (`outcome_of_job`).  If it ends with 0, its result is in the
output file, or on standard output if there is none, and no other file has changed.  If it does not,
nothing is printed on standard output, and every file is as before, unless a step was refused behind
the one that opened the output file.  Then that file is spoiled: it is empty, or has the beginning of
the result, or has the result though the run has failed (`Job.Spoils`).

So a job is not done in whole or not at all (`not_all_or_nothing`).  An argument that is no text is
enough: it can be read as a template, but its tree cannot be written.

The tokens of a template are there whenever its tree is, and UTF-8 can write them if it can write the
tree (`takes_tokens`).  So a run that shows the tree can show the tokens in its place.
-/

namespace Stencil

open Text (Codec StandIns)

/-! ### Encodings -/

/-- Can every character of the text be written? -/
def Text.Codec.Takes (codec : Codec) (text : String) : Prop :=
  ∀ c ∈ text.toList, codec.encodes c = true

theorem Text.Codec.fault?_eq_none_iff {codec : Codec} {text : String} :
    codec.fault? text = none ↔ codec.Takes text := by
  rw [Takes, ← List.dropWhile_eq_nil_iff, fault?]
  split <;> simp_all

/-- A text that is not taken has a first character at fault. -/
theorem Text.Codec.exists_fault {codec : Codec} {text : String} (h : ¬ codec.Takes text) :
    ∃ fault, codec.fault? text = some fault :=
  Option.ne_none_iff_exists'.mp (mt fault?_eq_none_iff.mp h)

/-- What stands in for a byte is not ASCII and in no word. -/
theorem Text.StandIns.inert_of_not_encodes {s : StandIns} {c : Char} (h : s.utf8.encodes c ≠ true) :
    0x80 ≤ c.toNat ∧ isWord c = false := by
  obtain ⟨byte, hbyte⟩ : ∃ byte, s.byte? c = some byte :=
    Option.ne_none_iff_exists'.mp fun hnone => h (by simp [utf8, hnone])
  obtain ⟨before, after, htable, -⟩ := List.lookup_eq_some_iff.mp hbyte
  have hmem : (c, byte) ∈ s.table := by simp [htable]
  exact ⟨(s.inert _ hmem).1, (s.inert _ hmem).2.1⟩

/-- UTF-8 takes a text if it takes another one that has all its characters, but for ASCII and the
characters of words. -/
theorem Text.StandIns.takes_of_subset {s : StandIns} {text other : String}
    (hsubset : ∀ c, 0x80 ≤ c.toNat → isWord c = false → c ∈ text.toList → c ∈ other.toList)
    (h : s.utf8.Takes other) : s.utf8.Takes text := by
  intro c hc
  by_contra hnot
  obtain ⟨hascii, hword⟩ := inert_of_not_encodes hnot
  exact hnot (h c (hsubset c hascii hword hc))

namespace CommandLine

variable {w : Surroundings} {job : Job} {d : Directory} {e : Effects} {name text result : String}

/-! ### Files -/

/-- A file of the name can be written to. -/
def Directory.Opens (d : Directory) (name : String) : Prop :=
  '\x00' ∉ name.toList ∧ d.denial? .writing name = none

/-- A file of the name takes the bytes. -/
def Directory.Fits (d : Directory) (name : String) (bytes : List UInt8) : Prop :=
  ∀ room ∈ d.room? name, bytes.length ≤ room

/-- The file of the name has these bytes now, and no other file has changed. -/
def Directory.ChangedTo (before after : Directory) (name : String) (bytes : List UInt8) : Prop :=
  after.find? name = some bytes ∧ ∀ other ≠ name, after.find? other = before.find? other

/-- Writing a file changes that file alone. -/
theorem Directory.changedTo_put (d : Directory) (name : String) (bytes : List UInt8) :
    d.ChangedTo (d.put name bytes) name bytes :=
  ⟨d.find?_put_self name bytes, fun _ => d.find?_put_of_ne bytes⟩

/-- In a flat directory there is room for everything. -/
theorem fits_flat (files : List (String × List UInt8)) (name : String) (bytes : List UInt8) :
    (Directory.flat files).Fits name bytes := fun _ hroom => nomatch hroom

/-! ### Steps -/

/-- A text that the console takes is printed behind what was printed before. -/
theorem print_of_takes (h : w.console.Takes text) (e : Effects) :
    (print w text).run e = .ok () { e with printed := e.printed ++ text } := by
  rw [print, Codec.fault?_eq_none_iff.mpr h]
  rfl

/-- Of a text that the console does not take nothing is printed. -/
theorem print_of_not_takes (h : ¬ w.console.Takes text) (e : Effects) :
    ∃ fault, (print w text).run e = .error (.notEncoded fault) e := by
  obtain ⟨fault, hfault⟩ := Codec.exists_fault h
  refine ⟨fault, ?_⟩
  rw [print, hfault]
  rfl

/-- Opening a file for writing empties it, or makes it. -/
theorem openFile_of_opens (h : e.directory.Opens name) :
    (openFile name).run e = .ok () { e with directory := e.directory.put name [] } := by
  rw [openFile, if_neg (by simpa using h.1), bind_of_ok (get_run e)]
  simp only [h.2]
  rfl

/-- A file that does not open is left as it is. -/
theorem openFile_of_not_opens (h : ¬ e.directory.Opens name) :
    ∃ refusal, (openFile name).run e = .error refusal e := by
  rw [openFile]
  by_cases hname : name.toList.contains '\x00' = true
  · rw [if_pos hname]
    exact ⟨_, rfl⟩
  · rw [if_neg hname, bind_of_ok (get_run e)]
    cases hdenial : e.directory.denial? .writing name with
    | none => exact absurd ⟨by simpa using hname, hdenial⟩ h
    | some denial => exact ⟨_, rfl⟩

/-- What fits is written whole. -/
theorem fill_of_fits {bytes : List UInt8} (h : e.directory.Fits name bytes) :
    (fill name bytes).run e = .ok () { e with directory := e.directory.put name bytes } := by
  rw [fill, bind_of_ok (get_run e)]
  cases hroom : e.directory.room? name with
  | none => rfl
  | some room =>
    have hle : bytes.length ≤ room := h room hroom
    simp only [List.take_of_length_le hle, if_neg (Nat.not_lt_of_le hle)]
    rfl

/-- Of what does not fit as much is written as there is room for. -/
theorem fill_of_not_fits {bytes : List UInt8} {room : Nat}
    (hroom : e.directory.room? name = some room) (h : room < bytes.length) :
    (fill name bytes).run e =
      .error .noRoom { e with directory := e.directory.put name (bytes.take room) } := by
  rw [fill, bind_of_ok (get_run e)]
  simp only [hroom, if_pos h]
  rfl

/-! ### Results -/

/-- What is shown of a text: its tokens if they are asked for, and if not its tree, if the stack is
enough for that. -/
inductive Shows (stack : Nat) (text : String) : Bool → Json → Prop
  | tokens {ts : List Token} : Template.tokens text = .ok ts →
      Shows stack text true (.array (ts.map Token.toJson))
  | tree {n : Node} : Template.read text = .ok n → n.frames ≤ stack → Shows stack text false n.toJson

/-- The template is read, and there is something to show of it, which has this text. -/
def Job.Ready (job : Job) (w : Surroundings) (d : Directory) (result : String) : Prop :=
  ∃ text j, job.text d = .ok text ∧ Shows w.stack text job.tokens j ∧ result = job.render j

theorem except_bind_eq_ok {ε α β : Type} {x : Except ε α} {f : α → Except ε β} {b : β} :
    x >>= f = .ok b ↔ ∃ a, x = .ok a ∧ f a = .ok b := by
  cases x with
  | error e => exact iff_of_false nofun fun ⟨_, h, _⟩ => nomatch h
  | ok a => exact ⟨fun h => ⟨a, rfl, h⟩, fun ⟨_, ha, h⟩ => by cases ha; exact h⟩

theorem mapError_eq_ok {ε ε' α : Type} {f : ε → ε'} {x : Except ε α} {a : α} :
    x.mapError f = .ok a ↔ x = .ok a := by
  cases x with
  | error e => exact iff_of_false nofun nofun
  | ok b => exact ⟨fun h => by cases h; rfl, fun h => by cases h; rfl⟩

/-- A job has a result to show iff the text is a template and the tree is not too deep for the
stack. -/
theorem json_eq_ok_iff_shows {stack : Nat} {j : Json} :
    job.json stack text = .ok j ↔ Shows stack text job.tokens j := by
  rw [Job.json, except_bind_eq_ok]
  simp only [mapError_eq_ok]
  constructor
  · rintro ⟨ts, hts, h⟩
    cases hasked : job.tokens with
    | true =>
      rw [if_pos hasked] at h
      cases h
      exact .tokens hts
    | false =>
      rw [if_neg (by rw [hasked]; exact Bool.false_ne_true), except_bind_eq_ok] at h
      obtain ⟨n, hn, h⟩ := h
      rw [mapError_eq_ok] at hn
      split at h
      · cases h
      · rename_i hstack
        cases h
        exact .tree (except_bind_eq_ok.mpr ⟨ts, hts, hn⟩) (Nat.le_of_not_lt hstack)
  · intro h
    generalize hasked : job.tokens = asked at h
    cases h with
    | tokens hts => exact ⟨_, hts, if_pos rfl⟩
    | tree hread hstack =>
      obtain ⟨ts, hts, hn⟩ := except_bind_eq_ok.mp hread
      refine ⟨ts, hts, (if_neg Bool.false_ne_true).trans ?_⟩
      refine except_bind_eq_ok.mpr ⟨_, mapError_eq_ok.mpr hn, ?_⟩
      rw [if_neg (Nat.not_lt_of_le hstack)]
      rfl

/-- There is a result to deliver iff the input can be read and shown. -/
theorem result_eq_ok_iff_ready : job.result w d = .ok result ↔ job.Ready w d result := by
  rw [Job.result, except_bind_eq_ok]
  refine exists_congr fun text => ?_
  rw [exists_and_left, except_bind_eq_ok]
  refine and_congr_right fun _ => exists_congr fun j => ?_
  rw [json_eq_ok_iff_shows]
  exact and_congr_right fun _ => ⟨fun h => by cases h; rfl, fun h => by rw [h]; rfl⟩

/-! ### Delivery -/

/-- Can the result be put where it belongs, and the note about it be printed? -/
def Job.Deliverable (job : Job) (w : Surroundings) (d : Directory) (result : String) : Prop :=
  match job.out with
  | none => w.console.Takes (job.printed result)
  | some name =>
    d.Opens name ∧ w.standIns.utf8.Takes result ∧ d.Fits name (Text.Utf8.encode result) ∧
      (job.pretty = true → w.console.Takes (Job.note name))

/-- The result stands on standard output, or else it is what the output file holds.  No other file
has changed. -/
def Job.Delivers (job : Job) (result : String) (d : Directory) (report : Report) : Prop :=
  match job.out with
  | none => report.output = .text (job.printed result) ∧ report.directory = d
  | some name =>
    report.output = .text (if job.pretty then Job.note name else "") ∧
      d.ChangedTo report.directory name (Text.Utf8.encode result)

/-- What is in the output file when a step behind its opening is refused: nothing, if UTF-8 cannot
write the result; the beginning of it, if there is no room for more; and all of it, if only the note
about it cannot be printed. -/
inductive Job.Spoils (job : Job) (w : Surroundings) (d : Directory) (result name : String) :
    Refusal → List UInt8 → Prop
  | notEncoded {fault : Codec.Fault} : w.standIns.utf8.fault? result = some fault →
      Spoils job w d result name (.notEncoded fault) []
  | noRoom {room : Nat} : w.standIns.utf8.Takes result → d.room? name = some room →
      room < (Text.Utf8.encode result).length →
      Spoils job w d result name .noRoom ((Text.Utf8.encode result).take room)
  | notAnnounced {fault : Codec.Fault} : w.standIns.utf8.Takes result →
      d.Fits name (Text.Utf8.encode result) → job.pretty = true →
      w.console.fault? (Job.note name) = some fault →
      Spoils job w d result name (.notEncoded fault) (Text.Utf8.encode result)

/-- Behind the opening of the output file, the result and the note about it remain to be written. -/
theorem deliver_of_opens (hout : job.out = some name) (hopens : d.Opens name) :
    (job.deliver w result).run ⟨"", d⟩ = (writeFile w name result >>= fun _ =>
      if job.pretty then print w (Job.note name) else pure ()).run ⟨"", d.put name []⟩ := by
  rw [Job.deliver, hout]
  exact bind_of_ok (openFile_of_opens hopens)

/-- Where the file does not open nothing has happened. -/
theorem deliver_of_not_opens (hout : job.out = some name) (hopens : ¬ d.Opens name) :
    ∃ refusal, (job.deliver w result).run ⟨"", d⟩ = .error refusal ⟨"", d⟩ := by
  obtain ⟨refusal, h⟩ := openFile_of_not_opens (e := ⟨"", d⟩) hopens
  rw [Job.deliver, hout]
  exact ⟨refusal, bind_of_error h⟩

/-- An open file takes the result or is spoiled. -/
theorem writeFile_cases (job : Job) (w : Surroundings) (d : Directory) (result name : String) :
    (w.standIns.utf8.Takes result ∧ d.Fits name (Text.Utf8.encode result) ∧
      (writeFile w name result).run ⟨"", d.put name []⟩ =
        .ok () ⟨"", d.put name (Text.Utf8.encode result)⟩) ∨
    (¬ (w.standIns.utf8.Takes result ∧ d.Fits name (Text.Utf8.encode result)) ∧
      ∃ refusal bytes, (writeFile w name result).run ⟨"", d.put name []⟩ =
        .error refusal ⟨"", d.put name bytes⟩ ∧ job.Spoils w d result name refusal bytes) := by
  by_cases htakes : w.standIns.utf8.Takes result
  · have hfill : writeFile w name result = fill name (Text.Utf8.encode result) := by
      rw [writeFile, Codec.fault?_eq_none_iff.mpr htakes]
    rw [hfill]
    by_cases hfits : d.Fits name (Text.Utf8.encode result)
    · refine .inl ⟨htakes, hfits, ?_⟩
      rw [fill_of_fits (show (d.put name []).Fits name _ from hfits), Directory.put_put]
    · refine .inr ⟨fun h => hfits h.2, ?_⟩
      obtain ⟨room, hroom, hlt⟩ : ∃ room, d.room? name = some room ∧
          room < (Text.Utf8.encode result).length := by
        simpa [Directory.Fits] using hfits
      refine ⟨_, _, ?_, .noRoom htakes hroom hlt⟩
      rw [fill_of_not_fits (show (d.put name []).room? name = some room from hroom) hlt,
        Directory.put_put]
  · obtain ⟨fault, hfault⟩ := Codec.exists_fault htakes
    refine .inr ⟨fun h => htakes h.1, _, _, ?_, .notEncoded hfault⟩
    rw [writeFile, hfault]
    rfl

/-- **A result is delivered, or the job is refused before anything is done, or the output file is
spoiled.** -/
theorem deliver_cases (job : Job) (w : Surroundings) (d : Directory) (result : String) :
    (job.Deliverable w d result ∧ ∃ printed d', (job.deliver w result).run ⟨"", d⟩ =
      .ok () ⟨printed, d'⟩ ∧ job.Delivers result d ⟨.text printed, "", .exit 0, d'⟩) ∨
    (¬ job.Deliverable w d result ∧ (∀ name ∈ job.out, ¬ d.Opens name) ∧
      ∃ refusal, (job.deliver w result).run ⟨"", d⟩ = .error refusal ⟨"", d⟩) ∨
    (¬ job.Deliverable w d result ∧ ∃ name ∈ job.out, d.Opens name ∧
      ∃ refusal bytes, (job.deliver w result).run ⟨"", d⟩ = .error refusal ⟨"", d.put name bytes⟩ ∧
        job.Spoils w d result name refusal bytes) := by
  unfold Job.Deliverable Job.Delivers
  cases hout : job.out with
  | none =>
    have hdeliver : job.deliver w result = print w (job.printed result) := by
      rw [Job.deliver, hout]
    rw [hdeliver]
    by_cases htakes : w.console.Takes (job.printed result)
    · exact .inl ⟨htakes, _, _, print_of_takes htakes _, by simp, rfl⟩
    · obtain ⟨fault, h⟩ := print_of_not_takes htakes ⟨"", d⟩
      exact .inr (.inl ⟨htakes, nofun, _, h⟩)
  | some name =>
    simp only [Option.mem_some_iff, forall_eq', exists_eq_left']
    by_cases hopens : d.Opens name
    · rw [deliver_of_opens hout hopens]
      -- from here on the file is open, so whatever fails leaves it changed
      rcases writeFile_cases job w d result name with ⟨htakes, hfits, hrun⟩ |
        ⟨hnot, refusal, bytes, hrun, hspoils⟩
      · rw [bind_of_ok hrun]
        have hchanged := d.changedTo_put name (Text.Utf8.encode result)
        cases hpretty : job.pretty with
        | false => exact .inl ⟨⟨hopens, htakes, hfits, nofun⟩, "", _, rfl, rfl, hchanged⟩
        | true =>
          -- the result is written, and only the note about it can fail
          by_cases hnote : w.console.Takes (Job.note name)
          · exact .inl ⟨⟨hopens, htakes, hfits, fun _ => hnote⟩, _, _, print_of_takes hnote _,
              by simp, hchanged⟩
          · obtain ⟨fault, hfault⟩ := Codec.exists_fault hnote
            refine .inr (.inr ⟨fun h => hnote (h.2.2.2 rfl), hopens, .notEncoded fault, _, ?_,
              .notAnnounced htakes hfits hpretty hfault⟩)
            rw [if_pos rfl, print, hfault]
            rfl
      · refine .inr (.inr ⟨fun h => hnot ⟨h.2.1, h.2.2.1⟩, hopens, refusal, bytes, ?_, hspoils⟩)
        exact bind_of_error hrun
    · exact .inr (.inl ⟨fun h => hopens h.1, hopens, deliver_of_not_opens hout hopens⟩)

/-! ### Runs -/

/-- The output file is spoiled as the refusal says that the run ends with. -/
def Job.Spoiled (job : Job) (w : Surroundings) (d : Directory) (result name : String)
    (report : Report) : Prop :=
  ∃ refusal bytes, job.Spoils w d result name refusal bytes ∧ report.ending = refusal.ending ∧
    d.ChangedTo report.directory name bytes

/-- Whatever stops a job, the program does not end as if nothing had. -/
theorem ending_ne_exit (refusal : Refusal) : refusal.ending ≠ .exit 0 := by
  unfold Refusal.ending
  split <;> nofun

/-- A job without a result has done nothing. -/
theorem reportJob_of_not_ready (h : ∀ result, ¬ job.Ready w d result) :
    (reportJob w d job).ending ≠ .exit 0 ∧ (reportJob w d job).output = .text "" ∧
      (reportJob w d job).directory = d := by
  obtain ⟨refusal, hrefusal⟩ : ∃ refusal, job.result w d = .error refusal := by
    cases hresult : job.result w d with
    | ok result => exact absurd (result_eq_ok_iff_ready.mp hresult) (h result)
    | error refusal => exact ⟨refusal, rfl⟩
  have hrun : (job.run w).run ⟨"", d⟩ = .error refusal ⟨"", d⟩ := by
    rw [Job.run, bind_of_ok (get_run _), hrefusal]
    rfl
  rw [reportJob, hrun]
  exact ⟨ending_ne_exit refusal, rfl, rfl⟩

/-- A job that is ready only has its delivery left to do. -/
theorem run_of_ready (h : job.Ready w d result) :
    (job.run w).run ⟨"", d⟩ = (job.deliver w result).run ⟨"", d⟩ := by
  rw [Job.run, bind_of_ok (get_run _), result_eq_ok_iff_ready.mpr h]
  rfl

/-- A job with a result delivers it, or is refused before anything is done, or spoils the output
file. -/
theorem reportJob_of_ready (h : job.Ready w d result) :
    (job.Deliverable w d result ∧ (reportJob w d job).ending = .exit 0 ∧
      job.Delivers result d (reportJob w d job)) ∨
    (¬ job.Deliverable w d result ∧ (reportJob w d job).ending ≠ .exit 0 ∧
      (reportJob w d job).output = .text "" ∧
      (((∀ name ∈ job.out, ¬ d.Opens name) ∧ (reportJob w d job).directory = d) ∨
        ∃ name ∈ job.out, d.Opens name ∧ job.Spoiled w d result name (reportJob w d job))) := by
  rw [reportJob, run_of_ready h]
  rcases deliver_cases job w d result with ⟨hdeliverable, printed, d', hrun, hdelivers⟩ |
    ⟨hnot, hopens, refusal, hrun⟩ | ⟨hnot, name, hname, hopens, refusal, bytes, hrun, hspoils⟩
  · rw [hrun]
    exact .inl ⟨hdeliverable, rfl, hdelivers⟩
  · rw [hrun]
    exact .inr ⟨hnot, ending_ne_exit refusal, rfl, .inl ⟨hopens, rfl⟩⟩
  · rw [hrun]
    exact .inr ⟨hnot, ending_ne_exit refusal, rfl, .inr ⟨name, hname, hopens, refusal, bytes, hspoils,
      rfl, d.changedTo_put name bytes⟩⟩

/-- A job ends with 0 if it has a result that can be delivered, and only then. -/
theorem exits_iff : (reportJob w d job).ending = .exit 0 ↔
    ∃ result, job.Ready w d result ∧ job.Deliverable w d result := by
  constructor
  · intro hexit
    by_cases hready : ∃ result, job.Ready w d result
    · obtain ⟨result, hready⟩ := hready
      rcases reportJob_of_ready hready with ⟨hdeliverable, -⟩ | ⟨-, hne, -⟩
      · exact ⟨result, hready, hdeliverable⟩
      · exact absurd hexit hne
    · exact absurd hexit (reportJob_of_not_ready (not_exists.mp hready)).1
  · rintro ⟨result, hready, hdeliverable⟩
    rcases reportJob_of_ready hready with ⟨-, hexit, -⟩ | ⟨hnot, -⟩
    · exact hexit
    · exact absurd hdeliverable hnot

/-- A job that ends well was ready and has delivered its result. -/
theorem delivers_of_exits (hexit : (reportJob w d job).ending = .exit 0) :
    ∃ result, job.Ready w d result ∧ job.Delivers result d (reportJob w d job) := by
  obtain ⟨result, hready, hdeliverable⟩ := exits_iff.mp hexit
  rcases reportJob_of_ready hready with ⟨-, -, hdelivers⟩ | ⟨hnot, -⟩
  · exact ⟨result, hready, hdelivers⟩
  · exact absurd hdeliverable hnot

/-- A job that does not end with 0 has done nothing, or has spoiled the output file. -/
theorem unchanged_or_spoiled (hexit : (reportJob w d job).ending ≠ .exit 0) :
    (reportJob w d job).output = .text "" ∧ ((reportJob w d job).directory = d ∨
      ∃ name result, job.out = some name ∧ job.Ready w d result ∧ d.Opens name ∧
        job.Spoiled w d result name (reportJob w d job)) := by
  by_cases hready : ∃ result, job.Ready w d result
  · obtain ⟨result, hready⟩ := hready
    rcases reportJob_of_ready hready with ⟨-, hzero, -⟩ |
      ⟨-, -, hprinted, ⟨-, hsame⟩ | ⟨name, hname, hopens, hspoiled⟩⟩
    · exact absurd hzero hexit
    · exact ⟨hprinted, .inl hsame⟩
    · exact ⟨hprinted, .inr ⟨name, result, hname, hready, hopens, hspoiled⟩⟩
  · obtain ⟨-, hprinted, hsame⟩ := reportJob_of_not_ready (not_exists.mp hready)
    exact ⟨hprinted, .inl hsame⟩

/-- Opening the output file for a result that cannot be delivered spoils it. -/
theorem spoiled_of_opens (hout : job.out = some name) (hready : job.Ready w d result)
    (hopens : d.Opens name) (hnot : ¬ job.Deliverable w d result) :
    job.Spoiled w d result name (reportJob w d job) := by
  rcases reportJob_of_ready hready with ⟨hdeliverable, -⟩ |
    ⟨-, -, -, ⟨hclosed, -⟩ | ⟨other, hother, -, hspoiled⟩⟩
  · exact absurd hdeliverable hnot
  · exact absurd hopens (hclosed name hout)
  · cases hout.symm.trans hother
    exact hspoiled

/-! ### Tokens in place of the tree -/

theorem mem_render {c : Char} (hc : 0x80 ≤ c.toNat) (job : Job) (j : Json) :
    c ∈ (job.render j).toList ↔ j.Mentions c := by
  rw [Job.render]
  split
  · exact j.mem_indented hc
  · exact j.mem_compact hc

/-- Only ASCII is printed around a result. -/
theorem mem_printed {c : Char} (hc : 0x80 ≤ c.toNat) (job : Job) (result : String) :
    c ∈ (job.printed result).toList ↔ c ∈ result.toList := by
  have hbreak : c ≠ '\n' := by rintro rfl; revert hc; decide
  have hbanner : c ∉ Job.banner.toList := Json.not_mem_of_ascii hc (by decide)
  have htitle : c ∉ (if job.tokens then "Tokens" else "AST").toList :=
    Json.not_mem_of_ascii hc (by cases job.tokens <;> decide)
  rw [Job.printed]
  split <;> simp [toString, hbreak, hbanner, htitle]

/-- The job with the tokens asked for. -/
def Job.showing (job : Job) : Job := { job with tokens := true }

/-- Whether UTF-8 takes what is printed is decided by the result. -/
theorem takes_printed {s : StandIns} : s.utf8.Takes (job.printed result) ↔ s.utf8.Takes result :=
  ⟨s.takes_of_subset fun _ hc _ => (mem_printed hc job result).mpr,
    s.takes_of_subset fun _ hc _ => (mem_printed hc job result).mp⟩

/-- **UTF-8 writes the tokens of a template if it writes its tree.** -/
theorem takes_tokens {s : StandIns} {ts : List Token} {n : Node} (htokens : tokenize text = .ok ts)
    (hparse : parse ts = .ok n) (h : s.utf8.Takes (job.render n.toJson)) :
    s.utf8.Takes (job.render (.array (ts.map Token.toJson))) := by
  refine s.takes_of_subset (fun c hascii hword hc => ?_) h
  have hmention := (mem_render hascii job _).mp hc
  exact (mem_render hascii job _).mpr
    (Template.mentions_of_tokens htokens hparse hascii hword hmention)

/-- Where the tree can be delivered, there are tokens to show, and they can be delivered if there is
room for them. -/
theorem deliverable_showing (htree : job.tokens = false) (hready : job.Ready w d result)
    (hdeliverable : job.Deliverable w d result) (hconsole : w.console = w.standIns.utf8) :
    ∃ tokens, job.showing.Ready w d tokens ∧
      ((∀ name ∈ job.out, d.Fits name (Text.Utf8.encode tokens)) →
        job.showing.Deliverable w d tokens) := by
  obtain ⟨text, j, htext, hshows, rfl⟩ := hready
  rw [htree] at hshows
  cases hshows with
  | tree hread hstack =>
    obtain ⟨ts, htokens, hparse⟩ := Template.read_eq_ok.mp hread
    have htokens' : Template.tokens text = .ok ts := mapError_eq_ok.mpr htokens
    refine ⟨_, ⟨text, _, htext, .tokens htokens', rfl⟩, fun hfits => ?_⟩
    unfold Job.Deliverable at hdeliverable ⊢
    change match job.out with | none => _ | some name => _
    cases hout : job.out with
    | none =>
      rw [hout, hconsole, takes_printed] at hdeliverable
      rw [hconsole, takes_printed]
      exact takes_tokens htokens hparse hdeliverable
    | some name =>
      rw [hout] at hdeliverable
      obtain ⟨hopens, htakes, -, hnote⟩ := hdeliverable
      exact ⟨hopens, takes_tokens htokens hparse htakes, hfits name hout, hnote⟩

/-! ### The program -/

/-- A source in the arguments, and no shell, makes a job of its settings. -/
theorem run_of_source {arguments : List String} {s : Settings} {source : String}
    (hs : Settings.ofArguments arguments = .ok s) (hsource : s.source = some source)
    (hshell : s.shell = false) (w : Surroundings) (d : Directory) (events : List Shell.Event) :
    run w arguments d events = reportJob w d (s.job source) := by
  have hrequest : request arguments = .job (s.job source) := by
    rw [request, hs]
    dsimp only
    rw [hshell, hsource]
  rw [run, hrequest]

/-- **What a run on a template leaves behind.**  It ends with 0 if the template is read, there is
something to show and it can be delivered, and only then; and what there is to show is delivered.  If
it does not end with 0, nothing is printed, and every file is as before or the output file alone is
spoiled; which it is if it was opened for a result that cannot be delivered.  Where the tree is shown,
and standard output takes what UTF-8 can write, the tokens are shown if they are asked for, as they
are by one more switch, and if there is room for them. -/
theorem outcome_of_job {arguments : List String} {s : Settings} {source : String}
    (hs : Settings.ofArguments arguments = .ok s) (hsource : s.source = some source)
    (hshell : s.shell = false) (w : Surroundings) (d : Directory) (events : List Shell.Event) :
    let report := run w arguments d events
    let job := s.job source
    (report.ending = .exit 0 ↔ ∃ result, job.Ready w d result ∧ job.Deliverable w d result) ∧
    (report.ending = .exit 0 → ∃ result, job.Ready w d result ∧ job.Delivers result d report) ∧
    (report.ending ≠ .exit 0 → report.output = .text "" ∧
      (report.directory = d ∨ ∃ name result, job.out = some name ∧ job.Ready w d result ∧
        d.Opens name ∧ job.Spoiled w d result name report)) ∧
    (∀ name result, job.out = some name → job.Ready w d result → d.Opens name →
      ¬ job.Deliverable w d result → job.Spoiled w d result name report) ∧
    (s.tokens = false → w.console = w.standIns.utf8 → report.ending = .exit 0 →
      Settings.ofArguments ("--tokens" :: arguments) = .ok s.showing ∧
      ∃ tokens, job.showing.Ready w d tokens ∧
        ((∀ name ∈ job.out, d.Fits name (Text.Utf8.encode tokens)) →
          ∀ arguments', Settings.ofArguments arguments' = .ok s.showing →
            (run w arguments' d events).ending = .exit 0)) := by
  intro report job
  have hreport : report = reportJob w d job := run_of_source hs hsource hshell w d events
  rw [hreport]
  refine ⟨exits_iff, delivers_of_exits, unchanged_or_spoiled, fun name result => spoiled_of_opens,
    fun htree hconsole hexit => ⟨by rw [ofArguments_tokens, hs]; rfl, ?_⟩⟩
  obtain ⟨result, hready, hdeliverable⟩ := exits_iff.mp hexit
  obtain ⟨tokens, htokens, hdelivered⟩ :=
    deliverable_showing (show job.tokens = false from htree) hready hdeliverable hconsole
  refine ⟨tokens, htokens, fun hfits arguments' hs' => ?_⟩
  rw [run_of_source hs' hsource hshell w d events]
  exact exits_iff.mpr ⟨tokens, htokens, hdelivered hfits⟩

/-- The arguments of a run on the text `\x7b\x7b x \x7d\x7d` that writes a file. -/
def sampleArguments : List String := ["-s", "\x7b\x7b x \x7d\x7d", "-o", "x.json"]

/-- What the arguments set. -/
def sampleSettings : Settings :=
  ⟨some "\x7b\x7b x \x7d\x7d", true, some "x.json", false, false, false, false, []⟩

/-- All arguments are text, and standard output takes UTF-8. -/
def sampleSurroundings : Surroundings := ⟨.none, StandIns.none.utf8, 997⟩

/-- The file is written, nothing is printed, and the tokens can be written in its place. -/
theorem outcome_of_job_sample :
    Settings.ofArguments sampleArguments = .ok sampleSettings ∧
    sampleSettings.source = some "\x7b\x7b x \x7d\x7d" ∧ sampleSettings.shell = false ∧
    (run sampleSurroundings sampleArguments (.flat []) []).output = .text "" ∧
    (run sampleSurroundings sampleArguments (.flat []) []).directory.find? "x.json" =
      some (Text.Utf8.encode (Json.compact (Node.program [.identifier "x"]).toJson)) ∧
    (run sampleSurroundings ("--tokens" :: sampleArguments) (.flat []) []).ending = .exit 0 := by
  have hs : Settings.ofArguments sampleArguments = .ok sampleSettings := rfl
  obtain ⟨hexits, hdelivers, -, -, htokens⟩ :=
    outcome_of_job hs rfl rfl sampleSurroundings (.flat []) []
  have htokenize : tokenize "\x7b\x7b x \x7d\x7d" = .ok [⟨.openExpression, "\x7b\x7b", 1, 1⟩,
      ⟨.identifier, "x", 1, 4⟩, ⟨.closeExpression, "\x7d\x7d", 1, 6⟩] := by decide +kernel
  have hread : Template.read "\x7b\x7b x \x7d\x7d" = .ok (.program [.identifier "x"]) :=
    Template.read_eq_ok.mpr ⟨_, htokenize, rfl⟩
  have hready : (sampleSettings.job "\x7b\x7b x \x7d\x7d").Ready sampleSurroundings (.flat [])
      (Json.compact (Node.program [.identifier "x"]).toJson) :=
    ⟨"\x7b\x7b x \x7d\x7d", _, rfl, .tree hread (by decide), (if_neg Bool.false_ne_true).symm⟩
  have hdeliverable : (sampleSettings.job "\x7b\x7b x \x7d\x7d").Deliverable sampleSurroundings
      (.flat []) (Json.compact (Node.program [.identifier "x"]).toJson) :=
    ⟨⟨by decide, by decide⟩, fun _ _ => rfl, fits_flat _ _ _, nofun⟩
  have hexit := hexits.mpr ⟨_, hready, hdeliverable⟩
  obtain ⟨result, hready', hprinted, hfile, -⟩ := hdelivers hexit
  obtain rfl : _ = result := Except.ok.inj
    ((result_eq_ok_iff_ready.mpr hready).symm.trans (result_eq_ok_iff_ready.mpr hready'))
  obtain ⟨hs', tokens, -, htokens⟩ := htokens rfl rfl hexit
  exact ⟨hs, rfl, rfl, hprinted, hfile, htokens (fun _ _ => fits_flat _ _ _) _ hs'⟩

/-! ### Not all or nothing -/

/-- The byte 0xFF belongs to no character, so a character stands in for it. -/
def strayByte : StandIns := ⟨[('─', 0xFF)], by decide +kernel⟩

/-- The byte is the whole text of a template, and the tree goes to a file. -/
def strayArguments : List String := ["-s", "─", "-o", "x.json"]

def straySettings : Settings := ⟨some "─", true, some "x.json", false, false, false, false, []⟩

/-- The directory has a file of this name already. -/
def strayDirectory : Directory := .flat [("x.json", [0x7b, 0x7d])]

/-- The template is read, but its tree cannot be written: the program ends with 1, and nothing is left
of the file. -/
theorem emptied_by_stray : ∃ report,
    run ⟨strayByte, strayByte.utf8, 997⟩ strayArguments strayDirectory [] = report ∧
      report.ending = .exit 1 ∧ report.directory.find? "x.json" = some [] := by
  have hs : Settings.ofArguments strayArguments = .ok straySettings := rfl
  have htokenize : tokenize "─" = .ok [⟨.text, "─", 1, 1⟩] := by decide +kernel
  have hread : Template.read "─" = .ok (.program [.string "─"]) :=
    Template.read_eq_ok.mpr ⟨_, htokenize, rfl⟩
  have hready : (straySettings.job "─").Ready ⟨strayByte, strayByte.utf8, 997⟩ strayDirectory
      (Json.compact (Node.program [.string "─"]).toJson) :=
    ⟨"─", _, rfl, .tree hread (by decide), (if_neg Bool.false_ne_true).symm⟩
  have hnot : ¬ strayByte.utf8.Takes (Json.compact (Node.program [.string "─"]).toJson) := by
    intro htakes
    have hmem : '─' ∈ (Json.compact (Node.program [.string "─"]).toJson).toList :=
      (Json.mem_compact (by decide) _).mpr (Node.mentions_first (.inl (Node.mentions_first (.head _))))
    exact absurd (htakes _ hmem) (by decide)
  have hopens : strayDirectory.Opens "x.json" := ⟨by decide, by decide⟩
  refine ⟨_, run_of_source hs rfl rfl _ _ _, ?_⟩
  obtain ⟨refusal, bytes, hspoils, hending, hfile, -⟩ :=
    spoiled_of_opens (show (straySettings.job "─").out = some "x.json" from rfl) hready hopens
      fun hdeliverable => hnot hdeliverable.2.1
  cases hspoils with
  | notEncoded => exact ⟨hending, hfile⟩
  | noRoom htakes => exact absurd htakes hnot
  | notAnnounced htakes => exact absurd htakes hnot

/-- A run that fails is not as if it had not been: it may have spoiled a file. -/
theorem not_all_or_nothing :
    ¬ ∀ (w : Surroundings) (arguments : List String) (s : Settings) (source : String)
      (d : Directory) (events : List Shell.Event), Settings.ofArguments arguments = .ok s →
        s.source = some source → s.shell = false →
        (run w arguments d events).ending ≠ .exit 0 →
          (run w arguments d events).output = .text "" ∧
            ∀ name, (run w arguments d events).directory.find? name = d.find? name := by
  intro h
  obtain ⟨report, hrun, hending, hfile⟩ := emptied_by_stray
  have hsame := h ⟨strayByte, strayByte.utf8, 997⟩ strayArguments straySettings "─" strayDirectory []
    rfl rfl rfl (by rw [hrun, hending]; nofun)
  cases hfile.symm.trans (hrun ▸ hsame.2 "x.json")

end CommandLine

end Stencil
