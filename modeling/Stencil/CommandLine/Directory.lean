import Stencil.Text.Utf8

/-!
# CommandLine — Directory

The files that a run can see, as names with bytes, and what the file system says of a name: whether a
file of that name can be opened, and how much it can take.  What is put under a name changes the file
of that name and no other (`find?_put_of_ne`).
-/

namespace Stencil.CommandLine

/-- Why a file is not opened: the kind of the error, its number and its sentence. -/
structure Denial where
  kind : String
  number : Nat
  reason : String
  deriving DecidableEq

/-- No file has the name, and the name may lead nowhere at all. -/
def Denial.notFound : Denial := ⟨"FileNotFoundError", 2, "No such file or directory"⟩

/-- What has the name is no file. -/
def Denial.isDirectory : Denial := ⟨"IsADirectoryError", 21, "Is a directory"⟩

/-- What a file is opened for. -/
inductive Access
  | reading
  | writing
  deriving DecidableEq

/-- Files by name, and what else there is to know of a name. -/
structure Directory where
  files : List (String × List UInt8)
  /-- Why a file of this name cannot be opened, even if it is there. -/
  denial? : Access → String → Option Denial
  /-- How many bytes a file of this name can take, if there is a bound. -/
  room? : String → Option Nat

namespace Directory

/-- A directory with files only: a name with a slash leads nowhere, and the names of the directory
itself and of the one above are not names of files. -/
def flat (files : List (String × List UInt8)) : Directory where
  files := files
  denial? _ name :=
    if name = "." ∨ name = ".." then some .isDirectory
    else if name.isEmpty ∨ '/' ∈ name.toList then some .notFound
    else none
  room? _ := none

/-- The bytes of a file. -/
def find? (d : Directory) (name : String) : Option (List UInt8) := d.files.lookup name

/-- The directory with a file of these bytes. -/
def put (d : Directory) (name : String) (bytes : List UInt8) : Directory :=
  { d with files := (name, bytes) :: d.files.filter (·.1 != name) }

/-- The bytes of a file that can be opened. -/
def read (d : Directory) (name : String) : Except Denial (List UInt8) :=
  match d.denial? .reading name with
  | some denial => .error denial
  | none =>
    match d.find? name with
    | some bytes => .ok bytes
    | none => .error .notFound

/-- The files of `after` that are not in `before` with the same bytes. -/
def changes (before after : Directory) : List (String × List UInt8) :=
  after.files.filter fun (name, bytes) => before.find? name != some bytes

theorem find?_put_self (d : Directory) (name : String) (bytes : List UInt8) :
    (d.put name bytes).find? name = some bytes := by
  simp [find?, put]

theorem find?_put_of_ne (d : Directory) {name other : String} (bytes : List UInt8)
    (h : other ≠ name) : (d.put name bytes).find? other = d.find? other := by
  have hb : (other == name) = false := by simpa using h
  simp only [find?, put, List.lookup_cons, hb]
  induction d.files with
  | nil => rfl
  | cons f rest ih =>
    obtain ⟨n, b⟩ := f
    by_cases hn : n = name
    · have ho : (other == n) = false := by simpa [hn] using h
      simpa [hn, List.lookup_cons, ho, hb] using ih
    · simp only [List.filter_cons, bne_iff_ne, ne_eq, hn, not_false_iff, if_true,
        List.lookup_cons, ih]

/-- Of what is put under one name, only the last remains. -/
theorem put_put (d : Directory) (name : String) (bytes bytes' : List UInt8) :
    (d.put name bytes).put name bytes' = d.put name bytes' := by
  simp [put, List.filter_filter]

end Directory

end Stencil.CommandLine
