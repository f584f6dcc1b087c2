import Mathlib.Data.List.Basic
import Mathlib.Logic.Function.Basic

/-!
# A file system shared by processes

Names refer to numbered files, and several names may refer to one file. Processes of
type `ι` create files, write to those that they have created, link and remove
names. An operation that fails changes nothing, and any operation may fail. A write may
succeed before its bytes have reached the file; a sync that succeeds means that they
have. Directories hold no bytes and are left out: creating one changes nothing here.

`LeavesFilesOf` and `KeepsName` are what a process can rely on of the others' operations.
-/

namespace Foundation

/-- A file: the process that created it, what is read from it, and the bytes that a write
has accepted and that have not reached it. -/
structure File (ι : Type*) where
  creator : Option ι
  data : List UInt8
  pending : List UInt8

namespace File

variable {ι : Type*} {file file' file'' : File ι}

def accepted (file : File ι) : List UInt8 := file.data ++ file.pending

/-- Nothing happened to the file but that accepted bytes reached it. -/
structure Flushed (file file' : File ι) : Prop where
  creator : file'.creator = file.creator
  accepted : file'.accepted = file.accepted
  data : file.data <+: file'.data

theorem Flushed.refl (file : File ι) : Flushed file file :=
  ⟨rfl, rfl, List.prefix_rfl⟩

theorem Flushed.trans (h : Flushed file file') (h' : Flushed file' file'') :
    Flushed file file'' :=
  ⟨h'.creator.trans h.creator, h'.accepted.trans h.accepted, h.data.trans h'.data⟩

/-- A file that all accepted bytes have reached stays as it is. -/
theorem Flushed.eq_of_pending (h : Flushed file file') (hpending : file.pending = []) :
    file' = file := by
  obtain ⟨creator, data, pending⟩ := file
  obtain ⟨creator', data', pending'⟩ := file'
  obtain ⟨hcreator, haccepted, hdata⟩ := h
  change creator' = creator at hcreator
  change data' ++ pending' = data ++ pending at haccepted
  change data <+: data' at hdata
  change pending = [] at hpending
  subst hcreator hpending
  have hlength := congrArg List.length haccepted
  have hle := hdata.length_le
  simp only [List.length_append, List.length_nil] at hlength
  have hpending' : pending' = [] := List.eq_nil_of_length_eq_zero (by omega)
  subst hpending'
  simp only [List.append_nil] at haccepted
  rw [haccepted]

end File

/-- Names and files. Whatever a name refers to is there. -/
structure FileSystem (ι Path : Type*) where
  names : Path → Option ℕ
  files : ℕ → Option (File ι)
  named : ∀ path n, names path = some n → ∃ file, files n = some file

/-- Why an operation failed. -/
inductive ErrorKind
  | notFound
  | alreadyExists
  | writeZero
  | other
  deriving DecidableEq, Repr

/-- The operations on files. A file that is open for writing is given by its number. -/
inductive FileOp (Path : Type)
  | read (path : Path)
  | createDirAll (path : Path)
  | createNew (path : Path)
  | write (file : ℕ) (chunk : List UInt8)
  | syncAll (file : ℕ)
  | hardLink (original link : Path)
  | removeFile (path : Path)

/-- What an operation gives when it succeeds: the contents of a file, the number of a new
one, or how many bytes of the chunk were accepted. -/
abbrev FileOp.Result {Path : Type} : FileOp Path → Type
  | .read _ => List UInt8
  | .createDirAll _ => Unit
  | .createNew _ => ℕ
  | .write _ _ => ℕ
  | .syncAll _ => Unit
  | .hardLink _ _ => Unit
  | .removeFile _ => Unit

namespace FileSystem

variable {ι : Type*} {Path : Type}

/-- What is read under a name. -/
def contents (fs : FileSystem ι Path) (path : Path) : Option (List UInt8) :=
  (fs.names path).bind fun n => (fs.files n).map File.data

theorem contents_eq_some {fs : FileSystem ι Path} {path : Path} {n : ℕ} {file : File ι}
    (hname : fs.names path = some n) (hfile : fs.files n = some file) :
    fs.contents path = some file.data := by
  simp [contents, hname, hfile]

theorem contents_eq_some_iff {fs : FileSystem ι Path} {path : Path} {data : List UInt8} :
    fs.contents path = some data ↔
      ∃ n file, fs.names path = some n ∧ fs.files n = some file ∧ file.data = data := by
  simp [contents, Option.bind_eq_some_iff]

/-! ## Operations -/

/-- Replace a file, or add one. -/
def setFile (fs : FileSystem ι Path) (n : ℕ) (file : File ι) : FileSystem ι Path where
  names := fs.names
  files := Function.update fs.files n (some file)
  named := by
    intro path m hm
    by_cases hmn : m = n
    · exact ⟨file, by simp [hmn]⟩
    · simpa [hmn] using fs.named path m hm

section

variable [DecidableEq Path]

/-- An empty new file under a name. -/
def create (fs : FileSystem ι Path) (i : ι) (path : Path) (n : ℕ) : FileSystem ι Path where
  names := Function.update fs.names path (some n)
  files := Function.update fs.files n (some ⟨some i, [], []⟩)
  named := by
    intro path' m hm
    by_cases hmn : m = n
    · exact ⟨⟨some i, [], []⟩, by simp [hmn]⟩
    · by_cases hpath : path' = path
      · subst hpath
        simp at hm
        exact absurd hm.symm hmn
      · simp only [ne_eq, hpath, not_false_eq_true, Function.update_of_ne] at hm
        simpa [hmn] using fs.named path' m hm

/-- Another name for what a name refers to. -/
def link (fs : FileSystem ι Path) (original path : Path) : FileSystem ι Path where
  names := Function.update fs.names path (fs.names original)
  files := fs.files
  named := by
    intro path' m hm
    by_cases hpath : path' = path
    · subst hpath
      simp only [Function.update_self] at hm
      exact fs.named original m hm
    · simp only [ne_eq, hpath, not_false_eq_true, Function.update_of_ne] at hm
      exact fs.named path' m hm

def unlink (fs : FileSystem ι Path) (path : Path) : FileSystem ι Path where
  names := Function.update fs.names path none
  files := fs.files
  named := by
    intro path' m hm
    by_cases hpath : path' = path
    · subst hpath
      simp at hm
    · simp only [ne_eq, hpath, not_false_eq_true, Function.update_of_ne] at hm
      exact fs.named path' m hm

/-- The effect of an operation of `i` that succeeds. -/
def Succeeds (i : ι) (fs fs' : FileSystem ι Path) : (op : FileOp Path) → op.Result → Prop
  | .read path, data => fs.contents path = some data ∧ fs' = fs
  | .createDirAll _, _ => fs' = fs
  | .createNew path, n =>
      fs.names path = none ∧ fs.files n = none ∧ fs' = fs.create i path n
  | .write n chunk, k =>
      ∃ file, fs.files n = some file ∧ k ≤ chunk.length ∧
        fs' = fs.setFile n { file with pending := file.pending ++ chunk.take k }
  | .syncAll n, _ =>
      ∃ file, fs.files n = some file ∧
        fs' = fs.setFile n { file with data := file.accepted, pending := [] }
  | .hardLink original path, _ =>
      (∃ n, fs.names original = some n) ∧ fs.names path = none ∧ fs' = fs.link original path
  | .removeFile path, _ => (∃ n, fs.names path = some n) ∧ fs' = fs.unlink path

/-- The effect of an operation of `i`. -/
def Effect (i : ι) (op : FileOp Path) (fs : FileSystem ι Path)
    (reply : Except ErrorKind op.Result) (fs' : FileSystem ι Path) : Prop :=
  match reply with
  | .error _ => fs' = fs
  | .ok result => Succeeds i fs fs' op result

end

/-- Some accepted bytes reach their file. -/
def Flush (fs fs' : FileSystem ι Path) : Prop :=
  ∃ n file k, fs.files n = some file ∧
    fs' = fs.setFile n ⟨file.creator, file.data ++ file.pending.take k, file.pending.drop k⟩

/-! ## What the others leave alone -/

/-- Nothing happened to the files that `i` created but that accepted bytes reached them,
and their names are the same ones. -/
structure LeavesFilesOf (i : ι) (fs fs' : FileSystem ι Path) : Prop where
  files : ∀ ⦃n file⦄, fs.files n = some file → file.creator = some i →
    ∃ file', fs'.files n = some file' ∧ file.Flushed file'
  names : ∀ ⦃n file⦄, fs.files n = some file → file.creator = some i →
    ∀ path, fs'.names path = some n ↔ fs.names path = some n

/-- What the name refers to is still there under it, as it was. -/
def KeepsName (path : Path) (fs fs' : FileSystem ι Path) : Prop :=
  ∀ ⦃n⦄, fs.names path = some n → fs'.names path = some n ∧ fs'.files n = fs.files n

section Leaves

variable {fs fs' fs'' : FileSystem ι Path} {i j : ι} {path path' : Path} {n : ℕ} {file : File ι}

theorem LeavesFilesOf.refl (i : ι) (fs : FileSystem ι Path) : LeavesFilesOf i fs fs :=
  ⟨fun _ file h _ => ⟨file, h, .refl file⟩, fun _ _ _ _ _ => Iff.rfl⟩

theorem LeavesFilesOf.trans (h : LeavesFilesOf i fs fs') (h' : LeavesFilesOf i fs' fs'') :
    LeavesFilesOf i fs fs'' := by
  constructor
  · intro n file hfile hcreator
    obtain ⟨file', hfile', hflush⟩ := h.files hfile hcreator
    obtain ⟨file'', hfile'', hflush'⟩ := h'.files hfile' (hflush.creator.trans hcreator)
    exact ⟨file'', hfile'', hflush.trans hflush'⟩
  · intro n file hfile hcreator path
    obtain ⟨file', hfile', hflush⟩ := h.files hfile hcreator
    rw [h'.names hfile' (hflush.creator.trans hcreator), h.names hfile hcreator]

theorem KeepsName.refl (path : Path) (fs : FileSystem ι Path) : KeepsName path fs fs :=
  fun _ hname => ⟨hname, rfl⟩

theorem KeepsName.trans (h : KeepsName path fs fs') (h' : KeepsName path fs' fs'') :
    KeepsName path fs fs'' := by
  intro n hname
  obtain ⟨hname', hfile'⟩ := h hname
  obtain ⟨hname'', hfile''⟩ := h' hname'
  exact ⟨hname'', hfile''.trans hfile'⟩

theorem KeepsName.contents {data : List UInt8} (h : KeepsName path fs fs')
    (hdata : fs.contents path = some data) : fs'.contents path = some data := by
  obtain ⟨n, file, hname, hfile, rfl⟩ := contents_eq_some_iff.1 hdata
  obtain ⟨hname', hfile'⟩ := h hname
  exact contents_eq_some hname' (hfile'.trans hfile)

/-- Writing to a file leaves the files of others alone. -/
theorem leavesFilesOf_setFile {file' : File ι} (hfile : fs.files n = some file)
    (hcreator : file.creator ≠ some i) : LeavesFilesOf i fs (fs.setFile n file') := by
  constructor
  · intro m other hother hi
    have hmn : m ≠ n := by
      rintro rfl
      rw [hfile, Option.some.injEq] at hother
      exact hcreator (hother ▸ hi)
    exact ⟨other, by simpa [setFile, hmn] using hother, .refl other⟩
  · intro m other _ _ path
    exact Iff.rfl

theorem keepsName_setFile {file' : File ι} (hname : fs.names path ≠ some n) :
    KeepsName path fs (fs.setFile n file') := by
  intro m hm
  have hmn : m ≠ n := by
    rintro rfl
    exact hname hm
  exact ⟨hm, by simp [setFile, hmn]⟩

theorem Flush.leavesFilesOf (i : ι) (h : Flush fs fs') : LeavesFilesOf i fs fs' := by
  obtain ⟨n, file, k, hfile, rfl⟩ := h
  constructor
  · intro m other hother _
    by_cases hmn : m = n
    · subst hmn
      rw [hfile, Option.some.injEq] at hother
      subst hother
      refine ⟨_, Function.update_self _ _ _, rfl, ?_, ?_⟩
      · simp [File.accepted]
      · exact List.prefix_append _ _
    · exact ⟨other, by simpa [setFile, hmn] using hother, .refl other⟩
  · intro m other _ _ path
    exact Iff.rfl

/-- A name whose file all accepted bytes have reached keeps it when others are written. -/
theorem Flush.keepsName (h : Flush fs fs')
    (hpending : ∀ n file, fs.names path = some n → fs.files n = some file → file.pending = []) :
    KeepsName path fs fs' := by
  obtain ⟨n, file, k, hfile, rfl⟩ := h
  intro m hm
  by_cases hmn : m = n
  · subst hmn
    have := hpending m file hm hfile
    obtain ⟨creator, data, pending⟩ := file
    simp only at this
    subst this
    exact ⟨hm, by simp [setFile, hfile]⟩
  · exact ⟨hm, by simp [setFile, hmn]⟩

variable [DecidableEq Path]

theorem leavesFilesOf_create (hname : fs.names path = none) (hfresh : fs.files n = none) :
    LeavesFilesOf i fs (fs.create j path n) := by
  have hne : ∀ ⦃m file⦄, fs.files m = some file → m ≠ n := by
    rintro m file hfile rfl
    simp [hfresh] at hfile
  constructor
  · intro m file hfile _
    exact ⟨file, by simpa [create, hne hfile] using hfile, .refl file⟩
  · intro m file hfile _ path'
    by_cases hpath : path' = path
    · subst hpath
      simp [create, hname, (hne hfile).symm]
    · simp [create, hpath]

theorem keepsName_create (hname : fs.names path' = none) (hfresh : fs.files n = none) :
    KeepsName path fs (fs.create i path' n) := by
  intro m hm
  obtain ⟨file, hfile⟩ := fs.named path m hm
  have hpath : path ≠ path' := by
    rintro rfl
    simp [hname] at hm
  have hmn : m ≠ n := by
    rintro rfl
    simp [hfresh] at hfile
  exact ⟨by simpa [create, hpath] using hm, by simp [create, hmn]⟩

/-- A new name of a file that someone else created. -/
theorem leavesFilesOf_link (hname : fs.names path = some n) (hfile : fs.files n = some file)
    (hcreator : file.creator ≠ some i) (habsent : fs.names path' = none) :
    LeavesFilesOf i fs (fs.link path path') := by
  constructor
  · intro m other hother _
    exact ⟨other, hother, .refl other⟩
  · intro m other hother hi path''
    by_cases hpath : path'' = path'
    · subst hpath
      have hmn : n ≠ m := by
        rintro rfl
        rw [hfile, Option.some.injEq] at hother
        exact hcreator (hother ▸ hi)
      simp [link, hname, habsent, hmn]
    · simp [link, hpath]

theorem keepsName_link (habsent : fs.names path' = none) (original : Path) :
    KeepsName path fs (fs.link original path') := by
  intro m hm
  have hpath : path ≠ path' := by
    rintro rfl
    simp [habsent] at hm
  exact ⟨by simpa [link, hpath] using hm, rfl⟩

/-- The removal of a name of a file that someone else created. -/
theorem leavesFilesOf_unlink (hname : fs.names path = some n) (hfile : fs.files n = some file)
    (hcreator : file.creator ≠ some i) : LeavesFilesOf i fs (fs.unlink path) := by
  constructor
  · intro m other hother _
    exact ⟨other, hother, .refl other⟩
  · intro m other hother hi path'
    by_cases hpath : path' = path
    · subst hpath
      have hmn : n ≠ m := by
        rintro rfl
        rw [hfile, Option.some.injEq] at hother
        exact hcreator (hother ▸ hi)
      simp [unlink, hname, hmn]
    · simp [unlink, hpath]

theorem keepsName_unlink (hpath : path ≠ path') : KeepsName path fs (fs.unlink path') := by
  intro m hm
  exact ⟨by simpa [unlink, hpath] using hm, rfl⟩

end Leaves

end FileSystem

end Foundation
