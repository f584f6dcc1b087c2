import Ncro.Foundation.FileSystem
import Ncro.Foundation.RelyGuarantee
import Ncro.Mesh.Announce

/-!
# The identity of a node

A node keeps the seed of its key pair in a file, and makes one when there is none. Several
processes may start on the same absent file at once, any of their operations may fail, and
any of them may crash. The seed is written to a file under a name of its own, which
is linked to the key path once it is complete: `identity_file_atomic`. What carries this is the
contract of `Node.new`. A process only touches files that it has created itself, and
the key path only where it is absent. That the file is complete when it is linked rests on
the documented `sync_all`: when it succeeds, everything written has reached the file.

A history records which process performed which operation. It is read by the statements
and by nothing else.
-/

namespace Ncro

open Foundation Foundation.Process

/-- `Seed`, and what `random_key_bytes` returns. -/
abbrev Seed := {bytes : Octets // bytes.length = 32}

/-- `Seed::from_slice`. -/
def seedFromSlice (bytes : Octets) : Option Seed :=
  if h : bytes.length = 32 then some ⟨bytes, h⟩ else none

/-- A key pair: what a node makes of it, and the seed of its secret key. -/
structure KeyPair where
  node : Node
  seed : Seed

/-- The routine `KeyPair::try_from_seed`. A secret key remembers the seed it was made from. -/
structure KeyDerivation where
  tryFromSeed : Seed → Option KeyPair
  seed_of_tryFromSeed : ∀ ⦃seed keyPair⦄, tryFromSeed seed = some keyPair → keyPair.seed = seed

/-- The variants of `MeshError` that are about a key and its file. -/
inductive IdentityError
  | readKey (path : Str) (source : ErrorKind)
  | writeKey (path : Str) (source : ErrorKind)
  | invalidKeyFileSize (path : Str) (got : ℕ)
  | invalidKeySeed (path : Str)
  | derive
  | entropy
  deriving DecidableEq, Repr

/-! ## Operations -/

/-- What a starting node asks of its environment. -/
inductive IdentityOp
  | file (op : FileOp Str)
  | randomKeyBytes

abbrev IdentityOp.Reply : IdentityOp → Type
  | .file op => Except ErrorKind op.Result
  | .randomKeyBytes => Option Seed

abbrev IdentityM (α : Type) := Process IdentityOp IdentityOp.Reply α

abbrev IdentityEvent := Process.Event IdentityOp IdentityOp.Reply

abbrev randomKeyBytes : IdentityM (Option Seed) := call IdentityOp.randomKeyBytes

abbrev onFile (op : FileOp Str) : IdentityM (Except ErrorKind op.Result) := call (IdentityOp.file op)

/-- `write_all`: write what is left until nothing is. -/
def writeAll (file : ℕ) : Octets → IdentityM (Except ErrorKind Unit)
  | [] => return .ok ()
  | byte :: bytes => do
      match ← onFile (.write file (byte :: bytes)) with
      | .error source => return .error source
      | .ok 0 => return .error .writeZero
      | .ok (k + 1) => writeAll file (bytes.drop k)
  termination_by bytes => bytes.length
  decreasing_by
    simp only [List.length_drop, List.length_cons]
    omega

def temporaryKeyPath (keyPath : Str) : IdentityM (Except IdentityError Str) := do
  match ← randomKeyBytes with
  | none => return .error .entropy
  | some bytes => return .ok (keyPath ++ ".".toList ++ hexLower bytes.val ++ ".tmp".toList)

/-- The part of `write_new_key` that fills the temporary file and links it. -/
def publishKey (file : ℕ) (tempPath keyPath : Str) (keyBytes : Seed) :
    IdentityM (Except ErrorKind Unit) := do
  match ← writeAll file keyBytes.val with
  | .error source => return .error source
  | .ok () =>
    match ← onFile (.syncAll file) with
    | .error source => return .error source
    | .ok () => onFile (.hardLink tempPath keyPath)

section

variable (keys : KeyDerivation) (parent : Str → Option Str)

/-- The part of `write_new_key` that makes the directory of the file. -/
def createParent (keyPath : Str) : IdentityM (Except ErrorKind Unit) :=
  match parent keyPath with
  | some (c :: cs) => onFile (.createDirAll (c :: cs))
  | _ => return .ok ()

/-- The part of `write_new_key` after the temporary file has been created: whatever comes
of it, the temporary name is removed. -/
def publishAndCleanUp (file : ℕ) (tempPath keyPath : Str) (keyBytes : Seed) :
    IdentityM (Except IdentityError Unit) := do
  let writeResult ← publishKey file tempPath keyPath keyBytes
  let cleanupResult ← onFile (.removeFile tempPath)
  match writeResult, cleanupResult with
  | .error source, _ => return .error (.writeKey keyPath source)
  | .ok (), .error source => return .error (.writeKey keyPath source)
  | .ok (), .ok () => return .ok ()

def writeNewKey (keyPath : Str) (keyBytes : Seed) : IdentityM (Except IdentityError Unit) := do
  match ← createParent parent keyPath with
  | .error source => return .error (.writeKey keyPath source)
  | .ok () =>
    match ← temporaryKeyPath keyPath with
    | .error error => return .error error
    | .ok tempPath =>
      match ← onFile (.createNew tempPath) with
      | .error source => return .error (.writeKey keyPath source)
      | .ok file => publishAndCleanUp file tempPath keyPath keyBytes

/-- What a key file says. The first half of a long one is the seed. -/
def nodeOfKeyFile (path : Str) (data : Octets) : Except IdentityError Node :=
  if data.length ≠ 32 ∧ data.length ≠ 64 then
    .error (.invalidKeyFileSize path data.length)
  else
    match (seedFromSlice (data.take 32)).bind keys.tryFromSeed with
    | none => .error (.invalidKeySeed path)
    | some keyPair => .ok keyPair.node

/-- A key pair that is kept nowhere. -/
def ephemeralNode : IdentityM (Except IdentityError Node) := do
  match ← randomKeyBytes with
  | none => return .error .entropy
  | some seed =>
    match keys.tryFromSeed seed with
    | none => return .error .derive
    | some keyPair => return .ok keyPair.node

/-- A new key pair, whose seed is kept under the path. -/
def generateNode (path : Str) : IdentityM (Except IdentityError Node) := do
  match ← randomKeyBytes with
  | none => return .error .entropy
  | some seed =>
    match keys.tryFromSeed seed with
    | none => return .error .derive
    | some keyPair =>
      match ← writeNewKey parent path keyPair.seed with
      | .error error => return .error error
      | .ok () => return .ok keyPair.node

/-- `Node::new`. -/
def Node.new (path : Str) : IdentityM (Except IdentityError Node) :=
  if path = [] then ephemeralNode keys
  else do
    match ← onFile (.read path) with
    | .ok data => return nodeOfKeyFile keys path data
    | .error .notFound => generateNode keys parent path
    | .error source => return .error (.readKey path source)

end

/-! ## Processes on one host -/

/-- The file system of a host, and what its processes have done. -/
structure Host (ι : Type) where
  fs : FileSystem ι Str
  history : List (ι × IdentityEvent)

namespace Host

variable {ι : Type}

/-- The effect of an operation of process `i`. -/
def semantics (i : ι) : Semantics IdentityOp IdentityOp.Reply (Host ι) :=
  fun op host reply host' =>
    host'.history = host.history ++ [(i, ⟨op, reply⟩)] ∧
      match op, reply with
      | .file op, reply => FileSystem.Effect i op host.fs reply host'.fs
      | .randomKeyBytes, _ => host'.fs = host.fs

/-- What happens on a host by itself: accepted bytes reach their files. -/
def Flush (host host' : Host ι) : Prop :=
  host.fs.Flush host'.fs ∧ host'.history = host.history

/-- Process `i` has linked its temporary file to the key path. -/
def Linked (host : Host ι) (keyPath : Str) (i : ι) : Prop :=
  ∃ tempPath, (i, ⟨.file (.hardLink tempPath keyPath), .ok ()⟩) ∈ host.history

/-- The random bytes that an event brings. -/
def drawnBytes : IdentityEvent → Option Seed
  | ⟨.file _, _⟩ => none
  | ⟨.randomKeyBytes, reply⟩ => reply

variable [DecidableEq ι]

/-- The seed of process `i`: the first bytes that it has drawn. -/
def seedOf (host : Host ι) (i : ι) : Option Seed :=
  host.history.findSome? fun entry => if entry.1 = i then drawnBytes entry.2 else none

/-! ## Histories -/

section

variable {host host' : Host ι} {entries : List (ι × IdentityEvent)} {event : IdentityEvent}
  {i j : ι} {seed : Seed} {keyPath : Str}

/-- A seed that has been drawn stays the seed of its process. -/
theorem seedOf_append (hhistory : host'.history = host.history ++ entries)
    (h : host.seedOf i = some seed) : host'.seedOf i = some seed := by
  unfold seedOf at h ⊢
  rw [hhistory, List.findSome?_append, h]
  rfl

theorem seedOf_append_others (hhistory : host'.history = host.history ++ entries)
    (hothers : ∀ entry ∈ entries, entry.1 ≠ i) : host'.seedOf i = host.seedOf i := by
  have hnone : (entries.findSome? fun entry =>
      if entry.1 = i then drawnBytes entry.2 else none) = none := by
    apply List.findSome?_eq_none_iff.2
    intro entry hentry
    simp [hothers entry hentry]
  unfold seedOf
  rw [hhistory, List.findSome?_append, hnone, Option.or_none]

/-- The first bytes that a process draws are its seed. -/
theorem seedOf_first (hhistory : host'.history = host.history ++ [(i, event)])
    (h : host.seedOf i = none) : host'.seedOf i = drawnBytes event := by
  unfold seedOf at h ⊢
  rw [hhistory, List.findSome?_append, h]
  simp

omit [DecidableEq ι] in
theorem linked_append_iff (hhistory : host'.history = host.history ++ [(i, event)]) :
    host'.Linked keyPath j ↔ host.Linked keyPath j ∨
      j = i ∧ ∃ tempPath, event = ⟨.file (.hardLink tempPath keyPath), .ok ()⟩ := by
  unfold Linked
  rw [hhistory]
  simp only [List.mem_append, List.mem_singleton, Prod.mk.injEq]
  constructor
  · rintro ⟨tempPath, h | ⟨hj, h⟩⟩
    · exact .inl ⟨tempPath, h⟩
    · exact .inr ⟨hj, tempPath, h.symm⟩
  · rintro (⟨tempPath, h⟩ | ⟨hj, tempPath, h⟩)
    · exact ⟨tempPath, .inl h⟩
    · exact ⟨tempPath, .inr ⟨hj, h.symm⟩⟩

end

/-! ## The contract of a process -/

/-- Either the key path is absent and no process has linked a file to it, or it holds the
complete seed of the one process that has. -/
structure KeyInvariant (keyPath : Str) (host : Host ι) : Prop where
  absent : host.fs.names keyPath = none → ∀ i, ¬host.Linked keyPath i
  present : ∀ ⦃n⦄, host.fs.names keyPath = some n → ∃ i seed,
    host.fs.files n = some ⟨some i, seed.val, []⟩ ∧ host.seedOf i = some seed ∧
      ∀ j, host.Linked keyPath j ↔ j = i

/-- What process `i` assumes of the others: its files and their names are left alone, and so
is the key file once it is there. -/
structure Rely (keyPath : Str) (i : ι) (host host' : Host ι) : Prop where
  files : FileSystem.LeavesFilesOf i host.fs host'.fs
  key : FileSystem.KeepsName keyPath host.fs host'.fs
  history : ∃ entries, host'.history = host.history ++ entries ∧ ∀ entry ∈ entries, entry.1 ≠ i

/-- What process `i` promises of one of its operations. -/
structure Guar (keyPath : Str) (i : ι) (host host' : Host ι) : Prop where
  files : ∀ j, j ≠ i → FileSystem.LeavesFilesOf j host.fs host'.fs
  key : FileSystem.KeepsName keyPath host.fs host'.fs
  history : ∃ event, host'.history = host.history ++ [(i, event)]

section

variable {host host' : Host ι} {i : ι} {seed : Seed} {keyPath : Str} {event : IdentityEvent}

omit [DecidableEq ι] in
theorem Rely.refl (keyPath : Str) (i : ι) (host : Host ι) : Rely keyPath i host host where
  files := .refl i host.fs
  key := .refl keyPath host.fs
  history := ⟨[], by simp, by simp⟩

omit [DecidableEq ι] in
theorem Rely.trans {host'' : Host ι} (h : Rely keyPath i host host')
    (h' : Rely keyPath i host' host'') : Rely keyPath i host host'' := by
  obtain ⟨entries, hhistory, hothers⟩ := h.history
  obtain ⟨entries', hhistory', hothers'⟩ := h'.history
  constructor
  · exact h.files.trans h'.files
  · exact h.key.trans h'.key
  · refine ⟨entries ++ entries', by rw [hhistory', hhistory, List.append_assoc], ?_⟩
    intro entry hentry
    rcases List.mem_append.1 hentry with hentry | hentry
    · exact hothers entry hentry
    · exact hothers' entry hentry

theorem Rely.seedOf (h : Rely keyPath i host host') : host'.seedOf i = host.seedOf i := by
  obtain ⟨entries, hhistory, hothers⟩ := h.history
  exact seedOf_append_others hhistory hothers

def contract (keyPath : Str) (i : ι) : Contract (Host ι) where
  rely := Rely keyPath i
  guar := Guar keyPath i
  rely_refl := Rely.refl keyPath i
  rely_trans := Rely.trans

/-- The invariant says nothing about what is not under the key path. -/
theorem KeyInvariant.of_keeps (hinv : KeyInvariant keyPath host)
    (hkey : FileSystem.KeepsName keyPath host.fs host'.fs)
    (habsent : host.fs.names keyPath = none → host'.fs.names keyPath = none)
    (hseed : ∀ j seed, host.seedOf j = some seed → host'.seedOf j = some seed)
    (hlinked : ∀ j, host'.Linked keyPath j ↔ host.Linked keyPath j) :
    KeyInvariant keyPath host' := by
  constructor
  · intro hnone i hi
    cases hname : host.fs.names keyPath with
    | none => exact hinv.absent hname i ((hlinked i).1 hi)
    | some n => simp [(hkey hname).1] at hnone
  · intro n hn
    cases hname : host.fs.names keyPath with
    | none => simp [habsent hname] at hn
    | some m =>
        obtain ⟨hname', hfile'⟩ := hkey hname
        rw [hname', Option.some.injEq] at hn
        subst hn
        obtain ⟨i, seed, hfile, hdrawn, honly⟩ := hinv.present hname
        exact ⟨i, seed, hfile'.trans hfile, hseed i seed hdrawn,
          fun j => (hlinked j).trans (honly j)⟩

/-- The file under the key path is complete. -/
theorem KeyInvariant.pending (hinv : KeyInvariant keyPath host) {n : ℕ} {file : File ι}
    (hname : host.fs.names keyPath = some n) (hfile : host.fs.files n = some file) :
    file.pending = [] := by
  obtain ⟨i, seed, hseed, -, -⟩ := hinv.present hname
  rw [hfile, Option.some.injEq] at hseed
  rw [hseed]

theorem Flush.keepsName (h : Flush host host') (hinv : KeyInvariant keyPath host) :
    FileSystem.KeepsName keyPath host.fs host'.fs :=
  FileSystem.Flush.keepsName h.1 fun _ _ hname hfile => hinv.pending hname hfile

/-- The contracts of the processes on a host fit together. -/
theorem compatible (keyPath : Str) :
    Threads.Compatible (KeyInvariant keyPath) (contract (ι := ι) keyPath) Flush where
  rely_of_guar := by
    intro i j hij host host' _ _ h
    obtain ⟨event, hhistory⟩ := h.history
    exact ⟨h.files i hij, h.key, [(j, event)], hhistory, by simpa using hij.symm⟩
  inv_of_env := by
    intro host host' hinv h
    obtain ⟨n, file, k, hfile, hfs⟩ := h.1
    have hnames : host'.fs.names = host.fs.names := by rw [hfs]; rfl
    apply hinv.of_keeps (h.keepsName hinv)
    · rw [hnames]
      exact id
    · intro j seed hseed
      simpa [seedOf, h.2] using hseed
    · intro j
      simp [Linked, h.2]
  rely_of_env := by
    intro i host host' hinv h
    exact ⟨h.1.leavesFilesOf i, h.keepsName hinv, [], by simp [h.2], by simp⟩

end

/-! ## Rules -/

/-- A process of the host that keeps its contract. -/
abbrev Keeps {α : Type} (keyPath : Str) (i : ι) (P : Host ι → Prop) (p : IdentityM α)
    (Q : α → Host ι → Prop) : Prop :=
  Triple (semantics i) (KeyInvariant keyPath) (contract keyPath i) P p Q

abbrev Stable (keyPath : Str) (i : ι) (P : Host ι → Prop) : Prop :=
  (contract keyPath i).Stable (KeyInvariant keyPath) P

/-- An assertion that an operation of `i` without effect on the file system keeps. -/
def Steady (i : ι) (P : Host ι → Prop) : Prop :=
  ∀ ⦃host host' : Host ι⦄ (op : FileOp Str) (reply : IdentityOp.Reply (.file op)), P host →
    host'.fs = host.fs → host'.history = host.history ++ [(i, ⟨.file op, reply⟩)] → P host'

section

variable {host host' : Host ι} {i : ι} {seed : Seed} {keyPath : Str} {event : IdentityEvent}

/-- An operation that does not link a file to the key path. -/
theorem step_of_keeps (hinv : KeyInvariant keyPath host)
    (hhistory : host'.history = host.history ++ [(i, event)])
    (hevent : ∀ tempPath, event ≠ ⟨.file (.hardLink tempPath keyPath), .ok ()⟩)
    (hfiles : ∀ j, j ≠ i → FileSystem.LeavesFilesOf j host.fs host'.fs)
    (hkey : FileSystem.KeepsName keyPath host.fs host'.fs)
    (habsent : host.fs.names keyPath = none → host'.fs.names keyPath = none) :
    KeyInvariant keyPath host' ∧ Guar keyPath i host host' := by
  constructor
  · apply hinv.of_keeps hkey habsent
    · intro j seed
      exact seedOf_append hhistory
    · intro j
      rw [linked_append_iff hhistory]
      simp [hevent]
  · exact ⟨hfiles, hkey, event, hhistory⟩

theorem step_of_fs_eq (hinv : KeyInvariant keyPath host)
    (hhistory : host'.history = host.history ++ [(i, event)])
    (hevent : ∀ tempPath, event ≠ ⟨.file (.hardLink tempPath keyPath), .ok ()⟩)
    (hfs : host'.fs = host.fs) : KeyInvariant keyPath host' ∧ Guar keyPath i host host' := by
  apply step_of_keeps hinv hhistory hevent
  · intro j _
    rw [hfs]
    exact .refl j host.fs
  · rw [hfs]
    exact .refl keyPath host.fs
  · rw [hfs]
    exact id

variable {α : Type} {P : Host ι → Prop} {Q : α → Host ι → Prop}

/-- The rule for an operation on files: when it fails, nothing has happened. -/
theorem keeps_onFile {op : FileOp Str} {f : IdentityOp.Reply (.file op) → IdentityM α}
    {M : op.Result → Host ι → Prop} (hstable : Stable keyPath i P) (hsteady : Steady i P)
    (hop : ∀ host host' result, KeyInvariant keyPath host → P host →
      FileSystem.Succeeds i host.fs host'.fs op result →
      host'.history = host.history ++ [(i, ⟨.file op, .ok result⟩)] →
      (KeyInvariant keyPath host' ∧ Guar keyPath i host host') ∧ M result host')
    (hok : ∀ result, Keeps keyPath i (M result) (f (.ok result)) Q)
    (herror : ∀ kind, Keeps keyPath i P (f (.error kind)) Q) :
    Keeps keyPath i P (onFile op >>= f) Q := by
  let M' : IdentityOp.Reply (.file op) → Host ι → Prop
    | .ok result => M result
    | .error _ => P
  apply triple_call_bind (M := M') hstable
  · intro host reply host' hinv hP hsem
    obtain ⟨hhistory, heffect⟩ := hsem
    cases reply with
    | ok result =>
        obtain ⟨⟨hinv', hguar⟩, hM⟩ := hop host host' result hinv hP heffect hhistory
        exact ⟨hinv', hguar, hM⟩
    | error kind =>
        obtain ⟨hinv', hguar⟩ := step_of_fs_eq hinv hhistory (by intro _ h; cases h) heffect
        exact ⟨hinv', hguar, hsteady op _ hP heffect hhistory⟩
  · intro reply
    cases reply with
    | ok result => exact hok result
    | error kind => exact herror kind

/-- The rule for random bytes. -/
theorem keeps_randomKeyBytes {f : Option Seed → IdentityM α} {M : Option Seed → Host ι → Prop}
    (hstable : Stable keyPath i P)
    (hop : ∀ host host' reply, P host → host'.fs = host.fs →
      host'.history = host.history ++ [(i, ⟨.randomKeyBytes, reply⟩)] → M reply host')
    (hf : ∀ reply, Keeps keyPath i (M reply) (f reply) Q) :
    Keeps keyPath i P (randomKeyBytes >>= f) Q := by
  apply triple_call_bind hstable _ hf
  intro host reply host' hinv hP hsem
  obtain ⟨hhistory, hfs⟩ := hsem
  obtain ⟨hinv', hguar⟩ := step_of_fs_eq hinv hhistory (by intro _ h; cases h) hfs
  exact ⟨hinv', hguar, hop host host' reply hP hfs hhistory⟩

end

/-! ## Assertions -/

/-- Process `i` has drawn its seed, and has created a file with contents `P` and names `N`. -/
structure OwnsFile (i : ι) (seed : Seed) (n : ℕ) (P : File ι → Prop) (N : Str → Prop)
    (host : Host ι) : Prop where
  drawn : host.seedOf i = some seed
  file : ∃ file, host.fs.files n = some file ∧ file.creator = some i ∧ P file
  names : ∀ path, host.fs.names path = some n ↔ N path

section

variable {host host' : Host ι} {i : ι} {seed : Seed} {keyPath tempPath : Str} {n : ℕ}
  {P P' : File ι → Prop} {N : Str → Prop}

theorem stable_seedOf (reply : Option Seed) :
    Stable keyPath i fun host => host.seedOf i = reply :=
  fun _ _ _ _ hrely h => (Rely.seedOf hrely).trans h

theorem steady_seedOf (reply : Option Seed) :
    Steady i fun host => host.seedOf i = reply := by
  intro host host' op r h _ hhistory
  cases hreply : reply with
  | none => rw [seedOf_first hhistory (h.trans hreply), drawnBytes]
  | some seed => exact seedOf_append hhistory (h.trans hreply)

theorem stable_ownsFile (hP : ∀ file file', P file → file.Flushed file' → P file') :
    Stable keyPath i (OwnsFile i seed n P N) := by
  intro host host' _ _ hrely h
  obtain ⟨file, hfile, hcreator, hPfile⟩ := h.file
  obtain ⟨file', hfile', hflushed⟩ := hrely.files.files hfile hcreator
  constructor
  · exact hrely.seedOf.trans h.drawn
  · exact ⟨file', hfile', hflushed.creator.trans hcreator, hP file file' hPfile hflushed⟩
  · intro path
    rw [hrely.files.names hfile hcreator, h.names]

theorem steady_ownsFile : Steady i (OwnsFile i seed n P N) := by
  intro host host' op r h hfs hhistory
  constructor
  · exact seedOf_append hhistory h.drawn
  · rw [hfs]
    exact h.file
  · rw [hfs]
    exact h.names

theorem OwnsFile.weaken (h : OwnsFile i seed n P N host) (hP : ∀ file, P file → P' file) :
    OwnsFile i seed n P' N host := by
  obtain ⟨file, hfile, hcreator, hPfile⟩ := h.file
  exact ⟨h.drawn, ⟨file, hfile, hcreator, hP file hPfile⟩, h.names⟩

theorem not_link {op : FileOp Str} {result : op.Result}
    (hop : ∀ tempPath, op ≠ .hardLink tempPath keyPath) (tempPath : Str) :
    (⟨.file op, .ok result⟩ : IdentityEvent) ≠ ⟨.file (.hardLink tempPath keyPath), .ok ()⟩ := by
  intro h
  have hop' : IdentityOp.file op = .file (.hardLink tempPath keyPath) := congrArg Sigma.fst h
  exact hop tempPath (IdentityOp.file.inj hop')

/-! ## Operations on the temporary file -/

theorem ownsFile_of_createNew (htemp : tempPath ≠ keyPath) (hinv : KeyInvariant keyPath host)
    (hdrawn : host.seedOf i = some seed)
    (h : FileSystem.Succeeds i host.fs host'.fs (.createNew tempPath) n)
    (hhistory : host'.history = host.history ++ [(i, ⟨.file (.createNew tempPath), .ok n⟩)]) :
    (KeyInvariant keyPath host' ∧ Guar keyPath i host host') ∧
      OwnsFile i seed n (fun file => file.accepted = []) (· = tempPath) host' := by
  obtain ⟨hname, hfresh, hfs⟩ := h
  constructor
  · apply step_of_keeps hinv hhistory (not_link (by simp))
    · intro j _
      rw [hfs]
      exact FileSystem.leavesFilesOf_create hname hfresh
    · rw [hfs]
      exact FileSystem.keepsName_create hname hfresh
    · intro habsent
      simpa [hfs, FileSystem.create, htemp.symm] using habsent
  · constructor
    · exact seedOf_append hhistory hdrawn
    · exact ⟨⟨some i, [], []⟩, by simp [hfs, FileSystem.create], rfl, rfl⟩
    · intro path
      by_cases hpath : path = tempPath
      · simp [hfs, FileSystem.create, hpath]
      · have hother : host.fs.names path ≠ some n := by
          intro hn
          obtain ⟨file, hfile⟩ := host.fs.named path n hn
          simp [hfresh] at hfile
        simp [hfs, FileSystem.create, hpath, hother]

/-- An operation that only changes the contents of a file under the temporary name. -/
theorem ownsFile_of_setFile {op : FileOp Str} {result : op.Result} {file file' : File ι}
    (hop : ∀ tempPath, op ≠ .hardLink tempPath keyPath) (htemp : tempPath ≠ keyPath)
    (hinv : KeyInvariant keyPath host) (h : OwnsFile i seed n P (· = tempPath) host)
    (hfile : host.fs.files n = some file) (hfs : host'.fs = host.fs.setFile n file')
    (hcreator : file'.creator = file.creator) (hP : P file → P' file')
    (hhistory : host'.history = host.history ++ [(i, ⟨.file op, .ok result⟩)]) :
    (KeyInvariant keyPath host' ∧ Guar keyPath i host host') ∧
      OwnsFile i seed n P' (· = tempPath) host' := by
  obtain ⟨own, hown, hi, hPfile⟩ := h.file
  rw [hfile, Option.some.injEq] at hown
  subst hown
  constructor
  · apply step_of_keeps hinv hhistory (not_link hop)
    · intro j hj
      rw [hfs]
      apply FileSystem.leavesFilesOf_setFile hfile
      simpa [hi] using hj.symm
    · rw [hfs]
      apply FileSystem.keepsName_setFile
      rw [ne_eq, h.names]
      exact htemp.symm
    · intro habsent
      rw [hfs]
      exact habsent
  · constructor
    · exact seedOf_append hhistory h.drawn
    · exact ⟨file', by simp [hfs, FileSystem.setFile], hcreator.trans hi, hP hPfile⟩
    · intro path
      rw [hfs]
      exact h.names path

/-- The file is linked to the key path. Nobody has done so before. -/
theorem ownsFile_of_hardLink (hinv : KeyInvariant keyPath host)
    (h : OwnsFile i seed n (fun file => file.data = seed.val ∧ file.pending = []) (· = tempPath)
      host)
    (hlink : FileSystem.Succeeds i host.fs host'.fs (.hardLink tempPath keyPath) ())
    (hhistory : host'.history
      = host.history ++ [(i, ⟨.file (.hardLink tempPath keyPath), .ok ()⟩)]) :
    (KeyInvariant keyPath host' ∧ Guar keyPath i host host') ∧
      OwnsFile i seed n (fun file => file.data = seed.val ∧ file.pending = [])
        (fun path => path = tempPath ∨ path = keyPath) host' := by
  obtain ⟨-, habsent, hfs⟩ := hlink
  obtain ⟨file, hfile, hi, hdata, hpending⟩ := h.file
  have htemp : host.fs.names tempPath = some n := (h.names tempPath).2 rfl
  have hdrawn : host'.seedOf i = some seed := seedOf_append hhistory h.drawn
  have hfile' : host'.fs.files n = some ⟨some i, seed.val, []⟩ := by
    rw [hfs, ← hi, ← hdata, ← hpending]
    exact hfile
  have hname' : host'.fs.names keyPath = some n := by
    simp [hfs, FileSystem.link, htemp]
  refine ⟨⟨?_, ?_⟩, ?_⟩
  · constructor
    · intro hnone
      simp [hname'] at hnone
    · intro m hm
      rw [hname', Option.some.injEq] at hm
      subst hm
      refine ⟨i, seed, hfile', hdrawn, ?_⟩
      intro j
      rw [linked_append_iff hhistory]
      simp [hinv.absent habsent j]
  · constructor
    · intro j hj
      rw [hfs]
      apply FileSystem.leavesFilesOf_link htemp hfile _ habsent
      simpa [hi] using hj.symm
    · rw [hfs]
      exact FileSystem.keepsName_link habsent tempPath
    · exact ⟨_, hhistory⟩
  · constructor
    · exact hdrawn
    · exact ⟨_, hfile', rfl, rfl, rfl⟩
    · intro path
      by_cases hpath : path = keyPath
      · simp [hpath, hname']
      · have hother : host'.fs.names path = host.fs.names path := by
          simp [hfs, FileSystem.link, hpath]
        rw [hother, h.names]
        simp [hpath]

/-- The temporary name is removed. -/
theorem step_of_removeFile (htemp : tempPath ≠ keyPath) (hN : N tempPath)
    (hinv : KeyInvariant keyPath host) (h : OwnsFile i seed n P N host)
    (hremove : FileSystem.Succeeds i host.fs host'.fs (.removeFile tempPath) ())
    (hhistory : host'.history
      = host.history ++ [(i, ⟨.file (.removeFile tempPath), .ok ()⟩)]) :
    KeyInvariant keyPath host' ∧ Guar keyPath i host host' := by
  obtain ⟨-, hfs⟩ := hremove
  obtain ⟨file, hfile, hi, -⟩ := h.file
  apply step_of_keeps hinv hhistory (not_link (by simp))
  · intro j hj
    rw [hfs]
    apply FileSystem.leavesFilesOf_unlink ((h.names tempPath).2 hN) hfile
    simpa [hi] using hj.symm
  · rw [hfs]
    exact FileSystem.keepsName_unlink htemp.symm
  · intro habsent
    simpa [hfs, FileSystem.unlink, htemp.symm] using habsent

end

/-! ## The processes of `Node::new` -/

/-- What has been written to the temporary file, when its writing has returned. -/
def Wrote (i : ι) (seed : Seed) (n : ℕ) (tempPath : Str) (bytes : Octets) :
    Except ErrorKind Unit → Host ι → Prop
  | .ok _ => OwnsFile i seed n (fun file => file.accepted = bytes) (· = tempPath)
  | .error _ => OwnsFile i seed n (fun _ => True) (· = tempPath)

/-- Where the file of a process is, when its linking has returned. -/
def Published (i : ι) (seed : Seed) (n : ℕ) (tempPath keyPath : Str) :
    Except ErrorKind Unit → Host ι → Prop
  | .ok _ => OwnsFile i seed n (fun file => file.data = seed.val ∧ file.pending = [])
      fun path => path = tempPath ∨ path = keyPath
  | .error _ => OwnsFile i seed n (fun _ => True) (· = tempPath)

/-- The key path holds the seed, when a process returns without an error. -/
def HoldsSeed (seed : Seed) (keyPath : Str) : Except IdentityError Unit → Host ι → Prop
  | .ok _, host => host.fs.contents keyPath = some seed.val
  | .error _, _ => True

/-- The identity of a node is derived from the seed under the key path. -/
def HasIdentity (keys : KeyDerivation) (keyPath : Str) :
    Except IdentityError Node → Host ι → Prop
  | .ok node, host => ∃ seed keyPair, host.fs.contents keyPath = some seed.val ∧
      keys.tryFromSeed seed = some keyPair ∧ node = keyPair.node
  | .error _, _ => True

section

variable {i : ι} {seed : Seed} {keyPath tempPath : Str} {n : ℕ} {N : Str → Prop}

theorem stable_accepted (bytes : Octets) :
    Stable keyPath i (OwnsFile i seed n (fun file => file.accepted = bytes) N) :=
  stable_ownsFile fun _ _ h hflushed => hflushed.accepted.trans h

theorem stable_complete (bytes : Octets) : Stable keyPath i
    (OwnsFile i seed n (fun file => file.data = bytes ∧ file.pending = []) N) := by
  apply stable_ownsFile
  intro file file' h hflushed
  rw [hflushed.eq_of_pending h.2]
  exact h

theorem stable_wrote (bytes : Octets) (result : Except ErrorKind Unit) :
    Stable keyPath i (Wrote i seed n tempPath bytes result) := by
  cases result with
  | ok _ => exact stable_accepted bytes
  | error _ => exact stable_ownsFile fun _ _ _ _ => trivial

theorem stable_published (result : Except ErrorKind Unit) :
    Stable keyPath i (Published i seed n tempPath keyPath result) := by
  cases result with
  | ok _ => exact stable_complete seed.val
  | error _ => exact stable_ownsFile fun _ _ _ _ => trivial

theorem steady_published (result : Except ErrorKind Unit) :
    Steady i (Published i seed n tempPath keyPath result) := by
  cases result with
  | ok _ => exact steady_ownsFile
  | error _ => exact steady_ownsFile

theorem stable_holdsSeed (result : Except IdentityError Unit) :
    Stable keyPath i (HoldsSeed seed keyPath result) := by
  intro host host' _ _ hrely h
  cases result with
  | ok _ => exact hrely.key.contents h
  | error _ => trivial

/-- A process that returns an error promises nothing. -/
theorem keeps_ret_error {P : Host ι → Prop} (error : IdentityError) :
    Keeps keyPath i P (.ret (.error error)) (HoldsSeed seed keyPath) :=
  triple_ret (stable_holdsSeed (.error error)) fun _ _ _ => trivial

theorem stable_hasIdentity {keys : KeyDerivation} (result : Except IdentityError Node) :
    Stable keyPath i (HasIdentity keys keyPath result) := by
  intro host host' _ _ hrely h
  cases result with
  | ok node =>
      obtain ⟨seed, keyPair, hcontents, hkeys⟩ := h
      exact ⟨seed, keyPair, hrely.key.contents hcontents, hkeys⟩
  | error _ => trivial

theorem keeps_ret_identityError {keys : KeyDerivation} {P : Host ι → Prop}
    (error : IdentityError) :
    Keeps keyPath i P (.ret (.error error)) (HasIdentity keys keyPath) :=
  triple_ret (stable_hasIdentity (.error error)) fun _ _ _ => trivial

/-- However many bytes each write accepts, the file is handed over complete or the writing
has failed. -/
theorem keeps_writeAll (htemp : tempPath ≠ keyPath) (bytes written : Octets) :
    Keeps keyPath i (OwnsFile i seed n (fun file => file.accepted = written) (· = tempPath))
      (writeAll n bytes) (Wrote i seed n tempPath (written ++ bytes)) := by
  induction hlength : bytes.length using Nat.strong_induction_on generalizing bytes written with
  | _ length ih =>
    cases bytes with
    | nil =>
        rw [writeAll, List.append_nil]
        exact triple_ret (stable_wrote written (.ok ())) fun _ _ h => h
    | cons byte bytes =>
        rw [writeAll]
        apply keeps_onFile (M := fun k => OwnsFile i seed n
          (fun file => file.accepted = written ++ (byte :: bytes).take k) (· = tempPath))
          (stable_accepted written) steady_ownsFile
        · rintro host host' k hinv h ⟨file, hfile, -, hfs⟩ hhistory
          apply ownsFile_of_setFile (by simp) htemp hinv h hfile hfs rfl _ hhistory
          intro haccepted
          rw [← haccepted]
          exact (List.append_assoc _ _ _).symm
        · intro k
          cases k with
          | zero =>
              apply triple_ret (stable_wrote _ (.error .writeZero))
              exact fun _ _ h => h.weaken fun _ _ => trivial
          | succ k =>
              have hrest := ih (bytes.drop k).length
                (by rw [← hlength, List.length_drop, List.length_cons]; omega) (bytes.drop k)
                (written ++ byte :: bytes.take k) rfl
              rwa [List.append_assoc, List.cons_append, List.take_append_drop] at hrest
        · intro kind
          apply triple_ret (stable_wrote _ (.error kind))
          exact fun _ _ h => h.weaken fun _ _ => trivial

theorem keeps_publishKey (htemp : tempPath ≠ keyPath) :
    Keeps keyPath i (OwnsFile i seed n (fun file => file.accepted = []) (· = tempPath))
      (publishKey n tempPath keyPath seed) (Published i seed n tempPath keyPath) := by
  apply Triple.bind (keeps_writeAll htemp seed.val [])
  intro writeResult
  cases writeResult with
  | error kind => exact triple_ret (stable_published (.error kind)) fun _ _ h => h
  | ok _ =>
      apply keeps_onFile (M := fun _ => OwnsFile i seed n
        (fun file => file.data = seed.val ∧ file.pending = []) (· = tempPath))
        (stable_accepted seed.val) steady_ownsFile
      · rintro host host' ⟨⟩ hinv h ⟨file, hfile, hfs⟩ hhistory
        exact ownsFile_of_setFile (by simp) htemp hinv h hfile hfs rfl
          (fun haccepted => ⟨haccepted, rfl⟩) hhistory
      · intro _
        apply keeps_onFile (f := .ret) (M := fun _ => OwnsFile i seed n
          (fun file => file.data = seed.val ∧ file.pending = [])
          fun path => path = tempPath ∨ path = keyPath) (stable_complete seed.val) steady_ownsFile
        · rintro host host' ⟨⟩ hinv h hlink hhistory
          exact ownsFile_of_hardLink hinv h hlink hhistory
        · intro result
          exact triple_ret (stable_published (.ok result)) fun _ _ h => h
        · intro kind
          apply triple_ret (stable_published (.error kind))
          exact fun _ _ h => h.weaken fun _ _ => trivial
      · intro kind
        apply triple_ret (stable_published (.error kind))
        exact fun _ _ h => h.weaken fun _ _ => trivial

/-- A file that is complete under the key path is there after the temporary name has gone. -/
theorem contents_of_ownsFile {host host' : Host ι} (h : OwnsFile i seed n
      (fun file => file.data = seed.val ∧ file.pending = []) N host) (hN : N keyPath)
    (hkey : FileSystem.KeepsName keyPath host.fs host'.fs) :
    host'.fs.contents keyPath = some seed.val := by
  obtain ⟨file, hfile, -, hdata, -⟩ := h.file
  apply hkey.contents
  rw [← hdata]
  exact FileSystem.contents_eq_some ((h.names keyPath).2 hN) hfile

theorem keeps_publishAndCleanUp (htemp : tempPath ≠ keyPath) :
    Keeps keyPath i (OwnsFile i seed n (fun file => file.accepted = []) (· = tempPath))
      (publishAndCleanUp n tempPath keyPath seed) (HoldsSeed seed keyPath) := by
  apply Triple.bind (keeps_publishKey htemp)
  intro writeResult
  cases writeResult with
  | error source =>
      apply keeps_onFile (M := fun _ _ => True) (stable_published (.error source))
        (steady_published (.error source))
      · rintro host host' ⟨⟩ hinv h hremove hhistory
        have hstep := step_of_removeFile (N := (· = tempPath)) htemp rfl hinv h hremove hhistory
        exact ⟨hstep, trivial⟩
      · intro _
        exact keeps_ret_error _
      · intro _
        exact keeps_ret_error _
  | ok _ =>
      apply keeps_onFile (M := fun _ => HoldsSeed seed keyPath (.ok ()))
        (stable_published (.ok ())) (steady_published (.ok ()))
      · rintro host host' ⟨⟩ hinv h hremove hhistory
        have hstep := step_of_removeFile htemp (.inl rfl) hinv h hremove hhistory
        exact ⟨hstep, contents_of_ownsFile h (.inr rfl) hstep.2.key⟩
      · intro _
        exact triple_ret (stable_holdsSeed (.ok ())) fun _ _ h => h
      · intro _
        exact keeps_ret_error _

theorem keeps_createParent (parent : Str → Option Str) :
    Keeps keyPath i (fun host => host.seedOf i = some seed) (createParent parent keyPath)
      fun _ host => host.seedOf i = some seed := by
  unfold createParent
  split
  · apply keeps_onFile (f := .ret) (M := fun _ host => host.seedOf i = some seed)
      (stable_seedOf (some seed)) (steady_seedOf (some seed))
    · intro host host' result hinv h hfs hhistory
      exact ⟨step_of_fs_eq hinv hhistory (not_link (by simp)) hfs, seedOf_append hhistory h⟩
    · intro _
      exact triple_ret (stable_seedOf (some seed)) fun _ _ h => h
    · intro _
      exact triple_ret (stable_seedOf (some seed)) fun _ _ h => h
  · exact triple_ret (stable_seedOf (some seed)) fun _ _ h => h

/-- A temporary name is longer than the key path. -/
theorem keeps_temporaryKeyPath :
    Keeps keyPath i (fun host => host.seedOf i = some seed) (temporaryKeyPath keyPath)
      fun result host => host.seedOf i = some seed ∧ ∀ tempPath, result = .ok tempPath →
        tempPath ≠ keyPath := by
  have hstable : ∀ P : Prop, Stable keyPath i fun host => host.seedOf i = some seed ∧ P :=
    fun P _ _ _ _ hrely h => ⟨(Rely.seedOf hrely).trans h.1, h.2⟩
  apply keeps_randomKeyBytes (M := fun _ host => host.seedOf i = some seed)
    (stable_seedOf (some seed))
  · intro host host' reply h _ hhistory
    exact seedOf_append hhistory h
  · intro reply
    cases reply with
    | none => exact triple_ret (hstable _) fun _ _ h => ⟨h, by simp⟩
    | some bytes =>
        refine triple_ret (hstable _) fun host _ h => ⟨h, ?_⟩
        rintro tempPath ⟨⟩ heq
        have hlength := congrArg List.length heq
        simp at hlength

theorem keeps_writeNewKey (parent : Str → Option Str) :
    Keeps keyPath i (fun host => host.seedOf i = some seed) (writeNewKey parent keyPath seed)
      (HoldsSeed seed keyPath) := by
  apply Triple.bind (keeps_createParent parent)
  intro parentResult
  cases parentResult with
  | error source => exact keeps_ret_error _
  | ok _ =>
      apply Triple.bind keeps_temporaryKeyPath
      intro tempResult
      cases tempResult with
      | error error => exact keeps_ret_error _
      | ok tempPath =>
          by_cases htemp : tempPath = keyPath
          · exact fun host _ h => absurd htemp (h.2 tempPath rfl)
          · apply Triple.weaken _ fun _ _ h => h.1
            apply keeps_onFile (M := fun n => OwnsFile i seed n (fun file => file.accepted = [])
              (· = tempPath)) (stable_seedOf (some seed)) (steady_seedOf (some seed))
            · intro host host' file hinv h hcreate hhistory
              exact ownsFile_of_createNew htemp hinv h hcreate hhistory
            · intro file
              exact keeps_publishAndCleanUp htemp
            · intro source
              exact keeps_ret_error _

theorem keeps_generateNode (keys : KeyDerivation) (parent : Str → Option Str) :
    Keeps keyPath i (fun host => host.seedOf i = none) (generateNode keys parent keyPath)
      (HasIdentity keys keyPath) := by
  apply keeps_randomKeyBytes (M := fun reply host => host.seedOf i = reply) (stable_seedOf none)
  · intro host host' reply h _ hhistory
    rw [seedOf_first hhistory h, drawnBytes]
  · intro reply
    cases reply with
    | none => exact keeps_ret_identityError _
    | some seed =>
        cases hkeys : keys.tryFromSeed seed with
        | none =>
            simp only [hkeys]
            exact keeps_ret_identityError _
        | some keyPair =>
            simp only [hkeys, keys.seed_of_tryFromSeed hkeys]
            apply Triple.bind (keeps_writeNewKey parent)
            intro result
            cases result with
            | error error =>
                exact keeps_ret_identityError _
            | ok _ =>
                apply triple_ret (stable_hasIdentity (.ok keyPair.node))
                exact fun _ _ h => ⟨seed, keyPair, h, hkeys, rfl⟩

/-- What a node reads of a complete key file. -/
theorem nodeOfKeyFile_seed (keys : KeyDerivation) (path : Str) (seed : Seed) :
    nodeOfKeyFile keys path seed.val
      = (keys.tryFromSeed seed).elim (.error (.invalidKeySeed path)) fun keyPair =>
          .ok keyPair.node := by
  obtain ⟨bytes, hlength⟩ := seed
  have htake : bytes.take 32 = bytes := List.take_of_length_le hlength.le
  have hseed : seedFromSlice bytes = some ⟨bytes, hlength⟩ := dif_pos hlength
  rw [nodeOfKeyFile, if_neg (by simp [hlength]), htake, hseed, Option.bind_some]
  cases keys.tryFromSeed ⟨bytes, hlength⟩ <;> rfl

/-- A node that starts keeps its contract. -/
theorem keeps_new (keys : KeyDerivation) (parent : Str → Option Str) (hpath : keyPath ≠ []) :
    Keeps keyPath i (fun host => host.seedOf i = none) (Node.new keys parent keyPath)
      (HasIdentity keys keyPath) := by
  rw [Node.new, if_neg hpath]
  apply keeps_onFile (M := fun data => HasIdentity keys keyPath (nodeOfKeyFile keys keyPath data))
    (stable_seedOf none) (steady_seedOf none)
  · intro host host' data hinv h hread hhistory
    obtain ⟨hcontents, hfs⟩ := hread
    refine ⟨step_of_fs_eq hinv hhistory (not_link (by simp)) hfs, ?_⟩
    obtain ⟨n, file, hname, hfile, hdata⟩ := FileSystem.contents_eq_some_iff.1 hcontents
    obtain ⟨j, seed, hseed, -, -⟩ := hinv.present hname
    have hdata' : data = seed.val := by
      rw [hfile, Option.some.injEq] at hseed
      rw [← hdata, hseed]
    subst hdata'
    rw [nodeOfKeyFile_seed]
    cases hkeys : keys.tryFromSeed seed with
    | none => trivial
    | some keyPair => exact ⟨seed, keyPair, by rwa [hfs], hkeys, rfl⟩
  · intro data
    exact triple_ret (stable_hasIdentity _) fun _ _ h => h
  · intro kind
    cases kind with
    | notFound => exact keeps_generateNode keys parent
    | alreadyExists => exact keeps_ret_identityError _
    | writeZero => exact keeps_ret_identityError _
    | other => exact keeps_ret_identityError _

end

/-! ## A start on its own -/

section

variable {host : Host ι} {i : ι} {seed : Seed} {keyPath tempPath : Str} {n : ℕ} {α : Type}
  {b : α} {P : Host ι → Prop}

/-- A process on its own, for which nothing goes wrong, returns `a` on a host with `P`. -/
abbrev Can (i : ι) (p : IdentityM α) (host : Host ι) (a : α) (P : Host ι → Prop) : Prop :=
  CanReturn (semantics i) p host a P

omit [DecidableEq ι] in
theorem can_onFile {op : FileOp Str} {result : op.Result} {fs : FileSystem ι Str}
    {f : IdentityOp.Reply (.file op) → IdentityM α}
    (h : FileSystem.Succeeds i host.fs fs op result)
    (hf : Can i (f (.ok result)) ⟨fs, host.history ++ [(i, ⟨.file op, .ok result⟩)]⟩ b P) :
    Can i (onFile op >>= f) host b P := by
  have hsem : semantics i (.file op) host (.ok result)
      ⟨fs, host.history ++ [(i, ⟨.file op, .ok result⟩)]⟩ := ⟨rfl, h⟩
  exact canReturn_call_bind hsem hf

omit [DecidableEq ι] in
theorem can_randomKeyBytes (seed : Seed) {f : Option Seed → IdentityM α}
    (hf : Can i (f (some seed))
      ⟨host.fs, host.history ++ [(i, ⟨.randomKeyBytes, some seed⟩)]⟩ b P) :
    Can i (randomKeyBytes >>= f) host b P := by
  have hsem : semantics i .randomKeyBytes host (some seed)
      ⟨host.fs, host.history ++ [(i, ⟨.randomKeyBytes, some seed⟩)]⟩ := ⟨rfl, rfl⟩
  exact canReturn_call_bind hsem hf

omit [DecidableEq ι] in
/-- Everything can be written at once. -/
theorem can_writeAll {file : File ι} (hfile : host.fs.files n = some file) (bytes : Octets) :
    Can i (writeAll n bytes) host (.ok ()) fun host' =>
      host'.fs.names = host.fs.names ∧ ∃ file', host'.fs.files n = some file' := by
  cases bytes with
  | nil =>
      rw [writeAll]
      exact canReturn_ret ⟨rfl, file, hfile⟩
  | cons byte bytes =>
      have hwrite : FileSystem.Succeeds i host.fs
          (host.fs.setFile n { file with pending := file.pending ++ byte :: bytes })
          (.write n (byte :: bytes)) (bytes.length + 1) :=
        ⟨file, hfile, le_rfl, by simp⟩
      have hrest : writeAll n (bytes.drop bytes.length) = .ret (.ok ()) := by
        rw [List.drop_length, writeAll]
        rfl
      rw [writeAll]
      apply can_onFile hwrite
      simp only [hrest]
      exact canReturn_ret ⟨rfl, _, Function.update_self _ _ _⟩

omit [DecidableEq ι] in
theorem can_publishAndCleanUp {file : File ι} (hfile : host.fs.files n = some file)
    (htemp : host.fs.names tempPath = some n) (hkey : host.fs.names keyPath = none) :
    Can i (publishAndCleanUp n tempPath keyPath seed) host (.ok ()) fun _ => True := by
  have hne : tempPath ≠ keyPath := by
    rintro rfl
    simp [hkey] at htemp
  apply CanReturn.bind (M := fun host' => ∃ n, host'.fs.names tempPath = some n)
  · apply CanReturn.bind (can_writeAll hfile seed.val)
    rintro host₁ ⟨hnames, file₁, hfile₁⟩
    have htemp₁ : host₁.fs.names tempPath = some n := by rw [hnames, htemp]
    have hkey₁ : host₁.fs.names keyPath = none := by rw [hnames, hkey]
    let fs₂ := host₁.fs.setFile n { file₁ with data := file₁.accepted, pending := [] }
    have hsync : FileSystem.Succeeds i host₁.fs fs₂ (.syncAll n) () := ⟨file₁, hfile₁, rfl⟩
    have hlink : FileSystem.Succeeds i fs₂ (fs₂.link tempPath keyPath)
        (.hardLink tempPath keyPath) () := ⟨⟨n, htemp₁⟩, hkey₁, rfl⟩
    apply can_onFile hsync
    apply can_onFile (f := .ret) hlink
    apply canReturn_ret
    exact ⟨n, by simpa [fs₂, FileSystem.link, FileSystem.setFile, hne] using htemp₁⟩
  · intro host₂ htemp₂
    have hremove : FileSystem.Succeeds i host₂.fs (host₂.fs.unlink tempPath)
        (.removeFile tempPath) () := ⟨htemp₂, rfl⟩
    apply can_onFile hremove
    exact canReturn_ret trivial

omit [DecidableEq ι] in
/-- A process that starts on an empty host can start as the node of any seed. -/
theorem can_new {keys : KeyDerivation} {parent : Str → Option Str} {keyPair : KeyPair}
    (hpath : keyPath ≠ []) (hnames : ∀ path, host.fs.names path = none)
    (hfresh : host.fs.files n = none) (hkeys : keys.tryFromSeed seed = some keyPair) :
    Can i (Node.new keys parent keyPath) host (.ok keyPair.node) fun _ => True := by
  have hread : semantics i (.file (.read keyPath)) host (.error .notFound)
      ⟨host.fs, host.history ++ [(i, ⟨.file (.read keyPath), .error .notFound⟩)]⟩ := ⟨rfl, rfl⟩
  rw [Node.new, if_neg hpath]
  apply canReturn_call_bind hread
  apply can_randomKeyBytes seed
  simp only [hkeys]
  apply CanReturn.bind (M := fun _ => True) (a := .ok ())
  · apply CanReturn.bind (M := fun host' => host'.fs = host.fs) (a := .ok ())
    · unfold createParent
      split
      · next c cs _ =>
          have hdir : FileSystem.Succeeds i host.fs host.fs (.createDirAll (c :: cs)) () := rfl
          exact can_onFile (f := .ret) hdir (canReturn_ret rfl)
      · exact canReturn_ret rfl
    · intro host₁ hfs₁
      let tempPath := keyPath ++ ".".toList ++ hexLower seed.val ++ ".tmp".toList
      apply CanReturn.bind (M := fun host' => host'.fs = host.fs) (a := .ok tempPath)
      · apply can_randomKeyBytes seed
        exact canReturn_ret hfs₁
      · intro host₂ hfs₂
        have hcreate : FileSystem.Succeeds i host₂.fs (host₂.fs.create i tempPath n)
            (.createNew tempPath) n := by
          rw [hfs₂]
          exact ⟨hnames tempPath, hfresh, rfl⟩
        have hne : keyPath ≠ tempPath := by
          intro h
          have hlength := congrArg List.length h
          simp [tempPath] at hlength
        apply can_onFile hcreate
        apply can_publishAndCleanUp (n := n)
        · exact Function.update_self n _ _
        · exact Function.update_self tempPath _ _
        · simp [FileSystem.create, hne, hfs₂, hnames]
  · intro _ _
    exact canReturn_ret trivial

end

/-! ## Interleavings -/

/-- Processes that start on one host. -/
abbrev Nodes (ι : Type) :=
  Threads ι IdentityOp IdentityOp.Reply (Except IdentityError Node) (Host ι)

/-- Reached by any interleaving of operations, crashes and bytes that reach their files. -/
abbrev Reach : Nodes ι → Nodes ι → Prop := Threads.Reachable semantics Flush

/-- Every process is about to start, and there is nothing under the key path. -/
structure Starting (keys : KeyDerivation) (parent : Str → Option Str) (keyPath : Str)
    (t : Nodes ι) : Prop where
  absent : t.shared.fs.names keyPath = none
  history : t.shared.history = []
  threads : ∀ i, t.threads i = some (Node.new keys parent keyPath)

section

variable {keys : KeyDerivation} {parent : Str → Option Str} {keyPath : Str} {t t' : Nodes ι}

theorem Starting.invariant (hstart : Starting keys parent keyPath t) :
    KeyInvariant keyPath t.shared := by
  constructor
  · intro _ i
    simp [Linked, hstart.history]
  · intro n hn
    simp [hstart.absent] at hn

theorem Starting.good (hstart : Starting keys parent keyPath t) (hpath : keyPath ≠ []) :
    Threads.Good semantics (KeyInvariant keyPath) (contract keyPath)
      (fun _ => HasIdentity keys keyPath) t := by
  have hundrawn : ∀ i, t.shared.seedOf i = none := by
    intro i
    simp [seedOf, hstart.history]
  apply Threads.good_of_triple (P := fun host => ∀ i, host.seedOf i = none) hstart.invariant hundrawn
  intro i p hp
  rw [hstart.threads i, Option.some.injEq] at hp
  rw [← hp]
  exact (keeps_new keys parent hpath).weaken fun _ _ h => h i

/-- What is under the key path stays there as it is. -/
theorem keepsName_of_reach (h : Reach t t') (ht : Threads.Good semantics (KeyInvariant keyPath)
      (contract keyPath) (fun _ => HasIdentity keys keyPath) t) :
    FileSystem.KeepsName keyPath t.shared.fs t'.shared.fs := by
  apply Threads.related_of_reachable (T := fun host host' : Host ι =>
    FileSystem.KeepsName keyPath host.fs host'.fs) (compatible keyPath) _ _ _ _ h ht
  · exact fun host => .refl keyPath host.fs
  · exact fun _ _ _ hkey hkey' => hkey.trans hkey'
  · exact fun _ _ _ _ _ hguar => hguar.key
  · exact fun _ _ hinv hflush => hflush.keepsName hinv

/-- Whatever the interleaving, the failures and the crashes: the key path is absent, or holds the
complete seed of the one process that has linked its file there. What it holds never
changes, and a node that has started has the identity that belongs to it. -/
theorem identity_file_atomic (hpath : keyPath ≠ []) (hstart : Starting keys parent keyPath t)
    (h : Reach t t') :
    (t'.shared.fs.names keyPath = none ∨ ∃ i seed,
      t'.shared.fs.contents keyPath = some seed.val ∧ t'.shared.seedOf i = some seed ∧
        ∀ j, t'.shared.Linked keyPath j ↔ j = i) ∧
    (∀ t'' data, Reach t' t'' → t'.shared.fs.contents keyPath = some data →
      t''.shared.fs.contents keyPath = some data) ∧
    ∀ i node, t'.threads i = some (.ret (.ok node)) → ∃ seed keyPair,
      t'.shared.fs.contents keyPath = some seed.val ∧ keys.tryFromSeed seed = some keyPair ∧
        node = keyPair.node := by
  have hgood := Threads.good_of_reachable (compatible keyPath) h (hstart.good hpath)
  refine ⟨?_, ?_, ?_⟩
  · cases hname : t'.shared.fs.names keyPath with
    | none => exact .inl rfl
    | some n =>
        obtain ⟨i, seed, hfile, hdrawn, honly⟩ := hgood.invariant.present hname
        exact .inr ⟨i, seed, FileSystem.contents_eq_some hname hfile, hdrawn, honly⟩
  · intro t'' data h' hdata
    exact (keepsName_of_reach h' hgood).contents hdata
  · intro i node hi
    exact hgood.returned hi

end

/-- A seed and the public key that belongs to it. -/
def sampleKeyPair : KeyPair where
  node :=
    { publicKey := ⟨[215, 90, 152, 1, 130, 177, 10, 183, 213, 75, 254, 211, 201, 100, 7, 58,
        14, 225, 114, 243, 218, 166, 35, 37, 175, 2, 26, 104, 247, 7, 81, 26], rfl⟩
      signature := fun _ => ⟨List.replicate 64 0, rfl⟩ }
  seed := ⟨[157, 97, 177, 157, 239, 253, 90, 96, 186, 132, 74, 244, 146, 236, 44, 196,
    68, 73, 197, 105, 123, 50, 105, 25, 112, 59, 172, 3, 28, 174, 127, 96], rfl⟩

def sampleKeys : KeyDerivation where
  tryFromSeed seed := if seed = sampleKeyPair.seed then some sampleKeyPair else none
  seed_of_tryFromSeed := by
    intro seed keyPair h
    split at h
    · next hseed =>
        cases h
        exact hseed.symm
    · cases h

/-- Two processes that are about to start on an empty host. -/
def sampleNodes : Nodes (Fin 2) where
  shared := ⟨⟨fun _ => none, fun _ => none, by simp⟩, []⟩
  threads _ := some (Node.new sampleKeys (fun _ => some []) "mesh.key".toList)

theorem identity_file_atomic_of_two : ∃ t : Nodes (Fin 2), Reach sampleNodes t ∧
    t.threads 0 = some (.ret (.ok sampleKeyPair.node)) ∧ ∃ seed keyPair,
      t.shared.fs.contents "mesh.key".toList = some seed.val ∧
        sampleKeys.tryFromSeed seed = some keyPair ∧ sampleKeyPair.node = keyPair.node := by
  have hpath : "mesh.key".toList ≠ [] := by decide
  have hstart : Starting sampleKeys (fun _ => some []) "mesh.key".toList sampleNodes :=
    ⟨rfl, rfl, fun _ => rfl⟩
  have hkeys : sampleKeys.tryFromSeed sampleKeyPair.seed = some sampleKeyPair := by
    simp [sampleKeys]
  have hcan : Can (0 : Fin 2) (Node.new sampleKeys (fun _ => some []) "mesh.key".toList)
      sampleNodes.shared (.ok sampleKeyPair.node) fun _ => True :=
    can_new (n := 0) hpath (fun _ => rfl) rfl hkeys
  have hreach : ∃ host, Reach sampleNodes ⟨host, Function.update sampleNodes.threads 0
      (some (.ret (.ok sampleKeyPair.node)))⟩ ∧ True :=
    Threads.reachable_of_canReturn (hstart.threads 0) hcan
  obtain ⟨host, hreach, -⟩ := hreach
  have hreturned : Function.update sampleNodes.threads 0
      (some (.ret (.ok sampleKeyPair.node))) 0 = some (.ret (.ok sampleKeyPair.node)) :=
    Function.update_self _ _ _
  exact ⟨_, hreach, hreturned,
    (identity_file_atomic hpath hstart hreach).2.2 0 sampleKeyPair.node hreturned⟩

end Host

end Ncro
