import Mathlib.Logic.Function.Basic
import PrismPipe.Core.Storage
import PrismPipe.Lib.Parties
import PrismPipe.Python.Dumps

/-! The threads of `FileStorage`, call by call, over a directory whose calls may fail, in processes
that may be killed, on a machine that may lose its power. -/

namespace PrismPipe.Storages

open KeyedStore Python Program

inductive Syscall
  | uuid4
  | stat (path : PyStr)
  | create (path : PyStr)
  | write (file : Nat) (piece : PyStr)
  | fsync (file : Nat)
  | replace (source target : PyStr)
  | unlink (path : PyStr)
  | open (path : PyStr)
  | read (file : Nat)

abbrev Syscall.Value : Syscall → Type
  | .uuid4 | .read _ => PyStr
  | .stat _ => Bool
  | .create _ | .open _ => Nat
  | .write .. | .fsync _ | .replace .. | .unlink _ => Unit

/-- What a call raises is the text of its `OSError`. -/
abbrev syscalls : Interface := ⟨Syscall, fun o => Except PyStr o.Value⟩

inductive FileError
  | storage (operation reason : PyStr)
  | os (reason : PyStr)

/-- `str(error)`. -/
def FileError.str : FileError → PyStr
  | .storage operation reason =>
    py "Storage operation '" ++ operation ++ py "' failed: " ++ reason
  | .os reason => reason

abbrev Thread := ExceptT FileError (Program syscalls)

def os (o : Syscall) : Thread o.Value := ExceptT.mk (.call o fun r => .pure (r.mapError .os))

structure Buffer where
  pieces : PyStr → List PyStr
  flatten_pieces : ∀ text, (pieces text).flatten = text

def writePieces (handle : Nat) : List PyStr → Thread Unit
  | [] => pure ()
  | piece :: pieces => do
    os (.write handle piece)
    writePieces handle pieces

section Calls

variable (B : Buffer) (stops : Json → Option (PyStr × PyStr)) (loads : PyStr → Except PyStr Json)

/-- `json.dump` stops at what it refuses, when it has written what comes before. -/
def saveText (path temporary : PyStr) (value : Json) : Thread Unit := do
  let handle ← os (.create temporary)
  match stops value with
  | some (part, reason) =>
    writePieces handle (B.pieces part)
    throw (.os reason)
  | none =>
    writePieces handle (B.pieces value.dumps)
    os (.fsync handle)
    os (.replace temporary path)

def saveSync (key : PyStr) (value : Json) : Thread (KeyedStore.Answer Json) := do
  let path := getPath key
  let hex ← os .uuid4
  let temporary := temporaryPath path hex
  tryCatch (saveText B stops path temporary value) fun error => do
    os (.unlink temporary)
    throw (.storage (py "save") error.str)
  return .done

def loadText (path : PyStr) : Thread Json := do
  let handle ← os (.open path)
  let text ← os (.read handle)
  match loads text with
  | .ok value => return value
  | .error reason => throw (.os reason)

def loadSync (key : PyStr) : Thread (KeyedStore.Answer Json) := do
  let path := getPath key
  if ← os (.stat path) then
    let value ← tryCatch (loadText loads path) fun error =>
      throw (.storage (py "load") error.str)
    return .loaded (some value)
  else return .loaded none

def deleteSync (key : PyStr) : Thread (KeyedStore.Answer Json) := do
  os (.unlink (getPath key))
  return .done

def existSync (key : PyStr) : Thread (KeyedStore.Answer Json) := do
  return .existing (← os (.stat (getPath key)))

def perform : Operation PyStr Json → Thread (KeyedStore.Answer Json)
  | .save key value => saveSync B stops key value
  | .load key => loadSync loads key
  | .delete key => deleteSync key
  | .exist key => existSync key

end Calls

/-- `uuid4().hex`, as often as it is called: never the same again, and without a dot. -/
structure Uuids where
  hex : Nat → PyStr
  injective : Function.Injective hex
  plain : ∀ k, 0x2E ∉ hex k

/-- The files of `base_path`, by number, and their names. -/
structure Directory where
  entry : PyStr → Option Nat
  text : Nat → PyStr
  synced : Nat → Bool
  files : Nat
  uuids : Nat
  /-- Which party an uuid was made for. -/
  party : Nat → Nat
  /-- The names a file has had. -/
  named : PyStr → Nat → Prop
  /-- What was under each name when the machine started. -/
  base : PyStr → Option PyStr
  /-- What has become of the names since. -/
  journal : List (Operation PyStr PyStr)

namespace Directory

def init : Directory where
  entry _ := none
  text _ := []
  synced _ := false
  files := 0
  uuids := 0
  party _ := 0
  named _ _ := False
  base _ := none
  journal := []

def under (base : PyStr → Option PyStr) (journal : List (Operation PyStr PyStr)) (path : PyStr) :
    Option PyStr := journal.foldl (Operation.leave id path) (base path)

def setText (s : Directory) (n : Nat) (text : PyStr) : Directory :=
  { s with text := Function.update s.text n text, synced := Function.update s.synced n false }

def link (s : Directory) (path : PyStr) (n : Nat) : Directory where
  entry := Function.update s.entry path (some n)
  text := s.text
  synced := s.synced
  files := s.files
  uuids := s.uuids
  party := s.party
  named p m := s.named p m ∨ p = path ∧ m = n
  base := s.base
  journal := s.journal ++ [.save path (s.text n)]

def remove (s : Directory) (path : PyStr) : Directory :=
  { s with entry := Function.update s.entry path none, journal := s.journal ++ [.delete path] }

def made (s : Directory) : Directory :=
  { s.setText s.files [] with files := s.files + 1 }

def issue (s : Directory) (i : Nat) : Directory :=
  { s with uuids := s.uuids + 1, party := Function.update s.party s.uuids i }

def sync (s : Directory) (n : Nat) : Directory :=
  { s with synced := Function.update s.synced n true }

end Directory

variable (U : Uuids) (faults : Prop)

/-- Where there are `faults`, any call on the directory may fail, a `write` halfway. -/
inductive Directory.Step : Nat → Directory → (o : Syscall) → Except PyStr o.Value → Directory → Prop
  | uuid4 : Step i s .uuid4 (.ok (U.hex s.uuids)) (s.issue i)
  | stat : Step i s (.stat path) (.ok (s.entry path).isSome) s
  | create : s.entry path = none → Step i s (.create path) (.ok s.files) (s.made.link path s.files)
  | truncate : s.entry path = some n → Step i s (.create path) (.ok n) (s.setText n [])
  | write : Step i s (.write n piece) (.ok ()) (s.setText n (s.text n ++ piece))
  | torn : faults → part <+: piece →
      Step i s (.write n piece) (.error reason) (s.setText n (s.text n ++ part))
  | fsync : Step i s (.fsync n) (.ok ()) (s.sync n)
  | replace : s.entry source = some n →
      Step i s (.replace source target) (.ok ()) ((s.remove source).link target n)
  | unlink : Step i s (.unlink path) (.ok ()) (s.remove path)
  | open : s.entry path = some n → Step i s (.open path) (.ok n) s
  | missing : s.entry path = none → Step i s (.open path) (.error reason) s
  | read : Step i s (.read n) (.ok (s.text n)) s
  | unreplaced : s.entry source = none → Step i s (.replace source target) (.error reason) s
  | fail : faults → o ≠ .uuid4 → Step i s o (.error reason) s

def directory : Shared syscalls Directory := ⟨Directory.Step U faults⟩

structure Directory.Lost (s t : Directory) : Prop where
  entry : ∀ path n, t.entry path = some n → s.named path n
  single : ∀ p q n, t.entry p = some n → t.entry q = some n → p = q
  text : ∀ n, s.synced n → t.text n = s.text n ∧ t.synced n
  files : t.files = s.files
  uuids : t.uuids = s.uuids
  named : t.named = s.named
  base : t.base = fun path => (t.entry path).map t.text
  journal : t.journal = []

/-- `FileStorage` in all its threads, with the calls that are made of it. -/
def threads (B : Buffer) (stops : Json → Option (PyStr × PyStr))
    (loads : PyStr → Except PyStr Json) (calls : Operation PyStr Json → Prop) :
    Transition.System (Parties syscalls Directory (Except FileError (KeyedStore.Answer Json))
      (Operation PyStr Json)) Unit :=
  Parties.system (directory U faults) Directory.Lost calls (fun op => (perform B stops loads op).run)
    (· = Directory.init)

end PrismPipe.Storages
