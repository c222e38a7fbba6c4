import Mathlib.Data.List.AList
import PrismPipe.Document.Vectorize
import PrismPipe.Lib.KeyedStore
import PrismPipe.Python.Reread
import PrismPipe.Python.Similar

/-! `FileStorage` beside `MemoryStorage`, on keys for which a file can be made. -/

namespace PrismPipe.Storages

open KeyedStore Python

abbrev MemoryStorage := AList fun _ : PyStr => Json

namespace MemoryStorage

def save (self : MemoryStorage) (key : PyStr) (value : Json) : MemoryStorage :=
  self.insert key value

def load (self : MemoryStorage) (key : PyStr) : Option Json := self.lookup key

def delete (self : MemoryStorage) (key : PyStr) : MemoryStorage := self.erase key

def exist (self : MemoryStorage) (key : PyStr) : Bool := key ∈ self

end MemoryStorage

def memoryStorage : Store MemoryStorage PyStr Json where
  save self key value := (true, self.save key value)
  load self key := some (self.load key)
  delete := MemoryStorage.delete
  exist := MemoryStorage.exist

def underscore : CodePoint := ⟨'_'.toNat, toNat_lt '_'⟩

/-- `key.replace("..", "_")`. -/
def replaceDots : PyStr → PyStr
  | a :: b :: rest =>
    if a.val = 0x2E ∧ b.val = 0x2E then underscore :: replaceDots rest
    else a :: replaceDots (b :: rest)
  | s => s

/-- `s.replace("/", "_")`. -/
def replaceSlashes (s : PyStr) : PyStr := s.map fun c => if c.val = 0x2F then underscore else c

def safeKey (key : PyStr) : PyStr := replaceSlashes (replaceDots key)

/-- The name of `_get_path(key)` in `base_path`. -/
def getPath (key : PyStr) : PyStr := safeKey key ++ py ".json"

def temporaryPath (path hex : PyStr) : PyStr := py "." ++ path ++ py "." ++ hex ++ py ".tmp"

/-- The files of `base_path`, each as the value that its text was made of. -/
structure FileStorage where
  files : AList fun _ : PyStr => Json
  /-- How often `uuid4` was called. -/
  saves : Nat

namespace FileStorage

def init : FileStorage := ⟨∅, 0⟩

/-- `json.dump` to the temporary file, which is then renamed; a value that it refuses leaves none. -/
def save (limits : JsonLimits) (hex : Nat → PyStr) (self : FileStorage) (key : PyStr)
    (value : Json) : Bool × FileStorage :=
  let path := getPath key
  let temporary := temporaryPath path (hex self.saves)
  if limits.dumps value then
    let written := self.files.insert temporary value
    (true, ⟨(written.erase temporary).insert path value, self.saves + 1⟩)
  else (false, ⟨self.files.erase temporary, self.saves + 1⟩)

/-- What `json.load` makes of the file, whose text has its keys in order. -/
def load (limits : JsonLimits) (self : FileStorage) (key : PyStr) : Option (Option Json) :=
  match self.files.lookup (getPath key) with
  | none => some none
  | some value => (limits.reread value.sortKeys).map some

def delete (self : FileStorage) (key : PyStr) : FileStorage :=
  { self with files := self.files.erase (getPath key) }

def exist (self : FileStorage) (key : PyStr) : Bool := getPath key ∈ self.files

def kept (self : FileStorage) (name : PyStr) : Option Json := self.files.lookup (name ++ py ".json")

end FileStorage

def fileStorage (limits : JsonLimits) (hex : Nat → PyStr) : Store FileStorage PyStr Json where
  save := FileStorage.save limits hex
  load := FileStorage.load limits
  delete := FileStorage.delete
  exist := FileStorage.exist

theorem ne_temporaryPath (name path hex : PyStr) : name ++ py ".json" ≠ temporaryPath path hex := by
  intro h
  have hlast := congrArg List.getLast? h
  have hleft : (name ++ py ".json").getLast? = some 0x6E := by
    rw [List.getLast?_append]
    rfl
  have hright : (temporaryPath path hex).getLast? = some 0x70 := by
    rw [temporaryPath, List.getLast?_append]
    rfl
  rw [hleft, hright] at hlast
  revert hlast
  decide

/-- The answers of `FileStorage` are those of `MemoryStorage`, where the items of an object may
come in another order. -/
def Refines (limits : JsonLimits) (hex : Nat → PyStr) (ops : List (Operation PyStr Json)) : Prop :=
  List.Forall₂ (Answer.Rel Json.Similar) ((fileStorage limits hex).answers .init ops)
    (memoryStorage.answers ∅ ops)

end PrismPipe.Storages
