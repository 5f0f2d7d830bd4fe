import AeordbSync.Library.Effect
import AeordbSync.Library.Json
import AeordbSync.Errors

namespace AeordbSync
open Characters Effect

/-- The paths of the documents that the client keeps. No directory has such a name. -/
def IsDocument (path : Text) : Prop := text ".json" <:+ path

/-- The database that the client embeds, as the client relies on it. A batch is written as a whole, a
merge patch reaches two levels, and a patch to a document that is not there makes it. -/
structure StateEngine (σ : Type) where
  file : σ → Text → Option Json
  present : σ → Text → Bool
  listing : σ → Text → List Text
  put : List (Text × Json) → σ → σ
  patch : List (Text × Json) → σ → σ
  erase : Text → σ → σ
  present_document : ∀ s path, IsDocument path → present s path = (file s path).isSome
  present_directory : ∀ s directory name, directory.getLast? = some '/' → '/' ∉ name →
    (file s (directory ++ name)).isSome = true → present s directory = true
  nodup_listing : ∀ s directory, (listing s directory).Nodup
  slash_notMem_listing : ∀ s directory, ∀ name ∈ listing s directory, '/' ∉ name
  mem_listing : ∀ s directory name, directory.getLast? = some '/' → name ≠ [] → '/' ∉ name →
    (file s (directory ++ name)).isSome = true → name ∈ listing s directory
  file_put : ∀ files s path, (files.map Prod.fst).Nodup →
    file (put files s) path = (files.lookup path).or (file s path)
  file_patch : ∀ patches s path, (patches.map Prod.fst).Nodup →
    file (patch patches s) path = match patches.lookup path with
      | none => file s path
      | some value => some (((file s path).getD (.object [])).merge 2 value)
  file_erase : ∀ s path other, file (erase path s) other = if other = path then none else file s other
  present_erase : ∀ s path directory, directory.getLast? = some '/' → ¬ directory <+: path →
    present (erase path s) directory = present s directory
  listing_erase : ∀ s path directory, directory.getLast? = some '/' → ¬ directory <+: path →
    listing (erase path s) directory = listing s directory

/-- The database, and how the next calls of it turn out. A call that fails changes nothing. -/
structure StateStore (σ : Type) where
  db : σ
  faults : List (Option Text)

namespace StateStore

variable {σ : Type}

abbrev Call (σ α : Type) := Proc (StateStore σ) ClientError α

def quiet (db : σ) : StateStore σ := ⟨db, []⟩

/-- One call of the database. -/
def call {α : Type} (failure : Text → ClientError) (run : σ → α × σ) : Call σ α := fun s =>
  match s.faults with
  | some error :: later => (.error (failure error), ⟨s.db, later⟩)
  | none :: later => (.ok (run s.db).1, ⟨(run s.db).2, later⟩)
  | [] => (.ok (run s.db).1, quiet (run s.db).2)

variable (engine : StateEngine σ)

def storeJson (path : Text) (value : Json) : Call σ Unit :=
  call (fun error => .server (text "failed to store " ++ path ++ text " in state database: " ++ error))
    fun db => ((), engine.put [(path, value)] db)

def storeJsonValuesBatch (files : List (Text × Json)) : Call σ Unit :=
  if files = [] then pure ()
  else call (fun error => .server (text "failed to store JSON batch in state database: " ++ error))
    fun db => ((), engine.put files db)

def mergeJsonFilesBatch (patches : List (Text × Json)) : Call σ Unit :=
  if patches = [] then pure ()
  else call (fun error => .server (text "failed to merge JSON batch in state database: " ++ error))
    fun db => ((), engine.patch patches db)

def mergeJsonFile (path : Text) (patch : Json) : Call σ Unit :=
  call (fun error => .server (text "failed to merge " ++ path ++ text " in state database: " ++ error))
    fun db => ((), engine.patch [(path, patch)] db)

def delete (path : Text) : Call σ Unit :=
  call (fun error => .server (text "failed to delete " ++ path ++ text " from state database: " ++ error))
    fun db => ((), engine.erase path db)

def pathExists (path : Text) : Call σ Bool :=
  call (fun error =>
      .server (text "failed to check existence of " ++ path ++ text " in state database: " ++ error))
    fun db => (engine.present db path, db)

/-- A directory that cannot be listed counts as empty. -/
def listDirectory (path : Text) : Call σ (List Text) := do
  let names ← Proc.attempt (call (fun error => .server error) fun db => (engine.listing db path, db))
  pure (match names with
    | .ok names => names
    | .error _ => [])

/-- A document that is missing, that cannot be read or that has another form counts as absent. -/
def readJson {α : Type} (decode : Json → Option α) (path : Text) : Call σ (Option α) := do
  let known ← Proc.attempt (pathExists engine path)
  match known with
  | .ok true => do
      let content ← Proc.attempt (call (fun error => .server error) fun db => (engine.file db path, db))
      pure (match content with
        | .ok (some json) => decode json
        | _ => none)
  | _ => pure none

@[simp] theorem call_quiet {α : Type} (failure : Text → ClientError) (run : σ → α × σ) (db : σ) :
    call failure run (quiet db) = (.ok (run db).1, quiet (run db).2) := rfl

@[simp] theorem storeJson_quiet (path : Text) (value : Json) (db : σ) :
    storeJson engine path value (quiet db) = (.ok (), quiet (engine.put [(path, value)] db)) := rfl

@[simp] theorem mergeJsonFile_quiet (path : Text) (patch : Json) (db : σ) :
    mergeJsonFile engine path patch (quiet db) = (.ok (), quiet (engine.patch [(path, patch)] db)) := rfl

@[simp] theorem delete_quiet (path : Text) (db : σ) :
    delete engine path (quiet db) = (.ok (), quiet (engine.erase path db)) := rfl

@[simp] theorem pathExists_quiet (path : Text) (db : σ) :
    pathExists engine path (quiet db) = (.ok (engine.present db path), quiet db) := rfl

@[simp] theorem listDirectory_quiet (path : Text) (db : σ) :
    listDirectory engine path (quiet db) = (.ok (engine.listing db path), quiet db) := rfl

/-- Without faults a document is read as it is stored. -/
theorem readJson_quiet {α : Type} (decode : Json → Option α) {path : Text} (document : IsDocument path)
    (db : σ) : readJson engine decode path (quiet db) =
      (.ok ((engine.file db path).bind decode), quiet db) := by
  have present := engine.present_document db path document
  cases content : engine.file db path with
  | none =>
      rw [content] at present
      simp [readJson, Proc.bind_apply, Proc.attempt, present]
  | some json =>
      rw [content] at present
      simp [readJson, Proc.bind_apply, Proc.attempt, present, content]

theorem readJson_absent {α : Type} (decode : Json → Option α) {path : Text} {db : σ}
    (absent : engine.file db path = none) : readJson engine decode path (quiet db) = (.ok none, quiet db) := by
  cases present : engine.present db path with
  | false => simp [readJson, Proc.bind_apply, Proc.attempt, present]
  | true => simp [readJson, Proc.bind_apply, Proc.attempt, present, absent]

end StateStore

end AeordbSync
