import BacktestVisualizer.Framework.Programs
import BacktestVisualizer.Storage.PackageWrites

/-! # The Store Migration

  `migrate` of `scripts/migrate_strategy_store_s3.py`: the packages that the
  registry references are copied from the local store into a bucket. Every
  package is checked before the first write, an object is put under the
  condition that there is none, and what is there is read back.

  The bucket is one consistent map, and it is not this process's alone: before
  each of its requests other writers do what they like, the local files may be
  edited, and the request may fail or be the last thing the process does.
  SHA-256 is a parameter.
-/

namespace Storage

namespace Migration

/-! ### Reports and errors -/

/-- `FILENAMES`. -/
def filenames : List String := ["strategy.py", "config.json"]

/-- `MAX_OBJECT_BYTES`. -/
def max_object_bytes : ℕ := 1024 * 1024

structure ObjectSnapshot where
  size : ℕ
  digest : ByteArray
  deriving DecidableEq

structure Report where
  packages : ℕ
  objects : ℕ
  equal : ℕ
  missing : ℕ
  copied : ℕ
  verified : ℕ
  deriving DecidableEq, Repr

/-- What `migrate` raises: the codes of `MigrationError`, with the key and the
    filename of the label. -/
inductive MigrationError where
  | apply_requires_api_workers_stopped
  | max_packages_must_be_positive
  | registry_inventory_failed
  | registry_exceeds_max_packages
  | invalid_registry_storage_key
  | local_read_failed (key filename : String)
  | local_object_too_large (key filename : String)
  | local_changed (key filename : String)
  | destination_object_too_large (key filename : String)
  | destination_read_incomplete (key filename : String)
  | destination_read_failed (key filename : String)
  | destination_conflict_or_mismatch (key filename : String)
  | destination_write_failed (key filename : String)
  /-- What `_object_key` raises is not a `MigrationError`. -/
  | raised (e : StoreError)
  /-- The process is gone. -/
  | stopped
  deriving DecidableEq, Repr

/-- What `emit` is given. -/
inductive Line where
  | plan (key : String) (missing equal : ℕ)
  | verified (key : String) (objects : ℕ)
  deriving DecidableEq, Repr

/-! ### The world of a run -/

/-- What the process has seen and done, in this order. -/
inductive Event where
  /-- A local file was read. -/
  | read (key filename : String) (bytes : ByteArray)
  /-- The bucket answered a `get_object`. -/
  | fetched (object_key : String) (bucket : Bucket)
  /-- A `put_object` came to the bucket. -/
  | put (object_key : String) (body : ByteArray) (before after : Bucket)
  | emitted (line : Line)

/-- The local store and the bucket as they are, and the process's own record. -/
structure World where
  disk : Disk
  bucket : Bucket
  turn : ℕ
  report : Report
  log : List Event

inductive ReadTrouble where
  | stopped
  /-- Any error but that the object is missing. -/
  | failed
  /-- The body breaks off. -/
  | cut (bytes : ℕ)

/-- A put in trouble may have landed all the same. -/
inductive WriteTrouble where
  | stopped (landed : Bool)
  | failed (landed : Bool)
  /-- "PreconditionFailed" or "ConditionalRequestConflict". -/
  | conflict (landed : Bool)

/-- What happens before a request of the process, and to it. -/
structure Turn where
  others : Bucket → Bucket
  edits : Disk → Disk
  reading : Option ReadTrouble
  writing : Option WriteTrouble

/-- The turns of a run. -/
abbrev Env := ℕ → Turn

/-- Nobody else is there, and nothing fails. -/
def quiet : Env := fun _ => { others := id, edits := id, reading := none, writing := none }

/-- The world once others have had their turn. -/
def World.pass (w : World) (turn : Turn) : World :=
  { w with disk := turn.edits w.disk, bucket := turn.others w.bucket, turn := w.turn + 1 }

def World.note (w : World) (event : Event) : World := { w with log := w.log ++ [event] }

/-- A process that has not done anything yet. -/
def World.begin (disk : Disk) (bucket : Bucket) (report : Report) : World :=
  { disk := disk, bucket := bucket, turn := 0, report := report, log := [] }

abbrev Run := Program World MigrationError

def note (event : Event) : Run Unit := modify (fun w => w.note event)

def emit (line : Line) : Run Unit := note (.emitted line)

/-- Count something in the report. -/
def count (f : Report → Report) : Run Unit := modify (fun w => { w with report := f w.report })

/-! ### Requests -/

/-- The file behind a key and a filename, as the local store finds it. -/
def stored_bytes (disk : Disk) (key filename : String) : Option ByteArray :=
  match LocalStrategyStore.object_path key filename with
  | .ok path => FileTree.file_at disk path
  | .error _ => none

variable (env : Env)

/-- Open a local file and read it, unless that raises. -/
def open_local (key filename : String) : Run (Option ByteArray) := Program.act (fun w =>
  let turn := env w.turn
  let w := w.pass turn
  match turn.reading with
  | some .stopped => (.error .stopped, w)
  | some .failed => (.ok none, w)
  -- a local file is read whole
  | _ => (.ok (stored_bytes w.disk key filename), w))

/-- The reply to a `get_object`, with what can be read of the body. -/
inductive GetReply where
  | no_such_key
  | failed
  | body (content_length : ℕ) (content : ByteArray)

/-- The reply of a bucket that holds this, the body cut to what arrives. -/
def GetReply.of (arrives : ByteArray → ByteArray) : Option ByteArray → GetReply
  | none => .no_such_key
  | some content => .body content.size (arrives content)

def get_object (object_key : String) : Run GetReply := Program.act (fun w =>
  let turn := env w.turn
  let w := w.pass turn
  let answered := w.note (.fetched object_key w.bucket)
  match turn.reading with
  -- an answer that never arrives is not on record
  | some .stopped => (.error .stopped, w)
  | some .failed => (.ok .failed, w)
  | some (.cut bytes) => (.ok (.of (fun content => content.extract 0 bytes)
      (w.bucket.get object_key)), answered)
  | none => (.ok (.of id (w.bucket.get object_key)), answered))

/-- The reply to a `put_object`. -/
inductive PutReply where
  | stored
  | conflict
  | failed

/-- `put_object`, which `IfNoneMatch` makes conditional. -/
def put_object (object_key : String) (body : ByteArray) (if_none_match : Bool) : Run PutReply :=
  Program.act (fun w =>
    let turn := env w.turn
    let w := w.pass turn
    -- the bucket decides and stores in one step
    let allowed := !if_none_match || (w.bucket.get object_key).isNone
    let put := fun landed =>
      let after := if allowed && landed then w.bucket.insert object_key body else w.bucket
      { w with bucket := after }.note (.put object_key body w.bucket after)
    match turn.writing with
    | some (.stopped landed) => (.error .stopped, put landed)
    | some (.failed landed) => (.ok .failed, put landed)
    | some (.conflict landed) => (.ok .conflict, put landed)
    | none => (.ok (if allowed then .stored else .conflict), put true))

/-! ### One object -/

variable (sha256 : ByteArray → ByteArray) (store : S3StrategyStore)

/-- `_snapshot`. -/
def snapshot (content : ByteArray) : ObjectSnapshot :=
  { size := content.size, digest := sha256 content }

/-- `_local_bytes`. -/
def local_bytes (key filename : String) : Run ByteArray := do
  match ← open_local env key filename with
  | none => throw (.local_read_failed key filename)
  | some bytes =>
      -- one byte more than is allowed, so that it shows
      let content := bytes.extract 0 (max_object_bytes + 1)
      if content.size > max_object_bytes then throw (.local_object_too_large key filename)
      else
        note (.read key filename content)
        return content

/-- `_remote_bytes`. -/
def remote_bytes (key filename : String) : Run (Option ByteArray) :=
  match store.object_key key filename with
  | .error e => throw (.raised e)
  | .ok object_key => do
      match ← get_object env object_key with
      | .no_such_key => return none
      | .failed => throw (.destination_read_failed key filename)
      | .body content_length body =>
          if content_length > max_object_bytes then
            throw (.destination_object_too_large key filename)
          else
            let content := body.extract 0 (max_object_bytes + 1)
            if content.size ≠ content_length ∨ content.size > max_object_bytes then
              throw (.destination_read_incomplete key filename)
            else return some content

/-- `_check_equal`. -/
def check_equal (expected : ByteArray) (actual : Option ByteArray) (key filename : String) :
    Run Unit :=
  match actual with
  | none => throw (.destination_conflict_or_mismatch key filename)
  | some actual =>
      if actual ≠ expected ∨ snapshot sha256 actual ≠ snapshot sha256 expected then
        throw (.destination_conflict_or_mismatch key filename)
      else return ()

/-- `_put_missing`. -/
def put_missing (key filename : String) (content : ByteArray) : Run Bool :=
  match store.object_key key filename with
  | .error e => throw (.raised e)
  | .ok object_key => do
      match ← put_object env object_key content true with
      | .stored => return true
      | .conflict =>
          -- an equal object was put by someone else in the meantime
          let remote ← remote_bytes env store key filename
          check_equal sha256 content remote key filename
          return false
      | .failed => throw (.destination_write_failed key filename)

/-! ### The registry -/

/-- What the registry yields, and whether it fails once that is read. -/
structure Inventory where
  items : List String
  fails : Bool

/-- The arguments of `migrate` that say what to do. -/
structure Arguments where
  inventory : ℤ → Inventory
  apply : Bool
  api_workers_stopped : Bool
  max_packages : ℤ

/-- `list(islice(inventory(max_packages), max_packages + 1))`. -/
def references (arguments : Arguments) : Except MigrationError (List String) :=
  let inventory := arguments.inventory arguments.max_packages
  let limit := (arguments.max_packages + 1).toNat
  -- `islice` stops before it meets a failure behind the limit
  if inventory.fails ∧ inventory.items.length < limit then .error .registry_inventory_failed
  else if ((inventory.items.take limit).length : ℤ) > arguments.max_packages then
    .error .registry_exceeds_max_packages
  else .ok (inventory.items.take limit)

/-- A key that is none of its aliases. -/
def canonical_key (key : String) : Except MigrationError String :=
  match key_segments key with
  | .error _ => .error .invalid_registry_storage_key
  | .ok parts =>
      if parts.length < 2 ∨ parts.head? ≠ some strategy_key_prefix_text ∨
          key ≠ Segments.join key_separator parts ++ String.singleton key_separator then
        .error .invalid_registry_storage_key
      else .ok key

/-- The keys to migrate, each once and sorted. -/
def registry_keys (arguments : Arguments) : Except MigrationError (List String) := do
  if arguments.apply ∧ ¬ arguments.api_workers_stopped then
    .error .apply_requires_api_workers_stopped
  else if arguments.max_packages < 1 then .error .max_packages_must_be_positive
  else
    let items ← references arguments
    let keys ← items.mapM canonical_key
    -- `sorted(keys)` of the set of keys
    .ok (keys.dedup.insertionSort (· ≤ ·))

/-! ### `migrate` -/

/-- The snapshots of one package, by its filenames. -/
abbrev PackagePlan := String × List (String × ObjectSnapshot)

/-- The snapshots of a package. -/
def plan_package (key : String) : Run PackagePlan := do
  let files ← filenames.mapM (fun filename => do
    let content ← local_bytes env key filename
    return (filename, snapshot sha256 content))
  return (key, files)

/-- Whether an object is missing in the destination, where it may be equal. -/
def preflight_file (key : String) (file : String × ObjectSnapshot) : Run Bool := do
  let content ← local_bytes env key file.1
  if snapshot sha256 content ≠ file.2 then throw (.local_changed key file.1)
  else
    match ← remote_bytes env store key file.1 with
    | none =>
        count (fun report => { report with missing := report.missing + 1 })
        return true
    | some remote =>
        check_equal sha256 content (some remote) key file.1
        count (fun report => { report with equal := report.equal + 1 })
        return false

def preflight_package (package : PackagePlan) : Run Unit := do
  let missing ← package.2.mapM (preflight_file env sha256 store package.1)
  emit (.plan package.1 (missing.count true) (filenames.length - missing.count true))

/-- Everything before the first write that there may be. -/
def preflight (arguments : Arguments) : Run (List PackagePlan) :=
  match registry_keys arguments with
  | .error e => throw e
  | .ok keys => do
      count (fun report => { report with
        packages := keys.length, objects := keys.length * filenames.length })
      let snapshots ← keys.mapM (plan_package env sha256)
      snapshots.forM (preflight_package env sha256 store)
      return snapshots

/-- A local file that is still as it was planned. -/
def reread (package : PackagePlan) (file : String × ByteArray) : Run Unit :=
  if some (snapshot sha256 file.2) ≠ package.2.lookup file.1 then
    throw (.local_changed package.1 file.1)
  else return ()

/-- A file that is missing in the destination. -/
def missing_file (key : String) (file : String × ByteArray) :
    Run (Option (String × ByteArray)) := do
  match ← remote_bytes env store key file.1 with
  | none => return some file
  | some remote =>
      check_equal sha256 file.2 (some remote) key file.1
      return none

def copy_file (key : String) (file : String × ByteArray) : Run Unit := do
  let stored ← put_missing env sha256 store key file.1 file.2
  count (fun report => { report with copied := report.copied + stored.toNat })

def verify_file (key : String) (file : String × ByteArray) : Run Unit := do
  let remote ← remote_bytes env store key file.1
  check_equal sha256 file.2 remote key file.1

def copy_package (package : PackagePlan) : Run Unit := do
  let contents ← filenames.mapM (fun filename => do
    let content ← local_bytes env package.1 filename
    return (filename, content))
  contents.forM (reread sha256 package)
  -- both files are looked for before either is put
  let missing_files ← contents.mapM (missing_file env sha256 store package.1)
  missing_files.reduceOption.forM (copy_file env sha256 store package.1)
  contents.forM (verify_file env sha256 store package.1)
  count (fun report => { report with verified := report.verified + 1 })
  emit (.verified package.1 filenames.length)

def migrate (arguments : Arguments) : Run Report := do
  let snapshots ← preflight env sha256 store arguments
  if arguments.apply then
    snapshots.forM (copy_package env sha256 store)
    return (← get).report
  else return (← get).report

end Migration

end Storage
