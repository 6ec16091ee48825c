import BacktestVisualizer.Framework.Segments
import BacktestVisualizer.Framework.Storage
import BacktestVisualizer.Framework.Batches
import Mathlib

/-! # Strategy Stores

  `src/integrations/strategy_store.py`: the source of an uploaded strategy in
  a directory on disk or under a prefix of an S3 bucket. Text is a sequence
  of Unicode scalar values, so that it always encodes; an object is the bytes.

  The disk has no links, which is why `resolve` leaves a path as it is, and
  the bucket answers every request from one consistent map. What either of
  them refuses for reasons of its own (a length, a permission, a lost
  connection) is not modelled. The tables behind `casefold` are a parameter.
-/

namespace Storage

open FileTree

/-! ### Errors -/

/-- The texts of a `ValueError`. -/
inductive Refusal where
  /-- "strategy store key must not be empty". -/
  | empty_key
  /-- "invalid strategy store filename: ...". -/
  | invalid_filename (filename : String)
  /-- A `UnicodeDecodeError`, which is a `ValueError`. -/
  | undecodable
  deriving DecidableEq, Repr

/-- The texts of a `StrategyStoreError`. -/
inductive Failure where
  /-- "could not delete strategy key ...". -/
  | could_not_delete (key : String) (cause : OSError)
  /-- "refusing to materialize unsafe object key ...". -/
  | unsafe_object_key (object_key : String)
  /-- "... accessing stored object ...", of a file that cannot be written. -/
  | io_failed (object : String) (cause : OSError)
  /-- The same, of bytes that do not decode. -/
  | decode_failed (object : String)
  deriving DecidableEq, Repr

/-- What a call on a store raises. -/
inductive StoreError where
  | value_error (refusal : Refusal)
  | key_error (key : String)
  | store_error (failure : Failure)
  | os_error (error : OSError)
  deriving DecidableEq, Repr

/-! ### Keys and filenames -/

/-- `KEY_SEPARATOR`. -/
def key_separator : Char := '/'

/-- `STRATEGY_KEY_PREFIX`. -/
def strategy_key_prefix_text : String := "strategies"

/-- `_DELETE_BATCH`. -/
def delete_batch : ℕ := 1000

/-- `_WINDOWS_DEVICES`. -/
def windows_devices : List String :=
  ["CON", "PRN", "AUX", "NUL", "CONIN$", "CONOUT$"] ++
    ["COM", "LPT"].flatMap (fun port => "123456789¹²³".toList.map (fun digit => port.push digit))

/-- `strategy_key`. -/
def strategy_key (strategy_id : String) : String :=
  Segments.folder key_separator
    (strategy_key_prefix_text ++ String.singleton key_separator)
    (Segments.strip_of (· == key_separator) strategy_id)

/-- `_object_name`: the rules of Windows on every platform. -/
def object_name (filename : String) : Except Refusal String :=
  let stem := filename.toList.takeWhile (· != '.')
  let device := Text.upper (String.ofList (stem.reverse.dropWhile (· == ' ')).reverse)
  if filename = "" ∨ filename ≠ Segments.strip_of Text.is_space filename ∨
      Segments.ends_with '.' filename ∨
      filename.toList.any (fun c => c ∈ "/\\<>:\"|?*".toList || c.toNat < 32) ∨
      device ∈ windows_devices then
    .error (.invalid_filename filename)
  else .ok filename

/-- `_key_segments`. -/
def key_segments (key : String) : Except Refusal (List String) :=
  let parts := (Segments.split key_separator
    (Segments.strip_of (· == key_separator) key)).filter (fun part => part ≠ "")
  if parts = [] then .error .empty_key else parts.mapM object_name

/-- `_materialize_target`, below the destination. -/
def materialize_target (relative : String) : Except Refusal (List String) :=
  (Segments.split key_separator relative).mapM object_name

/-! ### On disk -/

/-- What is below the root of a store, or below a destination. -/
abbrev Disk := Tree String ByteArray

namespace LocalStrategyStore

/-- `_key_dir`. -/
def key_dir (key : String) : Except StoreError (List String) :=
  (key_segments key).mapError .value_error

/-- `_object_path`. -/
def object_path (key filename : String) : Except StoreError (List String) := do
  let directory ← key_dir key
  let name ← (object_name filename).mapError .value_error
  let below ← (materialize_target name).mapError .value_error
  .ok (directory ++ below)

def put (disk : Disk) (key filename content : String) : Except StoreError Disk := do
  let path ← object_path key filename
  (put_file disk path content.toUTF8).mapError .os_error

def get (disk : Disk) (key filename : String) : Except StoreError String := do
  let path ← object_path key filename
  match read_file disk path with
  | .ok bytes =>
      match String.fromUTF8? bytes with
      | some text => .ok text
      | none => .error (.value_error .undecodable)
  | .error .file_not_found => .error (.key_error (key ++ filename))
  | .error .not_a_directory => .error (.key_error (key ++ filename))
  | .error e => .error (.os_error e)

/-- `exists`. -/
def exists_ (disk : Disk) (key : String) : Except StoreError Bool := do
  let directory ← key_dir key
  .ok (is_dir disk directory && !(iterdir disk directory).isEmpty)

def delete (disk : Disk) (key : String) : Except StoreError Disk := do
  let directory ← key_dir key
  match rmtree disk directory with
  | .ok disk => .ok disk
  | .error .file_not_found => .ok disk
  | .error e => .error (.store_error (.could_not_delete key e))

/-- The files below a directory, each with its relative path. -/
def files_below (disk : Disk) (source : List String) : List (List String × ByteArray) :=
  ((rglob disk source).insertionSort (· ≤ ·)).filterMap (fun item =>
    match disk.get item with
    | some (.file bytes) => some (item.drop source.length, bytes)
    | _ => none)

/-- One file of `materialize`. -/
def copy (destination : Disk) (file : List String × ByteArray) : Except StoreError Disk :=
  let relative := Segments.join key_separator file.1
  match materialize_target relative with
  | .error _ => .error (.store_error (.unsafe_object_key relative))
  | .ok target => (put_file destination target file.2).mapError .os_error

def materialize (disk : Disk) (key : String) (destination : Disk) : Except StoreError Disk := do
  let source ← key_dir key
  if is_dir disk source then
    let files := files_below disk source
    let destination ← files.foldlM copy destination
    if files.isEmpty then .error (.key_error key) else .ok destination
  else .error (.key_error key)

end LocalStrategyStore

/-! ### In a bucket -/

/-- The objects of a bucket, by their whole keys. -/
abbrev Bucket := Keyed String ByteArray

/-- The bucket and the prefix a store was built with. -/
structure S3StrategyStore where
  bucket : String
  prefix_text : String

namespace S3StrategyStore

variable (casefold : String → String) (store : S3StrategyStore)

/-- `s3://<bucket>/<object key>`, as the messages name an object. -/
def uri (object_key : String) : String := "s3://" ++ store.bucket ++ "/" ++ object_key

/-- `_prefix_for`: the slash at the end is the boundary. -/
def prefix_for (key : String) : Except StoreError String := do
  let segments ← (key_segments key).mapError .value_error
  .ok (Segments.folder key_separator store.prefix_text (Segments.join key_separator segments))

/-- `_object_key`. -/
def object_key (key filename : String) : Except StoreError String := do
  let start ← prefix_for store key
  let name ← (object_name filename).mapError .value_error
  .ok (start ++ name)

/-- `_list_keys`, over all pages. A key that ends in a slash is a marker. -/
def list_keys (objects : Bucket) (key : String) (include_markers : Bool) :
    Except StoreError (List String) := do
  let start ← prefix_for store key
  let keys := (objects.keys.filter (Segments.starts_with · start)).insertionSort (· ≤ ·)
  .ok (keys.filter (fun k => include_markers || !Segments.ends_with key_separator k))

def put (objects : Bucket) (key filename content : String) : Except StoreError Bucket := do
  let k ← object_key store key filename
  .ok (objects.insert k content.toUTF8)

def get (objects : Bucket) (key filename : String) : Except StoreError String := do
  let k ← object_key store key filename
  match objects.get k with
  | some body =>
      match String.fromUTF8? body with
      | some text => .ok text
      | none => .error (.store_error (.decode_failed (uri store k)))
  | none => .error (.key_error (key ++ filename))

/-- `exists`. -/
def exists_ (objects : Bucket) (key : String) : Except StoreError Bool := do
  let keys ← list_keys store objects key false
  .ok (!keys.isEmpty)

def delete (objects : Bucket) (key : String) : Except StoreError Bucket := do
  let keys ← list_keys store objects key true
  .ok ((Batches.chunks delete_batch keys).foldl (fun objects chunk => objects.erase_all chunk) objects)

/-- What `materialize` has gathered before it writes anything. -/
structure Plan where
  targets : List (String × List String)
  paths : List String
  directories : List String

/-- One object of the first loop of `materialize`: two keys that would be one
    file on Windows are refused everywhere. -/
def plan_object (start : String) (plan : Plan) (object_key : String) : Except StoreError Plan :=
  let relative := Segments.drop_start object_key start
  match materialize_target relative with
  | .error _ => .error (.store_error (.unsafe_object_key (uri store object_key)))
  | .ok target =>
      let folded := casefold relative
      let parents := (target.inits.filter (fun p => p ≠ [] ∧ p ≠ target)).map (fun p =>
        casefold (Segments.join key_separator p))
      if folded ∈ plan.paths ∨ folded ∈ plan.directories ∨ ∃ p ∈ parents, p ∈ plan.paths then
        .error (.store_error (.unsafe_object_key (uri store object_key)))
      else
        .ok { targets := plan.targets ++ [(object_key, target)]
              paths := folded :: plan.paths
              directories := parents ++ plan.directories }

/-- One object of its second loop. -/
def download (objects : Bucket) (destination : Disk) (item : String × List String) :
    Except StoreError Disk :=
  match objects.get item.1 with
  | none => .error (.key_error item.1)
  | some body =>
      (put_file destination item.2 body).mapError (fun e =>
        .store_error (.io_failed (uri store item.1) e))

def materialize (objects : Bucket) (key : String) (destination : Disk) :
    Except StoreError Disk := do
  let start ← prefix_for store key
  let keys ← list_keys store objects key false
  let plan ← keys.foldlM (plan_object casefold store start)
    { targets := [], paths := [], directories := [] }
  if plan.targets.isEmpty then .error (.key_error key)
  else plan.targets.foldlM (download store objects) destination

end S3StrategyStore

/-! ### The protocol -/

/-- `StrategyStore`: what a caller knows of a store. -/
structure StrategyStore (σ : Type) where
  put : σ → String → String → String → Except StoreError σ
  get : σ → String → String → Except StoreError String
  exists_ : σ → String → Except StoreError Bool
  delete : σ → String → Except StoreError σ
  materialize : σ → String → Disk → Except StoreError Disk

def local_store : StrategyStore Disk where
  put := LocalStrategyStore.put
  get := LocalStrategyStore.get
  exists_ := LocalStrategyStore.exists_
  delete := LocalStrategyStore.delete
  materialize := LocalStrategyStore.materialize

def s3_store (casefold : String → String) (store : S3StrategyStore) : StrategyStore Bucket where
  put := S3StrategyStore.put store
  get := S3StrategyStore.get store
  exists_ := S3StrategyStore.exists_ store
  delete := S3StrategyStore.delete store
  materialize := S3StrategyStore.materialize casefold store

end Storage
