import BacktestVisualizer.Storage.Materialize

/-! # Package Writes are All or Nothing

  `store_strategy_source` of `src/services/strategy_validation/packaging.py`:
  the source and the config of an upload go into the strategy store together.
  A put may fail at any point of its work, on disk with directories made or
  with a torn file, in a bucket with the object in place and the response
  lost. What a failed call leaves behind is swept, and only what this call has
  put.

  `json.dumps` is a parameter.
-/

namespace Storage

open FileTree

/-! ### A store whose calls may fail -/

/-- A store, each call of which may be given a fault. -/
structure PackageStore (σ φ δ : Type) where
  exists_ : σ → String → Except StoreError Bool
  get : σ → String → String → Except StoreError String
  put : Option φ → σ → String → String → String → σ × Except StoreError Unit
  delete : Option δ → σ → String → σ × Except StoreError Unit

/-- The faults of one call of `store_strategy_source`, those of a put and of a
    get by the filename. -/
structure Faults (φ δ : Type) where
  exists_ : Option StoreError
  get : String → Option StoreError
  put : String → Option φ
  delete : Option δ

/-- No read fails. -/
def Faults.Readable {φ δ : Type} (faults : Faults φ δ) : Prop :=
  faults.exists_ = none ∧ ∀ filename, faults.get filename = none

/-- A read, unless it fails. -/
def reading {α : Type} (fault : Option StoreError) (answer : Except StoreError α) :
    Except StoreError α :=
  match fault with
  | some e => .error e
  | none => answer

/-- A call that is not given a fault: one that raises has done nothing. -/
def unfaulted {σ : Type} (s : σ) : Except StoreError σ → σ × Except StoreError Unit
  | .ok s' => (s', .ok ())
  | .error e => (s, .error e)

/-- A call that raises once its work is done. -/
def faulted {σ : Type} (e : StoreError) (s : σ) : Except StoreError σ → σ × Except StoreError Unit
  | .ok s' => (s', .error e)
  | .error e' => (s, .error e')

/-- A sweep that stops halfway: what is gone by then. -/
structure SweepFault (ρ : Type) where
  gone : List ρ
  error : StoreError

/-! ### `store_strategy_source` -/

/-- `SOURCE_FILENAME`. -/
def source_filename : String := "strategy.py"

/-- `CONFIG_FILENAME`. -/
def config_filename : String := "config.json"

def package_files : List String := [source_filename, config_filename]

/-- What `store_strategy_source` raises. -/
inductive PackageError where
  /-- The config is not JSON. -/
  | unserialisable
  /-- The source does not encode. -/
  | unencodable
  /-- What the store raised before anything was put. -/
  | raised (e : StoreError)
  /-- "refusing to replace existing strategy package ...". -/
  | refusing_to_replace (storage : String)
  /-- What a put raised, with what the cleanup raised as its note. -/
  | put_failed (e : StoreError) (cleanup : Option StoreError)
  deriving DecidableEq, Repr

section
variable {σ φ δ γ : Type} (store : PackageStore σ φ δ) (dumps : γ → Option String)

/-- Whether the two objects are there as they would be written. -/
def holds_package (faults : Faults φ δ) (s : σ) (storage source config_source : String) :
    Except StoreError Bool := do
  let stored ← reading (faults.get source_filename) (store.get s storage source_filename)
  if stored = source then
    let stored ← reading (faults.get config_filename) (store.get s storage config_filename)
    .ok (stored = config_source)
  else .ok false

/-- The two puts. -/
def put_package (faults : Faults φ δ) (s : σ) (storage source config_source : String) :
    σ × Except StoreError Unit :=
  match store.put (faults.put source_filename) s storage source_filename source with
  | (s, .error e) => (s, .error e)
  | (s, .ok ()) => store.put (faults.put config_filename) s storage config_filename config_source

/-- `store_strategy_source`. No text is a source with a lone surrogate, which
    does not encode. -/
def store_strategy_source (faults : Faults φ δ) (s : σ) (key : String) (source : Option String)
    (config : γ) : σ × Except PackageError String :=
  match dumps config, source with
  | none, _ => (s, .error .unserialisable)
  | some _, none => (s, .error .unencodable)
  | some text, some source =>
      let config_source := text ++ "\n"
      let storage := strategy_key key
      match reading faults.exists_ (store.exists_ s storage) with
      | .error e => (s, .error (.raised e))
      | .ok true =>
          match holds_package store faults s storage source config_source with
          | .ok true => (s, .ok storage)
          | .ok false => (s, .error (.refusing_to_replace storage))
          | .error (.key_error _) => (s, .error (.refusing_to_replace storage))
          | .error e => (s, .error (.raised e))
      | .ok false =>
          match put_package store faults s storage source config_source with
          | (s, .ok ()) => (s, .ok storage)
          | (s, .error e) =>
              -- the first put is swept as well: it may have been accepted
              match store.delete faults.delete s storage with
              | (s, .ok ()) => (s, .error (.put_failed e none))
              | (s, .error cleanup) => (s, .error (.put_failed e (some cleanup)))

end

/-! ### On disk and in a bucket -/

/-- How a put on disk breaks off. -/
inductive DiskFault where
  /-- Of the directories on the way so many are there, and no file. -/
  | made (directories : ℕ) (e : StoreError)
  /-- The file holds these bytes, which may be all of them. -/
  | torn (bytes : ByteArray) (e : StoreError)

def LocalStrategyStore.put_faulted (fault : Option DiskFault) (disk : Disk)
    (key filename content : String) : Disk × Except StoreError Unit :=
  match fault with
  | none => unfaulted disk (put disk key filename content)
  | some (.made directories e) => faulted e disk (do
      let path ← object_path key filename
      (mkdir disk (path.dropLast.take directories)).mapError .os_error)
  | some (.torn bytes e) => faulted e disk (do
      let path ← object_path key filename
      (put_file disk path bytes).mapError .os_error)

def LocalStrategyStore.delete_faulted (fault : Option (SweepFault (List String))) (disk : Disk)
    (key : String) : Disk × Except StoreError Unit :=
  match fault with
  | none => unfaulted disk (delete disk key)
  | some sweep => faulted sweep.error disk (do
      let directory ← key_dir key
      .ok (disk.erase_all (sweep.gone.filter (fun p => directory.isPrefixOf p ∧ p ≠ directory))))

def local_packages : PackageStore Disk DiskFault (SweepFault (List String)) where
  exists_ := LocalStrategyStore.exists_
  get := LocalStrategyStore.get
  put := LocalStrategyStore.put_faulted
  delete := LocalStrategyStore.delete_faulted

/-- How a put into a bucket fails: an object is whole or not there. -/
inductive BucketFault where
  | refused (e : StoreError)
  /-- The response was lost. -/
  | late (e : StoreError)

section
variable (store : S3StrategyStore)

def S3StrategyStore.put_faulted (fault : Option BucketFault) (objects : Bucket)
    (key filename content : String) : Bucket × Except StoreError Unit :=
  match fault with
  | none => unfaulted objects (store.put objects key filename content)
  | some (.refused e) => (objects, .error e)
  | some (.late e) => faulted e objects (store.put objects key filename content)

def S3StrategyStore.delete_faulted (fault : Option (SweepFault String)) (objects : Bucket)
    (key : String) : Bucket × Except StoreError Unit :=
  match fault with
  | none => unfaulted objects (store.delete objects key)
  | some sweep => faulted sweep.error objects (do
      let start ← store.prefix_for key
      .ok (objects.erase_all (sweep.gone.filter (Segments.starts_with · start))))

def s3_packages : PackageStore Bucket BucketFault (SweepFault String) where
  exists_ := store.exists_
  get := store.get
  put := store.put_faulted
  delete := store.delete_faulted

end

/-! ### What is asked of a store -/

/-- Where a store keeps its objects. -/
structure Layout (σ ρ : Type) where
  Valid : σ → Prop
  objects : σ → ρ → Option ByteArray
  place : String → String → Except StoreError ρ
  Inside : String → ρ → Prop

/-- The store holds under the key what it held before. -/
def Layout.Untouched {σ ρ : Type} (layout : Layout σ ρ) (s s' : σ) : Prop :=
  ∀ r, layout.objects s' r = layout.objects s r

/-- What the calls on a store do to its objects, whatever fails. -/
structure PackageStore.Lawful {σ ρ φ δ : Type} [DecidableEq ρ] (store : PackageStore σ φ δ)
    (layout : Layout σ ρ) : Prop where
  placed : ∀ {s key b filename}, store.exists_ s key = .ok b → filename ∈ package_files →
    ∃ r, layout.place key filename = .ok r
  inside : ∀ {key filename r}, layout.place key filename = .ok r → layout.Inside key r
  apart : ∀ {key filename filename' r}, layout.place key filename = .ok r →
    layout.place key filename' = .ok r → filename = filename'
  answers : ∀ {s key b}, store.exists_ s key = .ok b → ∀ s', ∃ b', store.exists_ s' key = .ok b'
  exists_false : ∀ {s key r}, layout.Valid s → store.exists_ s key = .ok false →
    layout.Inside key r → layout.objects s r = none
  get_iff : ∀ {s key filename r}, layout.place key filename = .ok r → ∀ text : String,
    store.get s key filename = .ok text ↔ layout.objects s r = some text.toUTF8
  put_ok : ∀ {fault s key filename content s' r}, layout.Valid s →
    store.put fault s key filename content = (s', .ok ()) →
    layout.place key filename = .ok r → layout.Valid s' ∧
      ∀ q, layout.objects s' q = if q = r then some content.toUTF8 else layout.objects s q
  put_error : ∀ {fault s key filename content s' e r}, layout.Valid s →
    store.put fault s key filename content = (s', .error e) →
    layout.place key filename = .ok r → layout.Valid s' ∧
      ∀ q, q ≠ r → layout.objects s' q = layout.objects s q
  delete_ok : ∀ {fault s key s'}, layout.Valid s → store.delete fault s key = (s', .ok ()) →
    ∀ q, (layout.Inside key q → layout.objects s' q = none) ∧
      (¬ layout.Inside key q → layout.objects s' q = layout.objects s q)
  delete_error : ∀ {fault s key s' e}, layout.Valid s →
    store.delete fault s key = (s', .error e) →
    ∀ q, ¬ layout.Inside key q → layout.objects s' q = layout.objects s q

/-- **All or nothing**, and nothing is overwritten: what a call of
    `store_strategy_source` comes to. -/
structure PackageStore.AllOrNothing {σ ρ φ δ γ : Type} [DecidableEq ρ]
    (store : PackageStore σ φ δ) (layout : Layout σ ρ) (dumps : γ → Option String) : Prop where
  /-- A call that returns has left the source and the config, and no other
      object has changed. -/
  stored : ∀ {faults s key source config s' storage}, layout.Valid s →
    store_strategy_source store dumps faults s key source config = (s', .ok storage) →
    storage = strategy_key key ∧ ∃ content text p c, source = some content ∧
      dumps config = some text ∧ layout.place storage source_filename = .ok p ∧
      layout.place storage config_filename = .ok c ∧ p ≠ c ∧
      ∀ r, layout.objects s' r =
        if r = p then some content.toUTF8
        else if r = c then some (text ++ "\n").toUTF8
        else layout.objects s r
  /-- A call that raises has changed no object, unless its cleanup failed. -/
  undone : ∀ {faults s key source config s' e}, layout.Valid s →
    store_strategy_source store dumps faults s key source config = (s', .error e) →
    (∀ raised cleanup, e ≠ .put_failed raised (some cleanup)) → layout.Untouched s s'
  /-- A key that holds an object stays as it is. -/
  kept : ∀ faults {s key} source config {r}, layout.Valid s →
    layout.Inside (strategy_key key) r → layout.objects s r ≠ none →
    (store_strategy_source store dumps faults s key source config).1 = s
  /-- No call changes anything under another key, not even one whose cleanup
      failed. -/
  elsewhere : ∀ faults {s key} source config {r}, layout.Valid s →
    ¬ layout.Inside (strategy_key key) r →
    layout.objects (store_strategy_source store dumps faults s key source config).1 r =
      layout.objects s r
  /-- The same call again returns and changes nothing, as long as it can read. -/
  repeated : ∀ {faults s key source config s' storage}, layout.Valid s →
    store_strategy_source store dumps faults s key source config = (s', .ok storage) →
    ∀ faults', faults'.Readable →
      store_strategy_source store dumps faults' s' key source config = (s', .ok storage)

/-! ### The course of a call -/

section
variable {σ ρ φ δ γ : Type} {store : PackageStore σ φ δ} {dumps : γ → Option String}

theorem reading_ok {α : Type} {fault : Option StoreError} {answer : Except StoreError α} {a : α}
    (h : reading fault answer = .ok a) : answer = .ok a := by
  cases fault with
  | none => exact h
  | some e => exact absurd h (by simp [reading])

theorem holds_package_ok {faults : Faults φ δ} {s : σ} {storage source config_source : String}
    (h : holds_package store faults s storage source config_source = .ok true) :
    store.get s storage source_filename = .ok source ∧
      store.get s storage config_filename = .ok config_source := by
  obtain ⟨stored, hsource, hrest⟩ := Fallible.bind_ok h
  split at hrest
  · rename_i heq
    obtain ⟨stored', hconfig, hlast⟩ := Fallible.bind_ok hrest
    have heq' : stored' = config_source := by simpa using hlast
    rw [← heq, ← heq']
    exact ⟨reading_ok hsource, reading_ok hconfig⟩
  · exact absurd hrest (by simp)

theorem holds_package_of {faults : Faults φ δ} {s : σ} {storage source config_source : String}
    (hread : faults.Readable) (hsource : store.get s storage source_filename = .ok source)
    (hconfig : store.get s storage config_filename = .ok config_source) :
    holds_package store faults s storage source config_source = .ok true := by
  unfold holds_package
  rw [hread.2, hread.2, hsource, hconfig]
  simp [reading, bind, Except.bind]

/-- The ways a call may go. -/
inductive Course (store : PackageStore σ φ δ) (dumps : γ → Option String) (faults : Faults φ δ)
    (s : σ) (key : String) (source : Option String) (config : γ) :
    σ × Except PackageError String → Prop where
  /-- Raised before anything was put. -/
  | refused {e : PackageError} (h : ∀ raised cleanup, e ≠ .put_failed raised cleanup) :
      Course store dumps faults s key source config (s, .error e)
  /-- The package was there already. -/
  | retried {content text : String} (hsource : source = some content)
      (hdumps : dumps config = some text)
      (hexists : store.exists_ s (strategy_key key) = .ok true)
      (hholds : holds_package store faults s (strategy_key key) content (text ++ "\n") = .ok true) :
      Course store dumps faults s key source config (s, .ok (strategy_key key))
  /-- Both puts went through. -/
  | written {content text : String} {s' : σ} (hsource : source = some content)
      (hdumps : dumps config = some text)
      (hexists : store.exists_ s (strategy_key key) = .ok false)
      (hput : put_package store faults s (strategy_key key) content (text ++ "\n") = (s', .ok ())) :
      Course store dumps faults s key source config (s', .ok (strategy_key key))
  /-- A put failed and the key was swept. -/
  | swept {content config_source : String} {e : StoreError} {s₁ s' : σ}
      (hexists : store.exists_ s (strategy_key key) = .ok false)
      (hput : put_package store faults s (strategy_key key) content config_source = (s₁, .error e))
      (hdelete : store.delete faults.delete s₁ (strategy_key key) = (s', .ok ())) :
      Course store dumps faults s key source config (s', .error (.put_failed e none))
  /-- A put failed and so did the cleanup. -/
  | orphaned {content config_source : String} {e cleanup : StoreError} {s₁ s' : σ}
      (hexists : store.exists_ s (strategy_key key) = .ok false)
      (hput : put_package store faults s (strategy_key key) content config_source = (s₁, .error e))
      (hdelete : store.delete faults.delete s₁ (strategy_key key) = (s', .error cleanup)) :
      Course store dumps faults s key source config (s', .error (.put_failed e (some cleanup)))

theorem course (store : PackageStore σ φ δ) (dumps : γ → Option String) (faults : Faults φ δ)
    (s : σ) (key : String) (source : Option String) (config : γ) :
    Course store dumps faults s key source config
      (store_strategy_source store dumps faults s key source config) := by
  unfold store_strategy_source
  cases hdumps : dumps config with
  | none => exact .refused (by simp)
  | some text =>
    cases source with
    | none => exact .refused (by simp)
    | some content =>
      simp only
      cases hexists : reading faults.exists_ (store.exists_ s (strategy_key key)) with
      | error e => exact .refused (by simp)
      | ok b =>
        have hexists' := reading_ok hexists
        cases b with
        | true =>
          cases hholds : holds_package store faults s (strategy_key key) content (text ++ "\n") with
          | ok same =>
            cases same with
            | true => exact .retried rfl hdumps hexists' hholds
            | false => exact .refused (by simp)
          | error e =>
            cases e with
            | key_error k => exact .refused (by simp)
            | value_error r => exact .refused (by simp)
            | store_error f => exact .refused (by simp)
            | os_error e => exact .refused (by simp)
        | false =>
          cases hput : put_package store faults s (strategy_key key) content (text ++ "\n") with
          | mk s₁ r =>
            cases r with
            | ok _ => exact .written rfl hdumps hexists' hput
            | error e =>
              simp only
              cases hdelete : store.delete faults.delete s₁ (strategy_key key) with
              | mk s' r =>
                cases r with
                | ok _ => exact .swept hexists' hput hdelete
                | error cleanup => exact .orphaned hexists' hput hdelete

/-! ### All or nothing -/

variable [DecidableEq ρ] {layout : Layout σ ρ}

/-- Both names are accepted by the stores. -/
theorem package_file_ok {filename : String} (h : filename ∈ package_files) :
    refusal filename = none := by
  simp only [package_files, List.mem_cons, List.not_mem_nil, or_false] at h
  rcases h with rfl | rfl
  · decide +kernel
  · decide +kernel

theorem source_ne_config : source_filename ≠ config_filename := by decide

/-- Both objects of a package have a place, and not the same one. -/
theorem PackageStore.Lawful.places (law : store.Lawful layout) {s : σ} {key : String} {b : Bool}
    (h : store.exists_ s key = .ok b) :
    ∃ p c, layout.place key source_filename = .ok p ∧ layout.place key config_filename = .ok c ∧
      p ≠ c := by
  -- two filenames, and a place tells the filename
  have hsource : source_filename ∈ package_files := by simp [package_files]
  have hconfig : config_filename ∈ package_files := by simp [package_files]
  obtain ⟨p, hp⟩ := law.placed h hsource
  obtain ⟨c, hc⟩ := law.placed h hconfig
  refine ⟨p, c, hp, hc, ?_⟩
  intro heq
  rw [← heq] at hc
  exact source_ne_config (law.apart hp hc)

theorem PackageStore.Lawful.put_package_ok (law : store.Lawful layout) {faults : Faults φ δ}
    {s s' : σ} {storage source config_source : String} {p c : ρ} (hs : layout.Valid s)
    (hp : layout.place storage source_filename = .ok p)
    (hc : layout.place storage config_filename = .ok c) (hne : p ≠ c)
    (h : put_package store faults s storage source config_source = (s', .ok ())) :
    layout.Valid s' ∧ ∀ r, layout.objects s' r =
      if r = p then some source.toUTF8
      else if r = c then some config_source.toUTF8
      else layout.objects s r := by
  unfold put_package at h
  split at h
  · exact absurd h (by simp)
  · rename_i s₁ hfirst
    -- the second put leaves the first object
    obtain ⟨hs₁, hobjects₁⟩ := law.put_ok hs hfirst hp
    obtain ⟨hs', hobjects'⟩ := law.put_ok hs₁ h hc
    refine ⟨hs', ?_⟩
    intro r
    rw [hobjects', hobjects₁]
    by_cases hrp : r = p
    · rw [if_neg (by rw [hrp]; exact hne), if_pos hrp, if_pos hrp]
    · rw [if_neg hrp, if_neg hrp]

theorem PackageStore.Lawful.put_package_error (law : store.Lawful layout) {faults : Faults φ δ}
    {s s' : σ} {storage source config_source : String} {e : StoreError} {p c : ρ}
    (hs : layout.Valid s) (hp : layout.place storage source_filename = .ok p)
    (hc : layout.place storage config_filename = .ok c)
    (h : put_package store faults s storage source config_source = (s', .error e)) :
    layout.Valid s' ∧ ∀ r, r ≠ p → r ≠ c → layout.objects s' r = layout.objects s r := by
  unfold put_package at h
  split at h
  · rename_i s₁ e₁ hfirst
    obtain ⟨rfl, _⟩ := Prod.mk.inj h
    -- the first put failed, and there was no second
    obtain ⟨hs₁, hobjects₁⟩ := law.put_error hs hfirst hp
    exact ⟨hs₁, fun r hrp _ => hobjects₁ r hrp⟩
  · rename_i s₁ hfirst
    obtain ⟨hs₁, hobjects₁⟩ := law.put_ok hs hfirst hp
    obtain ⟨hs', hobjects'⟩ := law.put_error hs₁ h hc
    refine ⟨hs', ?_⟩
    intro r hrp hrc
    rw [hobjects' r hrc, hobjects₁, if_neg hrp]

/-- The puts touch nothing under another key. -/
theorem PackageStore.Lawful.put_package_elsewhere (law : store.Lawful layout)
    {faults : Faults φ δ} {s s' : σ} {storage source config_source : String} {b : Bool}
    {result : Except StoreError Unit} {r : ρ} (hs : layout.Valid s)
    (hexists : store.exists_ s storage = .ok b) (hr : ¬ layout.Inside storage r)
    (h : put_package store faults s storage source config_source = (s', result)) :
    layout.Valid s' ∧ layout.objects s' r = layout.objects s r := by
  obtain ⟨p, c, hp, hc, hne⟩ := law.places hexists
  have hrp : r ≠ p := by
    rintro rfl
    exact hr (law.inside hp)
  have hrc : r ≠ c := by
    rintro rfl
    exact hr (law.inside hc)
  cases result with
  | ok _ =>
    obtain ⟨hs', hobjects⟩ := law.put_package_ok hs hp hc hne h
    rw [hobjects, if_neg hrp, if_neg hrc]
    exact ⟨hs', rfl⟩
  | error e =>
    obtain ⟨hs', hobjects⟩ := law.put_package_error hs hp hc h
    exact ⟨hs', hobjects r hrp hrc⟩

/-- Once the package is there, a call that can read finds it. -/
theorem PackageStore.Lawful.finds_package (law : store.Lawful layout) {faults : Faults φ δ}
    {s s₀ : σ} {key content text : String} {config : γ} {b : Bool} {p c : ρ}
    (hs : layout.Valid s) (hread : faults.Readable) (hdumps : dumps config = some text)
    (hexists : store.exists_ s₀ (strategy_key key) = .ok b)
    (hp : layout.place (strategy_key key) source_filename = .ok p)
    (hc : layout.place (strategy_key key) config_filename = .ok c)
    (hsource : layout.objects s p = some content.toUTF8)
    (hconfig : layout.objects s c = some (text ++ "\n").toUTF8) :
    store_strategy_source store dumps faults s key (some content) config =
      (s, .ok (strategy_key key)) := by
  obtain ⟨b', hb'⟩ := law.answers hexists s
  have htrue : store.exists_ s (strategy_key key) = .ok true := by
    cases b' with
    | true => exact hb'
    | false =>
      have hnone := law.exists_false hs hb' (law.inside hp)
      rw [hsource] at hnone
      exact absurd hnone (by simp)
  have hholds := holds_package_of hread ((law.get_iff hp content).mpr hsource)
    ((law.get_iff hc (text ++ "\n")).mpr hconfig)
  unfold store_strategy_source
  rw [hdumps, hread.1]
  simp only [reading, htrue, hholds]

/-- **A lawful store** takes a package whole or not at all. -/
theorem PackageStore.Lawful.all_or_nothing (law : store.Lawful layout) :
    store.AllOrNothing layout dumps where
  stored := by
    intro faults s key source config s' storage hs h
    have hcourse := course store dumps faults s key source config
    rw [h] at hcourse
    cases hcourse with
    -- nothing is written again, the package is there as asked
    | retried hsource hdumps hexists hholds =>
      obtain ⟨p, c, hp, hc, hne⟩ := law.places hexists
      obtain ⟨hget, hget'⟩ := holds_package_ok hholds
      refine ⟨rfl, _, _, p, c, hsource, hdumps, hp, hc, hne, ?_⟩
      intro r
      split
      · rename_i hr
        rw [hr]
        exact (law.get_iff hp _).mp hget
      · split
        · rename_i hr
          rw [hr]
          exact (law.get_iff hc _).mp hget'
        · rfl
    | written hsource hdumps hexists hput =>
      obtain ⟨p, c, hp, hc, hne⟩ := law.places hexists
      exact ⟨rfl, _, _, p, c, hsource, hdumps, hp, hc, hne,
        (law.put_package_ok hs hp hc hne hput).2⟩
  undone := by
    intro faults s key source config s' e hs h hclean
    have hcourse := course store dumps faults s key source config
    rw [h] at hcourse
    intro r
    cases hcourse with
    | refused => rfl
    | swept hexists hput hdelete =>
      -- what the puts have left is swept away again
      by_cases hr : layout.Inside (strategy_key key) r
      · -- the key held nothing before, and holds nothing now
        obtain ⟨p, c, hp, hc, _⟩ := law.places hexists
        obtain ⟨hs₁, _⟩ := law.put_package_error hs hp hc hput
        rw [(law.delete_ok hs₁ hdelete r).1 hr, law.exists_false hs hexists hr]
      · obtain ⟨hs₁, hsame⟩ := law.put_package_elsewhere hs hexists hr hput
        rw [(law.delete_ok hs₁ hdelete r).2 hr, hsame]
    | orphaned => exact absurd rfl (hclean _ _)
  kept := by
    intro faults s key source config r hs hr hobject
    -- an object under the key is found by `exists`
    have hfull : store.exists_ s (strategy_key key) ≠ .ok false := by
      intro hexists
      exact hobject (law.exists_false hs hexists hr)
    have hcourse := course store dumps faults s key source config
    generalize store_strategy_source store dumps faults s key source config = out at hcourse ⊢
    cases hcourse with
    | refused => rfl
    | retried => rfl
    | written _ _ hexists => exact absurd hexists hfull
    | swept hexists => exact absurd hexists hfull
    | orphaned hexists => exact absurd hexists hfull
  elsewhere := by
    intro faults s key source config r hs hr
    have hcourse := course store dumps faults s key source config
    generalize store_strategy_source store dumps faults s key source config = out at hcourse ⊢
    cases hcourse with
    | refused => rfl
    | retried => rfl
    | written _ _ hexists hput => exact (law.put_package_elsewhere hs hexists hr hput).2
    | swept hexists hput hdelete =>
      obtain ⟨hs₁, hsame⟩ := law.put_package_elsewhere hs hexists hr hput
      rw [(law.delete_ok hs₁ hdelete r).2 hr, hsame]
    | orphaned hexists hput hdelete =>
      obtain ⟨hs₁, hsame⟩ := law.put_package_elsewhere hs hexists hr hput
      rw [law.delete_error hs₁ hdelete r hr, hsame]
  repeated := by
    intro faults s key source config s' storage hs h faults' hread
    have hcourse := course store dumps faults s key source config
    rw [h] at hcourse
    cases hcourse with
    | retried hsource hdumps hexists hholds =>
      obtain ⟨p, c, hp, hc, _⟩ := law.places hexists
      obtain ⟨hget, hget'⟩ := holds_package_ok hholds
      rw [hsource]
      exact law.finds_package hs hread hdumps hexists hp hc ((law.get_iff hp _).mp hget)
        ((law.get_iff hc _).mp hget')
    | written hsource hdumps hexists hput =>
      obtain ⟨p, c, hp, hc, hne⟩ := law.places hexists
      obtain ⟨hs', hobjects⟩ := law.put_package_ok hs hp hc hne hput
      have hthere : layout.objects s' p = _ := (hobjects p).trans (if_pos rfl)
      have hthere' : layout.objects s' c = _ :=
        (hobjects c).trans ((if_neg hne.symm).trans (if_pos rfl))
      rw [hsource]
      exact law.finds_package hs' hread hdumps hexists hp hc hthere hthere'

end

/-! ### Outcomes -/

theorem unfaulted_cases {σ : Type} {s s' : σ} {answer : Except StoreError σ}
    {result : Except StoreError Unit} (h : unfaulted s answer = (s', result)) :
    (result = .ok () ∧ answer = .ok s') ∨ ((∃ e, result = .error e) ∧ s' = s) := by
  cases answer with
  | ok s₁ =>
    obtain ⟨rfl, rfl⟩ := Prod.mk.inj h
    exact Or.inl ⟨rfl, rfl⟩
  | error e =>
    obtain ⟨rfl, rfl⟩ := Prod.mk.inj h
    exact Or.inr ⟨⟨e, rfl⟩, rfl⟩

theorem unfaulted_ok {σ : Type} {s s' : σ} {answer : Except StoreError σ}
    (h : unfaulted s answer = (s', .ok ())) : answer = .ok s' := by
  rcases unfaulted_cases h with ⟨_, hanswer⟩ | ⟨⟨e, he⟩, _⟩
  · exact hanswer
  · exact absurd he (by simp)

theorem faulted_cases {σ : Type} {e : StoreError} {s s' : σ} {answer : Except StoreError σ}
    {result : Except StoreError Unit} (h : faulted e s answer = (s', result)) :
    (∃ e', result = .error e') ∧ (s' = s ∨ answer = .ok s') := by
  cases answer with
  | ok s₁ =>
    obtain ⟨rfl, rfl⟩ := Prod.mk.inj h
    exact ⟨⟨e, rfl⟩, Or.inr rfl⟩
  | error e' =>
    obtain ⟨rfl, rfl⟩ := Prod.mk.inj h
    exact ⟨⟨e', rfl⟩, Or.inl rfl⟩

/-- What fails is never reported as done. -/
theorem faulted_ne_ok {σ : Type} {e : StoreError} {s s' : σ} {answer : Except StoreError σ} :
    faulted e s answer ≠ (s', .ok ()) := by
  intro h
  obtain ⟨⟨e', he'⟩, _⟩ := faulted_cases h
  exact absurd he' (by simp)

/-! ### The disk is lawful -/

/-- The bytes that decode to a text are its own. -/
theorem fromUTF8?_iff {bytes : ByteArray} {text : String} :
    String.fromUTF8? bytes = some text ↔ bytes = text.toUTF8 := by
  constructor
  · intro h
    unfold String.fromUTF8? at h
    split at h
    · rw [← Option.some.inj h]
      rfl
    · exact absurd h (by simp)
  · rintro rfl
    exact fromUTF8?_toUTF8 text

def local_layout : Layout Disk (List String) where
  Valid := WellFormed
  objects := file_at
  place := LocalStrategyStore.object_path
  Inside := fun key r => ∃ directory, LocalStrategyStore.key_dir key = .ok directory ∧
    directory <+: r ∧ r ≠ directory

namespace LocalStrategyStore

theorem key_dir_ok {key : String} {directory : List String} (h : key_dir key = .ok directory) :
    directory ≠ [] := (S3StrategyStore.key_segments_ok (Fallible.mapError_ok.mp h)).1

/-- An object lies in the directory of its key, under its filename. -/
theorem object_path_ok {key filename : String} {path : List String}
    (h : object_path key filename = .ok path) :
    ∃ directory, key_dir key = .ok directory ∧ path = directory ++ [filename] := by
  obtain ⟨directory, hdirectory, hrest⟩ := Fallible.bind_ok h
  obtain ⟨name, hname, hrest⟩ := Fallible.bind_ok hrest
  obtain ⟨below, hbelow, hlast⟩ := Fallible.bind_ok hrest
  have hchecked := Fallible.mapError_ok.mp hname
  obtain ⟨rfl, _⟩ := object_name_ok hchecked
  have hrefusal : refusal name = none := by
    unfold refusal
    rw [hchecked]
  have hone := materialize_target_of_refusal hrefusal
  rw [Fallible.mapError_ok, hone] at hbelow
  refine ⟨directory, hdirectory, ?_⟩
  rw [← Except.ok.inj hlast, Except.ok.inj hbelow]

theorem object_path_of {key filename : String} {directory : List String}
    (h : key_dir key = .ok directory) (hname : refusal filename = none) :
    object_path key filename = .ok (directory ++ [filename]) := by
  have htarget := materialize_target_of_refusal hname
  unfold object_path
  rw [h, object_name_of_refusal hname]
  show ((materialize_target filename).mapError StoreError.value_error).bind _ = _
  rw [htarget]
  rfl

/-- What a put has done to the disk, whether it returns or raises. -/
theorem put_faulted_cases {fault : Option DiskFault} {disk disk' : Disk}
    {key filename content : String} {result : Except StoreError Unit} {path : List String}
    (h : put_faulted fault disk key filename content = (disk', result))
    (hpath : object_path key filename = .ok path) :
    (result = .ok () ∧ put_file disk path content.toUTF8 = .ok disk') ∨
      ((∃ e, result = .error e) ∧ (disk' = disk ∨
        (∃ directories, mkdir disk (path.dropLast.take directories) = .ok disk') ∨
        ∃ bytes, put_file disk path bytes = .ok disk')) := by
  unfold put_faulted at h
  cases fault with
  | none =>
    rcases unfaulted_cases h with ⟨hresult, hput⟩ | ⟨hresult, rfl⟩
    · have hwrite := Fallible.bind_ok_of hpath hput
      exact Or.inl ⟨hresult, Fallible.mapError_ok.mp hwrite⟩
    · exact Or.inr ⟨hresult, Or.inl rfl⟩
  | some fault =>
    cases fault with
    | made directories e =>
      simp only at h
      obtain ⟨hresult, rfl | hmade⟩ := faulted_cases h
      · exact Or.inr ⟨hresult, Or.inl rfl⟩
      · have hmkdir := Fallible.bind_ok_of hpath hmade
        exact Or.inr ⟨hresult, Or.inr (Or.inl ⟨directories, Fallible.mapError_ok.mp hmkdir⟩)⟩
    | torn bytes e =>
      simp only at h
      obtain ⟨hresult, rfl | htorn⟩ := faulted_cases h
      · exact Or.inr ⟨hresult, Or.inl rfl⟩
      · have hwrite := Fallible.bind_ok_of hpath htorn
        exact Or.inr ⟨hresult, Or.inr (Or.inr ⟨bytes, Fallible.mapError_ok.mp hwrite⟩)⟩

/-- Nothing is below a directory that `exists` does not find. -/
theorem nothing_below {disk : Disk} {key : String} {directory r : List String}
    (hdisk : WellFormed disk) (h : exists_ disk key = .ok false)
    (hdirectory : key_dir key = .ok directory) (hbelow : directory <+: r) (hr : r ≠ directory) :
    disk.get r = none := by
  unfold exists_ at h
  rw [hdirectory] at h
  have hfalse : (is_dir disk directory && !(iterdir disk directory).isEmpty) = false :=
    Except.ok.inj h
  by_contra hget
  have hdir : is_dir disk directory = true :=
    (is_dir_iff (key_dir_ok hdirectory)).mpr
      (hdisk directory r hbelow (key_dir_ok hdirectory) hr.symm hget)
  obtain ⟨p, hp⟩ := hdisk.entry hbelow hr hget
  have hempty : iterdir disk directory = [] := by
    rw [hdir, Bool.true_and, Bool.not_eq_false', List.isEmpty_iff] at hfalse
    exact hfalse
  rw [hempty] at hp
  exact absurd hp List.not_mem_nil

/-- A sweep that succeeds leaves no object of its key, and all the others. -/
theorem delete_ok {disk disk' : Disk} {key : String} {directory : List String}
    (hdisk : WellFormed disk) (h : delete disk key = .ok disk')
    (hdirectory : key_dir key = .ok directory) (q : List String) :
    file_at disk' q = if directory <+: q ∧ q ≠ directory then none else file_at disk q := by
  have hsweep := Fallible.bind_ok_of hdirectory h
  cases hrm : rmtree disk directory with
  | ok swept =>
    simp only [hrm] at hsweep
    obtain rfl := Except.ok.inj hsweep
    obtain ⟨hdir, _, hget⟩ := hdisk.rmtree hrm
    -- the sweep takes the whole directory
    by_cases hin : directory <+: q
    · have hgone : file_at swept q = none := file_at_none (by rw [hget, if_pos hin])
      split
      · exact hgone
      · rename_i hself
        -- the directory itself was no file
        obtain rfl : q = directory := by simpa [hin] using hself
        have hbefore : file_at disk q = none := by
          unfold file_at
          rw [hdir]
        rw [hgone, hbefore]
    · rw [if_neg (fun hboth => hin hboth.1)]
      exact file_at_of_get (by rw [hget, if_neg hin])
  | error e =>
    cases e with
    | file_not_found =>
      simp only [hrm] at hsweep
      obtain rfl := Except.ok.inj hsweep
      -- no directory, so there was nothing to sweep
      have hdir : disk.get directory ≠ some .dir := by
        intro hdir
        obtain ⟨swept, hswept, _⟩ := rmtree_ok hdir
        rw [hswept] at hrm
        exact absurd hrm (by simp)
      split
      · rename_i hin
        exact file_at_none (hdisk.bare (key_dir_ok hdirectory) hdir hin.1 hin.2)
      · rfl
    | not_a_directory => simp [hrm] at hsweep
    | is_a_directory => simp [hrm] at hsweep
    | file_exists => simp [hrm] at hsweep

theorem delete_faulted_ok {fault : Option (SweepFault (List String))} {disk disk' : Disk}
    {key : String} (h : delete_faulted fault disk key = (disk', .ok ())) :
    delete disk key = .ok disk' := by
  unfold delete_faulted at h
  cases fault with
  | none => exact unfaulted_ok h
  | some sweep => exact absurd h faulted_ne_ok

/-- A sweep that fails takes no object of another key with it. -/
theorem delete_faulted_elsewhere {fault : Option (SweepFault (List String))}
    {disk disk' : Disk} {key : String} {e : StoreError} {q : List String}
    (h : delete_faulted fault disk key = (disk', .error e))
    (hout : ∀ directory, key_dir key = .ok directory → ¬ (directory <+: q ∧ q ≠ directory)) :
    file_at disk' q = file_at disk q := by
  unfold delete_faulted at h
  cases fault with
  | none =>
    rcases unfaulted_cases h with ⟨hok, _⟩ | ⟨_, rfl⟩
    · exact absurd hok (by simp)
    · rfl
  | some sweep =>
    simp only at h
    obtain ⟨_, rfl | hswept⟩ := faulted_cases h
    · rfl
    · obtain ⟨directory, hdirectory, hlast⟩ := Fallible.bind_ok hswept
      obtain rfl := Except.ok.inj hlast
      apply file_at_of_get
      rw [Keyed.get_erase_all, if_neg]
      intro hmem
      have hin := (List.mem_filter.mp hmem).2
      simp only [List.isPrefixOf_iff_prefix, decide_eq_true_eq] at hin
      exact hout directory hdirectory hin

end LocalStrategyStore

theorem local_lawful : local_packages.Lawful local_layout where
  placed := by
    intro s key b filename h hname
    obtain ⟨directory, hdirectory, _⟩ := Fallible.bind_ok h
    exact ⟨_, LocalStrategyStore.object_path_of hdirectory
      (package_file_ok hname)⟩
  inside := by
    intro key filename r h
    obtain ⟨directory, hdirectory, rfl⟩ := LocalStrategyStore.object_path_ok h
    exact ⟨directory, hdirectory, List.prefix_append _ _, by simp⟩
  apart := by
    intro key filename filename' r h h'
    obtain ⟨directory, hdirectory, rfl⟩ := LocalStrategyStore.object_path_ok h
    obtain ⟨directory', _, heq⟩ := LocalStrategyStore.object_path_ok h'
    exact (List.cons.inj (List.append_inj' heq rfl).2).1
  answers := by
    intro s key b h s'
    obtain ⟨directory, hdirectory, _⟩ := Fallible.bind_ok h
    refine ⟨is_dir s' directory && !(iterdir s' directory).isEmpty, ?_⟩
    show LocalStrategyStore.exists_ s' key = _
    unfold LocalStrategyStore.exists_
    rw [hdirectory]
    rfl
  exists_false := by
    intro s key r hs h hin
    obtain ⟨directory, hdirectory, hbelow, hr⟩ := hin
    exact file_at_none (LocalStrategyStore.nothing_below hs h hdirectory hbelow hr)
  get_iff := by
    intro s key filename r h text
    show LocalStrategyStore.get s key filename = .ok text ↔ file_at s r = some text.toUTF8
    have hpath : LocalStrategyStore.object_path key filename = .ok r := h
    rw [file_at_eq]
    simp only [LocalStrategyStore.get, hpath, bind, Except.bind, read_file]
    cases hget : s.get r with
    | none =>
      simp only [reduceCtorEq, iff_false]
      -- either way the file cannot be read
      rcases missing_cases s r with hmissing | hmissing
      · simp [hmissing]
      · simp [hmissing]
    | some entry =>
      cases entry with
      | dir => simp
      | file bytes =>
        simp only [Option.some.injEq, Entry.file.injEq, ← fromUTF8?_iff]
        cases String.fromUTF8? bytes with
        | none => simp
        | some text' => simp
  put_ok := by
    intro fault s key filename content s' r hs h hplace
    rcases LocalStrategyStore.put_faulted_cases h hplace with ⟨_, hput⟩ | ⟨⟨e, he⟩, _⟩
    · exact ⟨hs.put_file hput, file_at_put_file hput⟩
    · exact absurd he (by simp)
  put_error := by
    intro fault s key filename content s' e r hs h hplace
    rcases LocalStrategyStore.put_faulted_cases h hplace with ⟨hok, _⟩ | ⟨_, hdone⟩
    · exact absurd hok (by simp)
    · rcases hdone with rfl | ⟨directories, hmkdir⟩ | ⟨bytes, hput⟩
      · exact ⟨hs, fun _ _ => rfl⟩
      · exact ⟨hs.mkdir hmkdir, fun q _ => file_at_mkdir hmkdir q⟩
      · exact ⟨hs.put_file hput, fun q hq => by
          show file_at s' q = file_at s q
          rw [file_at_put_file hput, if_neg hq]⟩
  delete_ok := by
    intro fault s key s' hs h q
    have hdelete := LocalStrategyStore.delete_faulted_ok h
    obtain ⟨directory, hdirectory, _⟩ := Fallible.bind_ok hdelete
    have hobjects := LocalStrategyStore.delete_ok hs hdelete hdirectory q
    constructor
    · intro hin
      obtain ⟨directory', hdirectory', hbelow⟩ := hin
      rw [hdirectory] at hdirectory'
      obtain rfl := Except.ok.inj hdirectory'
      exact hobjects.trans (if_pos hbelow)
    · intro hout
      exact hobjects.trans (if_neg (fun hbelow => hout ⟨directory, hdirectory, hbelow⟩))
  delete_error := by
    intro fault s key s' e hs h q hout
    exact LocalStrategyStore.delete_faulted_elsewhere h
      (fun directory hdirectory hbelow => hout ⟨directory, hdirectory, hbelow⟩)

/-! ### The bucket is lawful -/

/-- A marker is no object: `exists` and every read pass over it, and only a
    sweep takes it along. -/
def s3_layout (store : S3StrategyStore) : Layout Bucket String where
  Valid := fun _ => True
  objects := fun objects k =>
    if Segments.ends_with key_separator k then none else objects.get k
  place := store.object_key
  Inside := fun key k => ∃ start, store.prefix_for key = .ok start ∧
    Segments.starts_with k start = true

namespace S3StrategyStore

variable {store : S3StrategyStore}

theorem mem_list_keys {objects : Bucket} {key start : String} {include_markers : Bool}
    {keys : List String} (hstart : store.prefix_for key = .ok start)
    (h : store.list_keys objects key include_markers = .ok keys) (k : String) :
    k ∈ keys ↔ objects.get k ≠ none ∧ Segments.starts_with k start = true ∧
      (include_markers = true ∨ Segments.ends_with key_separator k = false) := by
  unfold list_keys at h
  rw [hstart] at h
  rw [← Except.ok.inj h, List.mem_filter, List.mem_insertionSort, List.mem_filter, Keyed.mem_keys]
  simp [and_assoc]

/-- An object key is the start of its key and its filename. -/
theorem object_key_start {key filename k : String} (h : store.object_key key filename = .ok k) :
    ∃ start, store.prefix_for key = .ok start ∧ refusal filename = none ∧ k = start ++ filename := by
  obtain ⟨start, hstart, hrest⟩ := Fallible.bind_ok h
  obtain ⟨name, hname, hlast⟩ := Fallible.bind_ok hrest
  have hchecked := Fallible.mapError_ok.mp hname
  obtain ⟨rfl, _⟩ := object_name_ok hchecked
  refine ⟨start, hstart, ?_, (Except.ok.inj hlast).symm⟩
  unfold refusal
  rw [hchecked]

theorem object_key_of {key filename start : String} (h : store.prefix_for key = .ok start)
    (hname : refusal filename = none) : store.object_key key filename = .ok (start ++ filename) := by
  unfold object_key
  rw [h, object_name_of_refusal hname]
  rfl

theorem starts_with_append (start name : String) : Segments.starts_with (start ++ name) start := by
  unfold Segments.starts_with
  rw [String.toList_append, List.isPrefixOf_iff_prefix]
  exact List.prefix_append _ _

/-- No object of a package is a marker. -/
theorem object_key_no_marker {key filename k : String}
    (h : store.object_key key filename = .ok k) :
    Segments.ends_with key_separator k = false := by
  obtain ⟨start, _, hname, rfl⟩ := object_key_start h
  exact append_not_marker start hname

/-- A sweep erases whatever starts as the key does. -/
theorem delete_get {objects objects' : Bucket} {key start : String}
    (h : store.delete objects key = .ok objects') (hstart : store.prefix_for key = .ok start)
    (k : String) :
    objects'.get k = if Segments.starts_with k start then none else objects.get k := by
  obtain ⟨keys, hlist, hlast⟩ := Fallible.bind_ok h
  rw [← Except.ok.inj hlast, Keyed.foldl_erase_all, Keyed.get_erase_all]
  simp only [Batches.mem_flatten_chunks (show 0 < delete_batch by decide),
    mem_list_keys hstart hlist, true_or, and_true]
  by_cases hnone : objects.get k = none
  · rw [hnone, ite_self, ite_self]
  · simp only [hnone, ne_eq, not_false_eq_true, true_and]

theorem put_get {objects objects' : Bucket} {key filename content k : String}
    (h : store.put objects key filename content = .ok objects')
    (hk : store.object_key key filename = .ok k) (j : String) :
    objects'.get j = if j = k then some content.toUTF8 else objects.get j := by
  have hlast := Fallible.bind_ok_of hk h
  rw [← Except.ok.inj hlast, Keyed.get_insert]

/-- What a put has done to the bucket, whether it returns or raises. -/
theorem put_faulted_cases {fault : Option BucketFault} {objects objects' : Bucket}
    {key filename content : String} {result : Except StoreError Unit}
    (h : store.put_faulted fault objects key filename content = (objects', result)) :
    (result = .ok () ∧ store.put objects key filename content = .ok objects') ∨
      ((∃ e, result = .error e) ∧
        (objects' = objects ∨ store.put objects key filename content = .ok objects')) := by
  unfold put_faulted at h
  cases fault with
  | none =>
    rcases unfaulted_cases h with ⟨hresult, hput⟩ | ⟨hresult, rfl⟩
    · exact Or.inl ⟨hresult, hput⟩
    · exact Or.inr ⟨hresult, Or.inl rfl⟩
  | some fault =>
    cases fault with
    | refused e =>
      obtain ⟨rfl, rfl⟩ := Prod.mk.inj h
      exact Or.inr ⟨⟨e, rfl⟩, Or.inl rfl⟩
    | late e =>
      simp only at h
      exact Or.inr (faulted_cases h)

theorem delete_faulted_ok {fault : Option (SweepFault String)} {objects objects' : Bucket}
    {key : String} (h : store.delete_faulted fault objects key = (objects', .ok ())) :
    store.delete objects key = .ok objects' := by
  unfold delete_faulted at h
  cases fault with
  | none => exact unfaulted_ok h
  | some sweep => exact absurd h faulted_ne_ok

/-- A sweep that fails takes no object of another key with it. -/
theorem delete_faulted_elsewhere {fault : Option (SweepFault String)}
    {objects objects' : Bucket} {key k : String} {e : StoreError}
    (h : store.delete_faulted fault objects key = (objects', .error e))
    (hout : ∀ start, store.prefix_for key = .ok start → ¬ Segments.starts_with k start = true) :
    objects'.get k = objects.get k := by
  unfold delete_faulted at h
  cases fault with
  | none =>
    rcases unfaulted_cases h with ⟨hok, _⟩ | ⟨_, rfl⟩
    · exact absurd hok (by simp)
    · rfl
  | some sweep =>
    simp only at h
    obtain ⟨_, rfl | hswept⟩ := faulted_cases h
    · rfl
    · obtain ⟨start, hstart, hlast⟩ := Fallible.bind_ok hswept
      rw [← Except.ok.inj hlast, Keyed.get_erase_all, if_neg]
      intro hmem
      exact hout start hstart (List.mem_filter.mp hmem).2

/-- Whether a key can be listed at all does not depend on the bucket. -/
theorem prefix_for_of_exists {objects : Bucket} {key : String} {b : Bool}
    (h : store.exists_ objects key = .ok b) : ∃ start, store.prefix_for key = .ok start := by
  obtain ⟨keys, hlist, _⟩ := Fallible.bind_ok h
  obtain ⟨start, hstart, _⟩ := Fallible.bind_ok hlist
  exact ⟨start, hstart⟩

theorem exists_of_prefix_for {key start : String} (h : store.prefix_for key = .ok start)
    (objects : Bucket) : ∃ b, store.exists_ objects key = .ok b := by
  unfold exists_ list_keys
  rw [h]
  exact ⟨_, rfl⟩

end S3StrategyStore

theorem s3_lawful (store : S3StrategyStore) : (s3_packages store).Lawful (s3_layout store) where
  placed := by
    intro s key b filename h hname
    obtain ⟨start, hstart⟩ := S3StrategyStore.prefix_for_of_exists h
    exact ⟨_, S3StrategyStore.object_key_of hstart (package_file_ok hname)⟩
  inside := by
    intro key filename r h
    obtain ⟨start, hstart, _, rfl⟩ := S3StrategyStore.object_key_start h
    exact ⟨start, hstart, S3StrategyStore.starts_with_append start filename⟩
  apart := by
    intro key filename filename' r h h'
    exact (S3StrategyStore.object_key_inj h h').2
  answers := by
    intro s key b h s'
    obtain ⟨start, hstart⟩ := S3StrategyStore.prefix_for_of_exists h
    exact S3StrategyStore.exists_of_prefix_for hstart s'
  exists_false := by
    intro s key r _ h hin
    obtain ⟨start, hstart, hr⟩ := hin
    -- an empty listing has no object of the key
    obtain ⟨keys, hlist, hlast⟩ := Fallible.bind_ok h
    have hempty : keys = [] := by simpa using hlast
    show (if Segments.ends_with key_separator r then none else s.get r) = none
    split
    · rfl
    · rename_i hobject
      by_contra hget
      have hmem := (S3StrategyStore.mem_list_keys hstart hlist r).mpr
        ⟨hget, hr, Or.inr (by simpa using hobject)⟩
      rw [hempty] at hmem
      exact absurd hmem List.not_mem_nil
  get_iff := by
    intro s key filename r h text
    have hkey : store.object_key key filename = .ok r := h
    show store.get s key filename = .ok text ↔
      (if Segments.ends_with key_separator r then none else s.get r) = some text.toUTF8
    rw [S3StrategyStore.object_key_no_marker hkey]
    simp only [S3StrategyStore.get, hkey, bind, Except.bind]
    cases s.get r with
    | none => simp
    | some body =>
      simp only [Bool.false_eq_true, if_false, Option.some.injEq, ← fromUTF8?_iff]
      cases String.fromUTF8? body with
      | none => simp
      | some text' => simp
  put_ok := by
    intro fault s key filename content s' r _ h hplace
    refine ⟨trivial, ?_⟩
    intro q
    rcases S3StrategyStore.put_faulted_cases h with ⟨_, hput⟩ | ⟨⟨e, he⟩, _⟩
    · show (if Segments.ends_with key_separator q then none else s'.get q) = _
      rw [S3StrategyStore.put_get hput hplace]
      by_cases hq : q = r
      · rw [if_pos hq, if_pos hq, hq, S3StrategyStore.object_key_no_marker hplace]
        rfl
      · rw [if_neg hq, if_neg hq]
        rfl
    · exact absurd he (by simp)
  put_error := by
    intro fault s key filename content s' e r _ h hplace
    refine ⟨trivial, ?_⟩
    intro q hq
    rcases S3StrategyStore.put_faulted_cases h with ⟨hok, _⟩ | ⟨_, rfl | hput⟩
    · exact absurd hok (by simp)
    · rfl
    · show (if Segments.ends_with key_separator q then none else s'.get q) = _
      rw [S3StrategyStore.put_get hput hplace, if_neg hq]
      rfl
  delete_ok := by
    intro fault s key s' _ h q
    have hdelete := S3StrategyStore.delete_faulted_ok h
    obtain ⟨keys, hlist, _⟩ := Fallible.bind_ok hdelete
    obtain ⟨start, hstart, _⟩ := Fallible.bind_ok hlist
    have hget := S3StrategyStore.delete_get hdelete hstart q
    constructor
    · intro hin
      obtain ⟨start', hstart', hq⟩ := hin
      rw [hstart] at hstart'
      obtain rfl := Except.ok.inj hstart'
      show (if Segments.ends_with key_separator q then none else s'.get q) = none
      rw [hget, if_pos hq, ite_self]
    · intro hout
      show (if Segments.ends_with key_separator q then none else s'.get q) = _
      rw [hget, if_neg (fun hq => hout ⟨start, hstart, hq⟩)]
      rfl
  delete_error := by
    intro fault s key s' e _ h q hout
    show (if Segments.ends_with key_separator q then none else s'.get q) = _
    rw [S3StrategyStore.delete_faulted_elsewhere h
      (fun start hstart hq => hout ⟨start, hstart, hq⟩)]
    rfl

/-! ### Both stores -/

/-- **Package writes are all or nothing**, on any disk and in any bucket,
    whatever fails of their puts. -/
theorem package_writes {γ : Type} (dumps : γ → Option String) :
    local_packages.AllOrNothing local_layout dumps ∧
      ∀ store : S3StrategyStore, (s3_packages store).AllOrNothing (s3_layout store) dumps :=
  ⟨local_lawful.all_or_nothing, fun store => (s3_lawful store).all_or_nothing⟩

/-- The second put is accepted and its response lost. -/
def late_config : Faults BucketFault (SweepFault String) where
  exists_ := none
  get := fun _ => none
  put := fun filename => if filename = config_filename then
    some (.late (.store_error (.io_failed "config.json" .file_exists))) else none
  delete := none

example :
    let out := store_strategy_source (s3_packages { bucket := "b", prefix_text := "" })
      (fun _ : Unit => some "{}") late_config ∅ "a" (some "pass") ()
    out.1.entries = [] ∧
      out.2 = .error (.put_failed (.store_error (.io_failed "config.json" .file_exists)) none) := by
  decide +kernel

end Storage
