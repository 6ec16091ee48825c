import BacktestVisualizer.Storage.StrategyStore

/-! # The Stores are Interchangeable

  A store is a shelf of packages: for each strategy the texts of its files.
  Either backend answers from the shelf, with one exception. S3 will not
  materialize a package with two filenames that fold to one name, because
  they would be one file on Windows. The disk writes both files.
-/

namespace Storage

open FileTree

/-! ### Calls -/

/-- A strategy id of one path segment. -/
structure StrategyId where
  text : String
  nonempty : Segments.strip_of (· == key_separator) text ≠ ""
  uncut : Segments.Uncut key_separator (Segments.strip_of (· == key_separator) text)

def StrategyId.segment (id : StrategyId) : String :=
  Segments.strip_of (· == key_separator) id.text

def StrategyId.key (id : StrategyId) : String := strategy_key id.text

/-- A call on a store; each `materialize` has a destination of its own. -/
inductive Call where
  | put (id : StrategyId) (filename content : String)
  | get (id : StrategyId) (filename : String)
  | exists_ (id : StrategyId)
  | delete (id : StrategyId)
  | materialize (id : StrategyId)

inductive Outcome where
  | done
  | text (content : String)
  | found (there : Bool)
  | files (destination : Disk)
  | raised (e : StoreError)

/-- The same result: for `materialize` the same files with the same bytes. -/
def Outcome.Same : Outcome → Outcome → Prop
  | .files d, .files d' => d.entries.Perm d'.entries
  | o, o' => o = o'

section Run

variable {σ : Type}

/-- The reply to a call that changes the store. -/
def changed (s : σ) : Except StoreError σ → Outcome × σ
  | .ok s' => (.done, s')
  | .error e => (.raised e, s)

/-- The reply to a call that reads it. -/
def answered {α : Type} (outcome : α → Outcome) (s : σ) : Except StoreError α → Outcome × σ
  | .ok a => (outcome a, s)
  | .error e => (.raised e, s)

def StrategyStore.call (store : StrategyStore σ) (s : σ) : Call → Outcome × σ
  | .put id filename content => changed s (store.put s id.key filename content)
  | .get id filename => answered .text s (store.get s id.key filename)
  | .exists_ id => answered .found s (store.exists_ s id.key)
  | .delete id => changed s (store.delete s id.key)
  | .materialize id => answered .files s (store.materialize s id.key ∅)

/-- The outcomes of a sequence of calls, and the store after it. -/
def StrategyStore.run (store : StrategyStore σ) (s : σ) : List Call → List Outcome × σ
  | [] => ([], s)
  | c :: calls =>
      let (outcome, s) := store.call s c
      let (outcomes, s) := store.run s calls
      (outcome :: outcomes, s)

end Run

/-! ### The shelf -/

/-- The text of each file of each package. -/
abbrev Shelf := String → String → Option String

/-- The bytes of a package. -/
def Shelf.package (shelf : Shelf) (segment : String) : String → Option ByteArray :=
  fun name => (shelf segment name).map String.toUTF8

/-- The refusal of a name. -/
def refusal (name : String) : Option Refusal :=
  match object_name name with
  | .ok _ => none
  | .error r => some r

/-- The refusal of a call: the key is looked at before the filename. -/
def Call.refused : Call → Option Refusal
  | .put id filename _ => (refusal id.segment).or (refusal filename)
  | .get id filename => (refusal id.segment).or (refusal filename)
  | .exists_ id => refusal id.segment
  | .delete id => refusal id.segment
  | .materialize id => refusal id.segment

/-- What a call leaves on the shelf. -/
def Shelf.after (shelf : Shelf) (c : Call) : Shelf :=
  match c.refused, c with
  | none, .put id filename content => fun segment name =>
      if segment = id.segment ∧ name = filename then some content else shelf segment name
  | none, .delete id => fun segment name =>
      if segment = id.segment then none else shelf segment name
  | _, _ => shelf

section
variable {shelf : Shelf} {id : StrategyId} {filename content : String}

theorem Shelf.after_put (h : (Call.put id filename content).refused = none) :
    shelf.after (.put id filename content) = fun segment name =>
      if segment = id.segment ∧ name = filename then some content else shelf segment name := by
  unfold Shelf.after
  rw [h]

theorem Shelf.after_delete (h : (Call.delete id).refused = none) :
    shelf.after (.delete id) = fun segment name =>
      if segment = id.segment then none else shelf segment name := by
  unfold Shelf.after
  rw [h]

/-- A refused call leaves the shelf as it is, -/
theorem Shelf.after_refused {c : Call} {r : Refusal} (h : c.refused = some r) :
    shelf.after c = shelf := by
  unfold Shelf.after
  rw [h]

/-- and so does one that only reads. -/
@[simp] theorem Shelf.after_get : shelf.after (.get id filename) = shelf := by
  unfold Shelf.after
  cases (Call.get id filename).refused with
  | none => rfl
  | some r => rfl

@[simp] theorem Shelf.after_exists : shelf.after (.exists_ id) = shelf := by
  unfold Shelf.after
  cases (Call.exists_ id).refused with
  | none => rfl
  | some r => rfl

@[simp] theorem Shelf.after_materialize : shelf.after (.materialize id) = shelf := by
  unfold Shelf.after
  cases (Call.materialize id).refused with
  | none => rfl
  | some r => rfl

end

/-- The answer a shelf gives to a call. -/
def Answers (shelf : Shelf) (c : Call) (o : Outcome) : Prop :=
  match c.refused, c with
  | some r, _ => o = .raised (.value_error r)
  | none, .put _ _ _ => o = .done
  | none, .get id filename =>
      match shelf id.segment filename with
      | some content => o = .text content
      | none => o = .raised (.key_error (id.key ++ filename))
  | none, .exists_ id => ∃ there, o = .found there ∧
      (there = true ↔ ∃ name, shelf id.segment name ≠ none)
  | none, .delete _ => o = .done
  | none, .materialize id =>
      ((∀ name, shelf id.segment name = none) → o = .raised (.key_error id.key)) ∧
      ((∃ name, shelf id.segment name ≠ none) → ∃ d, o = .files d ∧
        Flat d (shelf.package id.segment))

/-- A call that asks for no two files whose names fold to one. -/
def Call.Unaliased (casefold : String → String) (shelf : Shelf) : Call → Prop
  | .materialize id => Set.InjOn casefold {name | shelf id.segment name ≠ none}
  | _ => True

/-- A sequence of such calls. -/
def Unaliased (casefold : String → String) (shelf : Shelf) : List Call → Prop
  | [] => True
  | c :: calls => c.Unaliased casefold shelf ∧ Unaliased casefold (shelf.after c) calls

/-- Only checked names are on the shelf. -/
def Shelf.Checked (shelf : Shelf) : Prop :=
  ∀ segment name, shelf segment name ≠ none → refusal segment = none ∧ refusal name = none

/-- The shelf decides the outcome. -/
theorem Answers.same {shelf : Shelf} {c : Call} {o o' : Outcome} (h : Answers shelf c o)
    (h' : Answers shelf c o') : o.Same o' := by
  have heq : ∀ o₁ : Outcome, o₁.Same o₁ := by
    intro o₁
    cases o₁ with
    | files d => exact List.Perm.refl _
    | done => rfl
    | text content => rfl
    | found there => rfl
    | raised e => rfl
  unfold Answers at h h'
  cases hrefused : c.refused with
  | some r =>
    simp only [hrefused] at h h'
    rw [h, h']
    exact heq _
  | none =>
    cases c with
    | put id filename content =>
      simp only [hrefused] at h h'
      rw [h, h']
      exact heq _
    | get id filename =>
      simp only [hrefused] at h h'
      cases hfile : shelf id.segment filename with
      | none =>
        simp only [hfile] at h h'
        rw [h, h']
        exact heq _
      | some content =>
        simp only [hfile] at h h'
        rw [h, h']
        exact heq _
    | exists_ id =>
      simp only [hrefused] at h h'
      obtain ⟨there, rfl, hthere⟩ := h
      obtain ⟨there', rfl, hthere'⟩ := h'
      rw [Bool.eq_iff_iff.mpr (hthere.trans hthere'.symm)]
      exact heq _
    | delete id =>
      simp only [hrefused] at h h'
      rw [h, h']
      exact heq _
    | materialize id =>
      simp only [hrefused] at h h'
      by_cases hempty : ∀ name, shelf id.segment name = none
      · rw [h.1 hempty, h'.1 hempty]
        exact heq _
      · have hsome : ∃ name, shelf id.segment name ≠ none := not_forall.mp hempty
        obtain ⟨d, rfl, hflat⟩ := h.2 hsome
        obtain ⟨d', rfl, hflat'⟩ := h'.2 hsome
        exact hflat.entries_perm hflat'

/-- The shelf has no failure of the store as an answer. -/
theorem Answers.ne_store_error {shelf : Shelf} {c : Call} {f : Failure} :
    ¬ Answers shelf c (.raised (.store_error f)) := by
  unfold Answers
  cases hrefused : c.refused with
  | some r => simp
  | none =>
    cases c with
    | put id filename content => simp
    | get id filename =>
      simp only
      cases shelf id.segment filename with
      | none => simp
      | some content => simp
    | exists_ id => simp
    | delete id => simp
    | materialize id =>
      rintro ⟨hmiss, hfiles⟩
      by_cases hempty : ∀ name, shelf id.segment name = none
      · exact absurd (hmiss hempty) (by simp)
      · obtain ⟨d, hd, _⟩ := hfiles (not_forall.mp hempty)
        exact absurd hd (by simp)

/-- What is the same as an error is that error. -/
theorem Outcome.Same.eq_raised {o : Outcome} {e : StoreError} (h : o.Same (.raised e)) :
    o = .raised e := by
  cases o with
  | raised e' => exact h
  | done => exact h
  | text content => exact h
  | found there => exact h
  | files d => exact h

theorem Shelf.Checked.after {shelf : Shelf} (h : shelf.Checked) (c : Call) :
    (shelf.after c).Checked := by
  unfold Shelf.after
  cases hrefused : c.refused with
  | some r => exact h
  | none =>
    cases c with
    | put id filename content =>
      intro segment name hput
      by_cases hhere : segment = id.segment ∧ name = filename
      · obtain ⟨rfl, rfl⟩ := hhere
        exact Option.or_eq_none_iff.mp hrefused
      · simp only [if_neg hhere] at hput
        exact h segment name hput
    | delete id =>
      intro segment name hkept
      by_cases hhere : segment = id.segment
      · simp only [if_pos hhere] at hkept
        exact absurd rfl hkept
      · simp only [if_neg hhere] at hkept
        exact h segment name hkept
    | get id filename => exact h
    | exists_ id => exact h
    | materialize id => exact h

/-! ### Names -/

theorem object_name_ok {name n : String} (h : object_name name = .ok n) :
    n = name ∧ name ≠ "" ∧ Segments.Uncut key_separator name := by
  unfold object_name at h
  simp only at h
  split at h
  · exact absurd h (by simp)
  · rename_i hvalid
    simp only [not_or] at hvalid
    obtain ⟨hne, _, _, hchars, _⟩ := hvalid
    refine ⟨(Except.ok.inj h).symm, hne, ?_⟩
    intro hmem
    apply hchars
    exact List.any_eq_true.mpr ⟨key_separator, hmem, by decide +kernel⟩

theorem object_name_of_refusal {name : String} (h : refusal name = none) :
    object_name name = .ok name := by
  unfold refusal at h
  cases hname : object_name name with
  | error r => simp [hname] at h
  | ok n => rw [(object_name_ok hname).1]

theorem object_name_of_refused {name : String} {r : Refusal} (h : refusal name = some r) :
    object_name name = .error r := by
  unfold refusal at h
  cases hname : object_name name with
  | error r' =>
    simp only [hname, Option.some.injEq] at h
    rw [h]
  | ok n => simp [hname] at h

theorem uncut_of_refusal {name : String} (h : refusal name = none) :
    Segments.Uncut key_separator name := (object_name_ok (object_name_of_refusal h)).2.2

/-- A checked filename is its own path. -/
theorem materialize_target_of_refusal {name : String} (h : refusal name = none) :
    materialize_target name = .ok [name] := by
  unfold materialize_target
  rw [Segments.split_uncut (uncut_of_refusal h), List.mapM_cons, List.mapM_nil,
    object_name_of_refusal h]
  rfl

/-- The key of an id has two segments, the second of which may be refused. -/
theorem key_segments_key (id : StrategyId) :
    key_segments id.key =
      match refusal id.segment with
      | none => .ok [strategy_key_prefix_text, id.segment]
      | some r => .error r := by
  have hstrip : Segments.strip_of (· == key_separator) id.key =
      Segments.join key_separator [strategy_key_prefix_text, id.segment] := by
    unfold StrategyId.key strategy_key
    rw [Segments.strip_folder ⟨'s', "trategies/".toList, by decide +kernel, by decide⟩
      id.nonempty id.uncut]
    apply String.ext
    simp [Segments.join, StrategyId.segment]
  have hparts : (Segments.split key_separator
      (Segments.strip_of (· == key_separator) id.key)).filter (fun part => part ≠ "") =
        [strategy_key_prefix_text, id.segment] := by
    rw [hstrip, Segments.split_join _ (by simp)]
    · have hne : id.segment ≠ "" := id.nonempty
      have hfixed : strategy_key_prefix_text ≠ "" := by decide
      simp [hne, hfixed]
    · intro s hs
      simp only [List.mem_cons, List.not_mem_nil, or_false] at hs
      rcases hs with rfl | rfl
      · show '/' ∉ "strategies".toList
        decide +kernel
      · exact id.uncut
  have hfixed : object_name strategy_key_prefix_text = .ok strategy_key_prefix_text := by
    decide +kernel
  unfold key_segments
  rw [hparts]
  simp only [reduceCtorEq, if_false, List.mapM_cons, List.mapM_nil, hfixed]
  cases hrefusal : refusal id.segment with
  | none =>
    rw [object_name_of_refusal hrefusal]
    rfl
  | some r =>
    rw [object_name_of_refused hrefusal]
    rfl

/-- What a store puts is what it gets. -/
theorem fromUTF8?_toUTF8 (content : String) : String.fromUTF8? content.toUTF8 = some content :=
  dif_pos content.isValidUTF8

/-! ### The disk answers from the shelf -/

/-- The directory of a package. -/
def package_dir (segment : String) : List String := [strategy_key_prefix_text, segment]

theorem prefix_package_dir {p : List String} {segment : String} (h : p <+: package_dir segment) :
    p = [] ∨ p = [strategy_key_prefix_text] ∨ p = package_dir segment := by
  have hmem := (List.mem_inits _ _).mpr h
  simpa [package_dir] using hmem

theorem package_dir_inj {segment other : String} :
    package_dir segment = package_dir other ↔ segment = other := by
  simp [package_dir]

theorem package_dir_below {segment other : String} :
    package_dir segment <+: package_dir other ↔ segment = other := by
  constructor
  · intro h
    exact package_dir_inj.mp (h.eq_of_length rfl)
  · rintro rfl
    exact List.prefix_rfl

/-- A disk with the files of a shelf and nothing deeper, and with no directory
    for a package without files. -/
structure OnDisk (disk : Disk) (shelf : Shelf) : Prop where
  root : disk.get [] = none
  top : ∀ bytes, disk.get [strategy_key_prefix_text] ≠ some (.file bytes)
  stocked : ∀ segment, (∃ name, shelf segment name ≠ none) →
    disk.get (package_dir segment) = some .dir
  empty : ∀ segment, (∀ name, shelf segment name = none) → disk.get (package_dir segment) = none
  objects : ∀ segment name,
    disk.get (package_dir segment ++ [name]) = (shelf.package segment name).map .file
  deepest : ∀ path, 3 < path.length → disk.get path = none

section Disk

variable {disk : Disk} {shelf : Shelf} {id : StrategyId} {filename content : String}

/-- No file stands in the way of a package. -/
theorem OnDisk.no_file (h : OnDisk disk shelf) (segment : String) (p : List String)
    (hp : p <+: package_dir segment) (bytes : ByteArray) : disk.get p ≠ some (.file bytes) := by
  rcases prefix_package_dir hp with rfl | rfl | rfl
  · rw [h.root]
    simp
  · exact h.top bytes
  · by_cases hempty : ∀ name, shelf segment name = none
    · rw [h.empty segment hempty]
      simp
    · rw [h.stocked segment (not_forall.mp hempty)]
      simp

theorem key_dir_key (id : StrategyId) :
    LocalStrategyStore.key_dir id.key =
      match refusal id.segment with
      | none => .ok (package_dir id.segment)
      | some r => .error (.value_error r) := by
  unfold LocalStrategyStore.key_dir
  rw [key_segments_key]
  cases refusal id.segment with
  | none => rfl
  | some r => rfl

theorem object_path_key (id : StrategyId) (filename : String) :
    LocalStrategyStore.object_path id.key filename =
      match (refusal id.segment).or (refusal filename) with
      | none => .ok (package_dir id.segment ++ [filename])
      | some r => .error (.value_error r) := by
  unfold LocalStrategyStore.object_path
  rw [key_dir_key]
  cases hsegment : refusal id.segment with
  | some r => rfl
  | none =>
    cases hfilename : refusal filename with
    | some r =>
      rw [object_name_of_refused hfilename]
      rfl
    | none =>
      have htarget := materialize_target_of_refusal hfilename
      rw [object_name_of_refusal hfilename]
      show ((materialize_target filename).mapError StoreError.value_error).bind _ = _
      rw [htarget]
      rfl

/-- A refused call changes nothing. -/
theorem local_refused {c : Call} {r : Refusal} (h : c.refused = some r) :
    local_store.call disk c = (.raised (.value_error r), disk) := by
  cases c with
  | put id filename content =>
    have hpath := object_path_key id filename
    rw [show (refusal id.segment).or (refusal filename) = some r from h] at hpath
    simp [StrategyStore.call, local_store, LocalStrategyStore.put, hpath, bind, Except.bind,
      changed]
  | get id filename =>
    have hpath := object_path_key id filename
    rw [show (refusal id.segment).or (refusal filename) = some r from h] at hpath
    simp [StrategyStore.call, local_store, LocalStrategyStore.get, hpath, bind, Except.bind,
      answered]
  | exists_ id =>
    have hdir := key_dir_key id
    rw [show refusal id.segment = some r from h] at hdir
    simp [StrategyStore.call, local_store, LocalStrategyStore.exists_, hdir, bind, Except.bind,
      answered]
  | delete id =>
    have hdir := key_dir_key id
    rw [show refusal id.segment = some r from h] at hdir
    simp [StrategyStore.call, local_store, LocalStrategyStore.delete, hdir, bind, Except.bind,
      changed]
  | materialize id =>
    have hdir := key_dir_key id
    rw [show refusal id.segment = some r from h] at hdir
    simp [StrategyStore.call, local_store, LocalStrategyStore.materialize, hdir, bind,
      Except.bind, answered]

theorem local_put (h : OnDisk disk shelf)
    (hok : (Call.put id filename content).refused = none) :
    ∃ disk', LocalStrategyStore.put disk id.key filename content = .ok disk' ∧
      OnDisk disk' (shelf.after (.put id filename content)) := by
  have hpath := object_path_key id filename
  rw [show (refusal id.segment).or (refusal filename) = none from hok] at hpath
  have hparent : (package_dir id.segment ++ [filename]).dropLast = package_dir id.segment := by
    simp
  have hfree : disk.get (package_dir id.segment ++ [filename]) ≠ some .dir := by
    rw [h.objects]
    simp
  obtain ⟨disk', hput, hget⟩ := put_file_ok content.toUTF8 (by simp)
    (by rw [hparent]; exact h.no_file id.segment) hfree
  rw [hparent] at hget
  refine ⟨disk', ?_, ?_⟩
  · unfold LocalStrategyStore.put
    rw [hpath]
    show (put_file disk (package_dir id.segment ++ [filename]) content.toUTF8).mapError _ = _
    rw [hput]
    rfl
  · rw [Shelf.after_put hok]
    -- the put has made the directory of its own package and no other
    have hhere : disk'.get (package_dir id.segment) = some .dir := by
      rw [hget, if_neg (by simp), if_pos ⟨List.prefix_rfl, by simp [package_dir]⟩]
    have hother : ∀ segment, segment ≠ id.segment →
        disk'.get (package_dir segment) = disk.get (package_dir segment) := by
      intro segment hne
      rw [hget, if_neg (by simp [package_dir]), if_neg]
      intro hunder
      exact hne (package_dir_below.mp hunder.1)
    have hlong : ∀ q, 2 < q.length → ¬ (q <+: package_dir id.segment ∧ q ≠ []) := by
      intro q hq hunder
      have hlen := hunder.1.length_le
      simp only [package_dir, List.length_cons, List.length_nil] at hlen
      omega
    constructor
    · rw [hget, if_neg (by simp), if_neg (by simp), h.root]
    · intro bytes
      rw [hget, if_neg (by simp [package_dir]), if_pos ⟨⟨[id.segment], rfl⟩, by simp⟩]
      simp
    · rintro segment ⟨name, hname⟩
      by_cases hsegment : segment = id.segment
      · rw [hsegment, hhere]
      · rw [hother segment hsegment]
        apply h.stocked
        simp only [hsegment, false_and, if_false] at hname
        exact ⟨name, hname⟩
    · intro segment hempty
      have hsegment : segment ≠ id.segment := by
        rintro rfl
        exact absurd (hempty filename) (by simp)
      rw [hother segment hsegment]
      apply h.empty
      intro name
      have hname := hempty name
      simpa only [hsegment, false_and, if_false] using hname
    · intro segment name
      rw [hget, if_neg (hlong _ (by simp [package_dir]))]
      by_cases hthis : segment = id.segment ∧ name = filename
      · obtain ⟨rfl, rfl⟩ := hthis
        rw [if_pos rfl]
        simp [Shelf.package]
      · have hpath' : package_dir segment ++ [name] ≠ package_dir id.segment ++ [filename] := by
          intro heq
          apply hthis
          simpa [package_dir] using heq
        rw [if_neg hpath', h.objects]
        simp only [Shelf.package, if_neg hthis]
    · intro path hpath'
      rw [hget, if_neg, if_neg (hlong _ (by omega)), h.deepest path hpath']
      rintro rfl
      simp [package_dir] at hpath'

/-- Deleting a package of an id that is allowed is `rmtree`. -/
theorem local_delete_eq (disk : Disk) (hok : (Call.delete id).refused = none) :
    LocalStrategyStore.delete disk id.key =
      match rmtree disk (package_dir id.segment) with
      | .ok disk => .ok disk
      | .error .file_not_found => .ok disk
      | .error e => .error (.store_error (.could_not_delete id.key e)) := by
  have hdir := key_dir_key id
  rw [show refusal id.segment = none from hok] at hdir
  unfold LocalStrategyStore.delete
  rw [hdir]
  rfl

theorem local_delete (h : OnDisk disk shelf) (hok : (Call.delete id).refused = none) :
    ∃ disk', LocalStrategyStore.delete disk id.key = .ok disk' ∧
      OnDisk disk' (shelf.after (.delete id)) := by
  rw [local_delete_eq disk hok, Shelf.after_delete hok]
  by_cases hempty : ∀ name, shelf id.segment name = none
  · -- nothing is there, and nothing changes
    have hnone := h.empty id.segment hempty
    have hgone : rmtree disk (package_dir id.segment) = .error .file_not_found := by
      unfold rmtree
      rw [hnone, missing_of_no_file (h.no_file id.segment)]
    have hsame : (fun segment name => if segment = id.segment then none
        else shelf segment name) = shelf := by
      funext segment name
      split
      · rename_i hsegment
        rw [hsegment, hempty]
      · rfl
    rw [hgone, hsame]
    exact ⟨disk, rfl, h⟩
  · obtain ⟨disk', hrmtree, hget⟩ := rmtree_ok (h.stocked id.segment (not_forall.mp hempty))
    -- the root and `strategies` lie above the package
    have hshort : ∀ q, q.length < 2 → ¬ package_dir id.segment <+: q := by
      intro q hq hunder
      have hlen := hunder.length_le
      simp only [package_dir, List.length_cons, List.length_nil] at hlen
      omega
    rw [hrmtree]
    refine ⟨disk', rfl, ?_⟩
    constructor
    · rw [hget, if_neg (hshort _ (by simp)), h.root]
    · intro bytes
      rw [hget, if_neg (hshort _ (by simp))]
      exact h.top bytes
    · rintro segment ⟨name, hname⟩
      have hsegment : segment ≠ id.segment := by
        rintro rfl
        exact hname (if_pos rfl)
      rw [hget, if_neg (fun hunder => hsegment (package_dir_below.mp hunder).symm)]
      apply h.stocked
      simp only [if_neg hsegment] at hname
      exact ⟨name, hname⟩
    · intro segment hnone
      rw [hget]
      by_cases hsegment : segment = id.segment
      · rw [if_pos (package_dir_below.mpr hsegment.symm)]
      · rw [if_neg (fun hunder => hsegment (package_dir_below.mp hunder).symm)]
        apply h.empty
        simpa only [if_neg hsegment] using hnone
    · intro segment name
      have hunder : package_dir id.segment <+: package_dir segment ++ [name] ↔
          id.segment = segment := by
        simp [package_dir, List.cons_prefix_cons]
      rw [hget]
      by_cases hsegment : segment = id.segment
      · rw [if_pos (hunder.mpr hsegment.symm)]
        simp [Shelf.package, hsegment]
      · rw [if_neg (fun hp => hsegment (hunder.mp hp).symm), h.objects]
        simp only [Shelf.package, if_neg hsegment]
    · intro path hpath
      rw [hget, h.deepest path hpath, ite_self]

theorem local_get (h : OnDisk disk shelf) (hok : (Call.get id filename).refused = none) :
    LocalStrategyStore.get disk id.key filename =
      match shelf id.segment filename with
      | some content => .ok content
      | none => .error (.key_error (id.key ++ filename)) := by
  have hpath := object_path_key id filename
  rw [show (refusal id.segment).or (refusal filename) = none from hok] at hpath
  have hobject := h.objects id.segment filename
  simp only [LocalStrategyStore.get, hpath, bind, Except.bind, read_file, hobject]
  cases hfile : shelf id.segment filename with
  | some content => simp only [Shelf.package, hfile, Option.map_some, fromUTF8?_toUTF8]
  | none =>
    simp only [Shelf.package, hfile, Option.map_none]
    rcases missing_cases disk (package_dir id.segment ++ [filename]) with hmissing | hmissing
    · rw [hmissing]
    · rw [hmissing]

theorem local_exists (h : OnDisk disk shelf) (hok : (Call.exists_ id).refused = none) :
    ∃ there, LocalStrategyStore.exists_ disk id.key = .ok there ∧
      (there = true ↔ ∃ name, shelf id.segment name ≠ none) := by
  have hdir := key_dir_key id
  rw [show refusal id.segment = none from hok] at hdir
  refine ⟨is_dir disk (package_dir id.segment) &&
    !(iterdir disk (package_dir id.segment)).isEmpty, ?_, ?_⟩
  · unfold LocalStrategyStore.exists_
    rw [hdir]
    rfl
  · have hthere : package_dir id.segment ≠ [] := by simp [package_dir]
    rw [Bool.and_eq_true, is_dir_iff hthere]
    constructor
    · rintro ⟨hdir', -⟩
      by_contra hnone
      rw [h.empty id.segment (by simpa using hnone)] at hdir'
      exact absurd hdir' (by simp)
    · rintro ⟨name, hname⟩
      refine ⟨h.stocked id.segment ⟨name, hname⟩, ?_⟩
      have hmem : package_dir id.segment ++ [name] ∈ iterdir disk (package_dir id.segment) := by
        rw [mem_iterdir, h.objects]
        refine ⟨?_, by simp, by simp⟩
        simpa [Shelf.package] using hname
      cases hlist : iterdir disk (package_dir id.segment) with
      | nil => simp [hlist] at hmem
      | cons p ps => rfl

/-- The files below a package directory are those of the package. -/
theorem mem_files_below (h : OnDisk disk shelf) (segment : String)
    (file : List String × ByteArray) :
    file ∈ LocalStrategyStore.files_below disk (package_dir segment) ↔
      ∃ name, file.1 = [name] ∧ shelf.package segment name = some file.2 := by
  unfold LocalStrategyStore.files_below
  rw [List.mem_filterMap]
  constructor
  · rintro ⟨item, hitem, hfile⟩
    rw [List.mem_insertionSort, mem_rglob] at hitem
    obtain ⟨hthere, ⟨rest, rfl⟩, hne⟩ := hitem
    -- nothing lies deeper than the files of the package
    have hlen : rest.length ≤ 1 := by
      by_contra hlong
      apply hthere
      apply h.deepest
      simp only [package_dir, List.length_append, List.length_cons, List.length_nil]
      omega
    match rest, hlen with
    | [], _ => exact absurd (List.append_nil _) hne
    | [name], _ =>
      refine ⟨name, ?_⟩
      rw [h.objects] at hfile
      cases hpackage : shelf.package segment name with
      | none => simp [hpackage] at hfile
      | some bytes =>
        simp only [hpackage, Option.map_some, Option.some.injEq] at hfile
        rw [← hfile]
        exact ⟨by simp, rfl⟩
  · rintro ⟨name, hname, hbytes⟩
    refine ⟨package_dir segment ++ [name], ?_, ?_⟩
    · rw [List.mem_insertionSort, mem_rglob, h.objects, hbytes]
      exact ⟨by simp, List.prefix_append _ _, by simp⟩
    · rw [h.objects, hbytes]
      simp [← hname]

theorem package_ne_none {segment name : String} :
    shelf.package segment name ≠ none ↔ shelf segment name ≠ none := by
  simp [Shelf.package]

theorem local_materialize (h : OnDisk disk shelf) (hchecked : shelf.Checked)
    (hok : (Call.materialize id).refused = none) :
    ((∀ name, shelf id.segment name = none) →
      LocalStrategyStore.materialize disk id.key ∅ = .error (.key_error id.key)) ∧
    ((∃ name, shelf id.segment name ≠ none) → ∃ d,
      LocalStrategyStore.materialize disk id.key ∅ = .ok d ∧
        Flat d (shelf.package id.segment)) := by
  have hdir := key_dir_key id
  rw [show refusal id.segment = none from hok] at hdir
  have hthere : package_dir id.segment ≠ [] := by simp [package_dir]
  constructor
  · intro hempty
    have hno : ¬ is_dir disk (package_dir id.segment) = true := by
      rw [is_dir_iff hthere, h.empty id.segment hempty]
      simp
    simp only [LocalStrategyStore.materialize, hdir, bind, Except.bind, if_neg hno]
  · rintro ⟨name, hname⟩
    have hyes : is_dir disk (package_dir id.segment) = true :=
      (is_dir_iff hthere).mpr (h.stocked id.segment ⟨name, hname⟩)
    have hmem := mem_files_below h id.segment
    -- each file is copied to its own name at the destination
    have hcopy : ∀ file ∈ LocalStrategyStore.files_below disk (package_dir id.segment),
        ∃ bytes, shelf.package id.segment (file.1.headD "") = some bytes ∧
          ∀ t : Disk, (∀ p, t.get p ≠ some .dir) →
            LocalStrategyStore.copy t file = .ok (t.insert [file.1.headD ""] (.file bytes)) := by
      rintro ⟨path, bytes⟩ hfile
      obtain ⟨n, rfl, hbytes⟩ := (hmem _).mp hfile
      refine ⟨bytes, hbytes, ?_⟩
      intro t ht
      have hn : shelf id.segment n ≠ none := package_ne_none.mp (by simp [hbytes])
      unfold LocalStrategyStore.copy
      simp only [Segments.join_singleton,
        materialize_target_of_refusal (hchecked id.segment n hn).2, put_file_root bytes (ht [n])]
      rfl
    have hall : ∀ n, shelf.package id.segment n ≠ none →
        ∃ file ∈ LocalStrategyStore.files_below disk (package_dir id.segment),
          file.1.headD "" = n := by
      intro n hn
      obtain ⟨bytes, hbytes⟩ := Option.ne_none_iff_exists'.mp hn
      exact ⟨([n], bytes), (hmem _).mpr ⟨n, rfl, hbytes⟩, rfl⟩
    obtain ⟨d, hfold, hflat⟩ := foldlM_flat hcopy hall
    have hfiles : (LocalStrategyStore.files_below disk (package_dir id.segment)).isEmpty = false := by
      obtain ⟨bytes, hbytes⟩ := Option.ne_none_iff_exists'.mp (package_ne_none.mpr hname)
      have hfile := (hmem ([name], bytes)).mpr ⟨name, rfl, hbytes⟩
      cases hlist : LocalStrategyStore.files_below disk (package_dir id.segment) with
      | nil => simp [hlist] at hfile
      | cons file files => rfl
    refine ⟨d, ?_, hflat⟩
    simp only [LocalStrategyStore.materialize, hdir, bind, Except.bind, if_pos hyes, hfold, hfiles,
      Bool.false_eq_true, if_false]

/-- **The disk** answers every call from the shelf. -/
theorem local_call (h : OnDisk disk shelf) (hchecked : shelf.Checked) (c : Call) :
    Answers shelf c (local_store.call disk c).1 ∧
      OnDisk (local_store.call disk c).2 (shelf.after c) := by
  cases hrefused : c.refused with
  | some r =>
    rw [local_refused hrefused, Shelf.after_refused hrefused]
    refine ⟨?_, h⟩
    unfold Answers
    rw [hrefused]
  | none =>
    unfold Answers
    cases c with
    | put id filename content =>
      obtain ⟨disk', hput, hdisk'⟩ := local_put h hrefused
      simp only [StrategyStore.call, local_store, hput, hrefused]
      exact ⟨rfl, hdisk'⟩
    | get id filename =>
      have hget := local_get h hrefused
      simp only [StrategyStore.call, local_store, hget, hrefused, Shelf.after_get]
      cases shelf id.segment filename with
      | none => exact ⟨rfl, h⟩
      | some content => exact ⟨rfl, h⟩
    | exists_ id =>
      obtain ⟨there, hexists, hthere⟩ := local_exists h hrefused
      simp only [StrategyStore.call, local_store, hexists, hrefused, Shelf.after_exists]
      exact ⟨⟨there, rfl, hthere⟩, h⟩
    | delete id =>
      obtain ⟨disk', hdelete, hdisk'⟩ := local_delete h hrefused
      simp only [StrategyStore.call, local_store, hdelete, hrefused]
      exact ⟨rfl, hdisk'⟩
    | materialize id =>
      obtain ⟨hmiss, hfiles⟩ := local_materialize h hchecked hrefused
      -- reading a package changes nothing
      have hstate : (local_store.call disk (.materialize id)).2 = disk := by
        simp only [StrategyStore.call, local_store]
        cases LocalStrategyStore.materialize disk id.key ∅ with
        | ok d => rfl
        | error e => rfl
      rw [Shelf.after_materialize, hstate]
      simp only [hrefused]
      refine ⟨⟨?_, ?_⟩, h⟩
      · intro hempty
        simp only [StrategyStore.call, local_store, hmiss hempty]
        rfl
      · intro hsome
        obtain ⟨d, hok, hflat⟩ := hfiles hsome
        simp only [StrategyStore.call, local_store, hok]
        exact ⟨d, rfl, hflat⟩

end Disk

/-! ### The bucket answers from the shelf -/

/-- The prefix of a package. -/
def S3StrategyStore.folder (store : S3StrategyStore) (segment : String) : String :=
  Segments.folder key_separator
    (store.prefix_text ++ (strategy_key_prefix_text ++ String.singleton key_separator)) segment

/-- The key of an object. -/
def S3StrategyStore.object (store : S3StrategyStore) (segment name : String) : String :=
  store.folder segment ++ name

/-- A bucket with the files of a shelf and nothing else. -/
structure InBucket (store : S3StrategyStore) (objects : Bucket) (shelf : Shelf) : Prop where
  packages : ∀ segment name, refusal segment = none → refusal name = none →
    objects.get (store.object segment name) = shelf.package segment name
  only : ∀ k, objects.get k ≠ none → ∃ segment name, k = store.object segment name ∧
    refusal segment = none ∧ refusal name = none

section Bucket

variable {casefold : String → String} {store : S3StrategyStore} {objects : Bucket} {shelf : Shelf}
  {id : StrategyId} {filename content : String}

/-- The key of an object tells its package and its filename. -/
theorem object_inj {segment name other name' : String} (h : refusal segment = none)
    (hother : refusal other = none) :
    store.object segment name = store.object other name' ↔ segment = other ∧ name = name' :=
  Segments.folder_append_inj (uncut_of_refusal h) (uncut_of_refusal hother)

theorem prefix_for_key (store : S3StrategyStore) (id : StrategyId) :
    store.prefix_for id.key =
      match refusal id.segment with
      | none => .ok (store.folder id.segment)
      | some r => .error (.value_error r) := by
  unfold S3StrategyStore.prefix_for
  rw [key_segments_key]
  cases hsegment : refusal id.segment with
  | some r => rfl
  | none =>
    show Except.ok (Segments.folder key_separator store.prefix_text
      (Segments.join key_separator [strategy_key_prefix_text, id.segment])) = _
    have hfolder : Segments.folder key_separator store.prefix_text
        (Segments.join key_separator [strategy_key_prefix_text, id.segment]) =
          store.folder id.segment := by
      apply String.ext
      simp [S3StrategyStore.folder, Segments.join]
    rw [hfolder]

theorem object_key_key (store : S3StrategyStore) (id : StrategyId) (filename : String) :
    store.object_key id.key filename =
      match (refusal id.segment).or (refusal filename) with
      | none => .ok (store.object id.segment filename)
      | some r => .error (.value_error r) := by
  unfold S3StrategyStore.object_key
  rw [prefix_for_key]
  cases hsegment : refusal id.segment with
  | some r => rfl
  | none =>
    cases hfilename : refusal filename with
    | some r =>
      rw [object_name_of_refused hfilename]
      rfl
    | none =>
      rw [object_name_of_refusal hfilename]
      rfl

theorem s3_refused {c : Call} {r : Refusal} (h : c.refused = some r) :
    (s3_store casefold store).call objects c = (.raised (.value_error r), objects) := by
  cases c with
  | put id filename content =>
    have hkey := object_key_key store id filename
    rw [show (refusal id.segment).or (refusal filename) = some r from h] at hkey
    simp [StrategyStore.call, s3_store, S3StrategyStore.put, hkey, bind, Except.bind, changed]
  | get id filename =>
    have hkey := object_key_key store id filename
    rw [show (refusal id.segment).or (refusal filename) = some r from h] at hkey
    simp [StrategyStore.call, s3_store, S3StrategyStore.get, hkey, bind, Except.bind, answered]
  | exists_ id =>
    have hunder := prefix_for_key store id
    rw [show refusal id.segment = some r from h] at hunder
    simp [StrategyStore.call, s3_store, S3StrategyStore.exists_, S3StrategyStore.list_keys,
      hunder, bind, Except.bind, answered]
  | delete id =>
    have hunder := prefix_for_key store id
    rw [show refusal id.segment = some r from h] at hunder
    simp [StrategyStore.call, s3_store, S3StrategyStore.delete, S3StrategyStore.list_keys,
      hunder, bind, Except.bind, changed]
  | materialize id =>
    have hunder := prefix_for_key store id
    rw [show refusal id.segment = some r from h] at hunder
    simp [StrategyStore.call, s3_store, S3StrategyStore.materialize, hunder, bind, Except.bind,
      answered]

theorem s3_put (h : InBucket store objects shelf)
    (hok : (Call.put id filename content).refused = none) :
    ∃ objects', store.put objects id.key filename content = .ok objects' ∧
      InBucket store objects' (shelf.after (.put id filename content)) := by
  have hkey := object_key_key store id filename
  rw [show (refusal id.segment).or (refusal filename) = none from hok] at hkey
  obtain ⟨hsegment, hfilename⟩ := Option.or_eq_none_iff.mp hok
  refine ⟨objects.insert (store.object id.segment filename) content.toUTF8, ?_, ?_⟩
  · simp only [S3StrategyStore.put, hkey, bind, Except.bind]
  · rw [Shelf.after_put hok]
    constructor
    · intro segment name hs hn
      rw [Keyed.get_insert]
      simp only [object_inj hs hsegment]
      by_cases hthis : segment = id.segment ∧ name = filename
      · simp [Shelf.package, hthis]
      · rw [if_neg hthis, h.packages segment name hs hn]
        simp only [Shelf.package, if_neg hthis]
    · intro k hk
      rw [Keyed.get_insert] at hk
      by_cases hthis : k = store.object id.segment filename
      · exact ⟨id.segment, filename, hthis, hsegment, hfilename⟩
      · rw [if_neg hthis] at hk
        exact h.only k hk

theorem s3_get (h : InBucket store objects shelf)
    (hok : (Call.get id filename).refused = none) :
    store.get objects id.key filename =
      match shelf id.segment filename with
      | some content => .ok content
      | none => .error (.key_error (id.key ++ filename)) := by
  have hkey := object_key_key store id filename
  rw [show (refusal id.segment).or (refusal filename) = none from hok] at hkey
  obtain ⟨hsegment, hfilename⟩ := Option.or_eq_none_iff.mp hok
  simp only [S3StrategyStore.get, hkey, bind, Except.bind,
    h.packages id.segment filename hsegment hfilename]
  cases hfile : shelf id.segment filename with
  | some content => simp only [Shelf.package, hfile, Option.map_some, fromUTF8?_toUTF8]
  | none => simp only [Shelf.package, hfile, Option.map_none]

/-- What ends in a checked filename is no marker. -/
theorem append_not_marker (start : String) {name : String} (h : refusal name = none) :
    Segments.ends_with key_separator (start ++ name) = false := by
  obtain ⟨_, hne, huncut⟩ := object_name_ok (object_name_of_refusal h)
  have hlast : name.toList ≠ [] := by
    intro hnil
    exact hne (String.toList_inj.mp (by simpa using hnil))
  unfold Segments.ends_with
  rw [String.toList_append, List.getLast?_append_of_ne_nil _ hlast, beq_eq_false_iff_ne]
  intro hsep
  exact huncut (List.mem_of_getLast? hsep)

/-- No object of a package is a marker. -/
theorem object_not_marker {segment name : String} (h : refusal name = none) :
    Segments.ends_with key_separator (store.object segment name) = false :=
  append_not_marker _ h

/-- **A listing** has the objects of the package and no others. -/
theorem list_keys_key (h : InBucket store objects shelf) (hchecked : shelf.Checked)
    (hsegment : refusal id.segment = none) (include_markers : Bool) :
    ∃ keys, store.list_keys objects id.key include_markers = .ok keys ∧ keys.Nodup ∧
      ∀ k, k ∈ keys ↔ ∃ name, k = store.object id.segment name ∧ shelf id.segment name ≠ none := by
  have hunder := prefix_for_key store id
  rw [hsegment] at hunder
  refine ⟨(((objects.keys.filter (Segments.starts_with · (store.folder id.segment))).insertionSort
    (· ≤ ·)).filter (fun k => include_markers || !Segments.ends_with key_separator k)), ?_, ?_, ?_⟩
  · simp only [S3StrategyStore.list_keys, hunder, bind, Except.bind]
  · apply List.Nodup.filter
    rw [(List.perm_insertionSort _ _).nodup_iff]
    exact objects.keys_nodup.filter _
  · intro k
    rw [List.mem_filter, List.mem_insertionSort, List.mem_filter, Keyed.mem_keys]
    constructor
    · rintro ⟨⟨hthere, hstart⟩, _⟩
      obtain ⟨segment, name, rfl, hs, hn⟩ := h.only k hthere
      obtain rfl : segment = id.segment :=
        (Segments.starts_with_folder (uncut_of_refusal hsegment) (uncut_of_refusal hs)).mp hstart
      rw [h.packages id.segment name hs hn] at hthere
      exact ⟨name, rfl, package_ne_none.mp hthere⟩
    · rintro ⟨name, rfl, hname⟩
      have hn := (hchecked id.segment name hname).2
      refine ⟨⟨?_, ?_⟩, ?_⟩
      · rw [h.packages id.segment name hsegment hn]
        exact package_ne_none.mpr hname
      · exact (Segments.starts_with_folder (uncut_of_refusal hsegment)
          (uncut_of_refusal hsegment)).mpr rfl
      · rw [object_not_marker hn]
        simp

theorem s3_exists (h : InBucket store objects shelf) (hchecked : shelf.Checked)
    (hok : (Call.exists_ id).refused = none) :
    ∃ there, store.exists_ objects id.key = .ok there ∧
      (there = true ↔ ∃ name, shelf id.segment name ≠ none) := by
  have hsegment : refusal id.segment = none := hok
  obtain ⟨keys, hlist, _, hmem⟩ := list_keys_key h hchecked hsegment false
  refine ⟨!keys.isEmpty, ?_, ?_⟩
  · simp only [S3StrategyStore.exists_, hlist, bind, Except.bind]
  · constructor
    · intro hthere
      cases keys with
      | nil => simp at hthere
      | cons k ks =>
        obtain ⟨name, _, hname⟩ := (hmem k).mp List.mem_cons_self
        exact ⟨name, hname⟩
    · rintro ⟨name, hname⟩
      have hkey := (hmem _).mpr ⟨name, rfl, hname⟩
      cases keys with
      | nil => simp at hkey
      | cons k ks => rfl

theorem s3_delete (h : InBucket store objects shelf) (hchecked : shelf.Checked)
    (hok : (Call.delete id).refused = none) :
    ∃ objects', store.delete objects id.key = .ok objects' ∧
      InBucket store objects' (shelf.after (.delete id)) := by
  have hchecked_id : refusal id.segment = none := hok
  obtain ⟨keys, hlist, _, hmem⟩ := list_keys_key h hchecked hchecked_id true
  -- every listed key is in one of the batches
  have hbatches : ∀ k, k ∈ (Batches.chunks delete_batch keys).flatten ↔ k ∈ keys := by
    intro k
    exact Batches.mem_flatten_chunks (by decide)
  refine ⟨objects.erase_all (Batches.chunks delete_batch keys).flatten, ?_, ?_⟩
  · simp only [S3StrategyStore.delete, hlist, bind, Except.bind, Keyed.foldl_erase_all]
  · have hgone : ∀ k, k ∈ keys →
        (objects.erase_all (Batches.chunks delete_batch keys).flatten).get k = none := by
      intro k hk
      rw [Keyed.get_erase_all, if_pos ((hbatches k).mpr hk)]
    have hkept : ∀ k, k ∉ keys →
        (objects.erase_all (Batches.chunks delete_batch keys).flatten).get k = objects.get k := by
      intro k hk
      rw [Keyed.get_erase_all, if_neg (fun hmem' => hk ((hbatches k).mp hmem'))]
    rw [Shelf.after_delete hok]
    constructor
    · intro segment name hs hn
      by_cases hkey : store.object segment name ∈ keys
      · obtain ⟨name', heq, _⟩ := (hmem _).mp hkey
        rw [hgone _ hkey]
        simp [Shelf.package, ((object_inj hs hchecked_id).mp heq).1]
      · rw [hkept _ hkey, h.packages segment name hs hn]
        by_cases hsegment : segment = id.segment
        · -- a file that is not listed is not there
          have hnone : shelf segment name = none := by
            by_contra hname
            rw [hsegment] at hname hkey
            exact hkey ((hmem _).mpr ⟨name, rfl, hname⟩)
          simp [Shelf.package, hnone]
        · simp only [Shelf.package, if_neg hsegment]
    · intro k hk
      by_cases hkey : k ∈ keys
      · exact absurd (hgone k hkey) hk
      · rw [hkept k hkey] at hk
        exact h.only k hk

/-- The filename in the key of an object. -/
theorem drop_start_object (segment name : String) :
    Segments.drop_start (store.object segment name) (store.folder segment) = name :=
  Segments.drop_start_append _ _

variable (casefold) (store) in
/-- An object of a package joins the plan unless its name folds to one that
    is in it. -/
theorem plan_object_key {plan : S3StrategyStore.Plan} (hplan : plan.directories = [])
    (segment : String) {name : String} (hname : refusal name = none) :
    S3StrategyStore.plan_object casefold store (store.folder segment) plan
        (store.object segment name) =
      if casefold name ∈ plan.paths then
        .error (.store_error (.unsafe_object_key (store.uri (store.object segment name))))
      else
        .ok { targets := plan.targets ++ [(store.object segment name, [name])]
              paths := casefold name :: plan.paths
              directories := [] } := by
  have hparents : ([name].inits.filter (fun p => p ≠ [] ∧ p ≠ [name])).map (fun p =>
      casefold (Segments.join key_separator p)) = [] := by
    simp
  unfold S3StrategyStore.plan_object
  simp only [drop_start_object, materialize_target_of_refusal hname, hparents, hplan,
    List.not_mem_nil, false_and, exists_false, or_false, List.append_nil]

/-- Names that fold to different names, none of which was seen. -/
def Fresh (casefold : String → String) (names seen : List String) : Prop :=
  (names.map casefold).Nodup ∧ ∀ name ∈ names, casefold name ∉ seen

theorem fresh_cons {name : String} {names seen : List String} :
    Fresh casefold (name :: names) seen ↔
      casefold name ∉ seen ∧ Fresh casefold names (casefold name :: seen) := by
  unfold Fresh
  simp only [List.map_cons, List.nodup_cons, List.mem_map, not_exists, not_and, List.mem_cons,
    not_or, forall_eq_or_imp]
  constructor
  · rintro ⟨⟨hname, hnodup⟩, hseen, hrest⟩
    exact ⟨hseen, hnodup, fun n hn => ⟨hname n hn, hrest n hn⟩⟩
  · rintro ⟨hseen, hnodup, hrest⟩
    exact ⟨⟨fun n hn => (hrest n hn).1, hnodup⟩, hseen, fun n hn => (hrest n hn).2⟩

variable (casefold) (store) in
/-- **The plan** holds every object, or refuses the first whose name folds to
    an earlier one. -/
theorem foldlM_plan_object (segment : String) {names : List String}
    (hnames : ∀ name ∈ names, refusal name = none) (plan : S3StrategyStore.Plan)
    (hplan : plan.directories = []) :
    (Fresh casefold names plan.paths →
      ∃ plan', (names.map (store.object segment)).foldlM
          (S3StrategyStore.plan_object casefold store (store.folder segment)) plan = .ok plan' ∧
        plan'.targets =
          plan.targets ++ names.map (fun name => (store.object segment name, [name]))) ∧
    (¬ Fresh casefold names plan.paths →
      ∃ f, (names.map (store.object segment)).foldlM
          (S3StrategyStore.plan_object casefold store (store.folder segment)) plan =
        .error (.store_error f)) := by
  induction names generalizing plan with
  | nil =>
    refine ⟨fun _ => ⟨plan, rfl, by simp⟩, ?_⟩
    intro hno
    exact absurd ⟨List.nodup_nil, by simp⟩ hno
  | cons name names ih =>
    have hstep := plan_object_key casefold store hplan segment (hnames name List.mem_cons_self)
    rw [List.map_cons, List.foldlM_cons, hstep, fresh_cons]
    by_cases hseen : casefold name ∈ plan.paths
    · rw [if_pos hseen]
      constructor
      · rintro ⟨hfresh, _⟩
        exact absurd hseen hfresh
      · intro _
        exact ⟨_, rfl⟩
    · rw [if_neg hseen]
      obtain ⟨hgood, hbad⟩ := ih (fun n hn => hnames n (List.mem_cons_of_mem _ hn))
        { targets := plan.targets ++ [(store.object segment name, [name])]
          paths := casefold name :: plan.paths
          directories := [] } rfl
      constructor
      · rintro ⟨_, hfresh⟩
        obtain ⟨plan', hfold, htargets⟩ := hgood hfresh
        refine ⟨plan', hfold, ?_⟩
        rw [htargets]
        simp
      · intro hno
        exact hbad (fun hfresh => hno ⟨hseen, hfresh⟩)

variable (casefold) in
/-- `materialize` refuses a package with two names that fold to one, and
    writes any other. -/
theorem s3_materialize (h : InBucket store objects shelf) (hchecked : shelf.Checked)
    (hok : (Call.materialize id).refused = none) :
    (Set.InjOn casefold {name | shelf id.segment name ≠ none} →
      ((∀ name, shelf id.segment name = none) →
        store.materialize casefold objects id.key ∅ = .error (.key_error id.key)) ∧
      ((∃ name, shelf id.segment name ≠ none) → ∃ d,
        store.materialize casefold objects id.key ∅ = .ok d ∧
          Flat d (shelf.package id.segment))) ∧
    (¬ Set.InjOn casefold {name | shelf id.segment name ≠ none} →
      ∃ f, store.materialize casefold objects id.key ∅ = .error (.store_error f)) := by
  have hsegment : refusal id.segment = none := hok
  have hunder := prefix_for_key store id
  rw [hsegment] at hunder
  obtain ⟨keys, hlist, hnodup, hmem⟩ := list_keys_key h hchecked hsegment false
  -- the listed keys by the filenames in them
  obtain ⟨names, rfl, hnames⟩ : ∃ names : List String,
      keys = names.map (store.object id.segment) ∧
        ∀ name, name ∈ names ↔ shelf id.segment name ≠ none := by
    refine ⟨keys.map (fun k => Segments.drop_start k (store.folder id.segment)), ?_, ?_⟩
    · have hsame : ∀ k ∈ keys,
          (store.object id.segment ∘ fun k => Segments.drop_start k (store.folder id.segment)) k =
            (fun k => k) k := by
        intro k hk
        obtain ⟨name, rfl, _⟩ := (hmem k).mp hk
        simp [drop_start_object]
      rw [List.map_map, List.map_congr_left hsame, List.map_id']
    · intro name
      rw [List.mem_map]
      constructor
      · rintro ⟨k, hk, rfl⟩
        obtain ⟨name, rfl, hname⟩ := (hmem k).mp hk
        rw [drop_start_object]
        exact hname
      · intro hname
        exact ⟨_, (hmem _).mpr ⟨name, rfl, hname⟩, drop_start_object _ _⟩
  have hrefusals : ∀ name ∈ names, refusal name = none := by
    intro name hname
    exact (hchecked id.segment name ((hnames name).mp hname)).2
  obtain ⟨hgood, hbad⟩ := foldlM_plan_object casefold store id.segment hrefusals
    { targets := [], paths := [], directories := [] } rfl
  have hfresh : Fresh casefold names [] ↔
      Set.InjOn casefold {name | shelf id.segment name ≠ none} := by
    unfold Fresh
    rw [List.nodup_map_iff_inj_on hnodup.of_map]
    constructor
    · rintro ⟨hinj, _⟩ a ha b hb heq
      exact hinj a ((hnames a).mpr ha) b ((hnames b).mpr hb) heq
    · intro hinj
      refine ⟨?_, by simp⟩
      intro a ha b hb heq
      exact hinj ((hnames a).mp ha) ((hnames b).mp hb) heq
  rw [← hfresh]
  constructor
  · intro hall
    obtain ⟨plan, hplan, htargets⟩ := hgood hall
    rw [List.nil_append] at htargets
    have hrun : store.materialize casefold objects id.key ∅ =
        if plan.targets.isEmpty then .error (.key_error id.key)
        else plan.targets.foldlM (store.download objects) ∅ := by
      simp only [S3StrategyStore.materialize, hunder, hlist, bind, Except.bind, hplan]
    rw [hrun, htargets]
    constructor
    · intro hempty
      have hnil : names = [] := by
        apply List.eq_nil_iff_forall_not_mem.mpr
        intro name hname
        exact (hnames name).mp hname (hempty name)
      rw [hnil]
      rfl
    · rintro ⟨name, hname⟩
      have hdownload : ∀ item ∈ names.map (fun name => (store.object id.segment name, [name])),
          ∃ bytes, shelf.package id.segment (item.2.headD "") = some bytes ∧
            ∀ t : Disk, (∀ p, t.get p ≠ some .dir) →
              store.download objects t item = .ok (t.insert [item.2.headD ""] (.file bytes)) := by
        intro item hitem
        obtain ⟨n, hn, rfl⟩ := List.mem_map.mp hitem
        obtain ⟨bytes, hbytes⟩ :=
          Option.ne_none_iff_exists'.mp (package_ne_none.mpr ((hnames n).mp hn))
        refine ⟨bytes, hbytes, ?_⟩
        intro t ht
        have hobject := h.packages id.segment n hok (hrefusals n hn)
        unfold S3StrategyStore.download
        simp only [hobject, hbytes, put_file_root bytes (ht [n])]
        rfl
      have hall : ∀ n, shelf.package id.segment n ≠ none →
          ∃ item ∈ names.map (fun name => (store.object id.segment name, [name])),
            item.2.headD "" = n := by
        intro n hn
        exact ⟨_, List.mem_map.mpr ⟨n, (hnames n).mpr (package_ne_none.mp hn), rfl⟩, rfl⟩
      obtain ⟨d, hfold, hflat⟩ := foldlM_flat hdownload hall
      refine ⟨d, ?_, hflat⟩
      have hsome : name ∈ names := (hnames name).mpr hname
      cases names with
      | nil => simp at hsome
      | cons n names => exact hfold
  · intro hno
    obtain ⟨f, hplan⟩ := hbad hno
    refine ⟨f, ?_⟩
    simp only [S3StrategyStore.materialize, hunder, hlist, bind, Except.bind, hplan]

variable (casefold) in
/-- **The bucket** answers every call from the shelf but one: a package with
    two filenames that fold to one is refused. -/
theorem s3_call (h : InBucket store objects shelf) (hchecked : shelf.Checked) (c : Call) :
    (c.Unaliased casefold shelf →
      Answers shelf c ((s3_store casefold store).call objects c).1) ∧
    (¬ c.Unaliased casefold shelf → c.refused = none →
      ∃ f, ((s3_store casefold store).call objects c).1 = .raised (.store_error f)) ∧
    InBucket store ((s3_store casefold store).call objects c).2 (shelf.after c) := by
  cases hrefused : c.refused with
  | some r =>
    rw [s3_refused hrefused, Shelf.after_refused hrefused]
    refine ⟨?_, by simp, h⟩
    intro _
    unfold Answers
    rw [hrefused]
  | none =>
    unfold Answers
    cases c with
    | put id filename content =>
      obtain ⟨objects', hput, hobjects'⟩ := s3_put h hrefused
      simp only [StrategyStore.call, s3_store, hput, hrefused]
      exact ⟨fun _ => rfl, fun hno => absurd trivial hno, hobjects'⟩
    | get id filename =>
      have hget := s3_get h hrefused
      simp only [StrategyStore.call, s3_store, hget, hrefused, Shelf.after_get]
      cases shelf id.segment filename with
      | none => exact ⟨fun _ => rfl, fun hno => absurd trivial hno, h⟩
      | some content => exact ⟨fun _ => rfl, fun hno => absurd trivial hno, h⟩
    | exists_ id =>
      obtain ⟨there, hexists, hthere⟩ := s3_exists h hchecked hrefused
      simp only [StrategyStore.call, s3_store, hexists, hrefused, Shelf.after_exists]
      exact ⟨fun _ => ⟨there, rfl, hthere⟩, fun hno => absurd trivial hno, h⟩
    | delete id =>
      obtain ⟨objects', hdelete, hobjects'⟩ := s3_delete h hchecked hrefused
      simp only [StrategyStore.call, s3_store, hdelete, hrefused]
      exact ⟨fun _ => rfl, fun hno => absurd trivial hno, hobjects'⟩
    | materialize id =>
      obtain ⟨hgood, hbad⟩ := s3_materialize casefold h hchecked hrefused
      -- nor does it here
      have hstate : ((s3_store casefold store).call objects (.materialize id)).2 = objects := by
        simp only [StrategyStore.call, s3_store]
        cases store.materialize casefold objects id.key ∅ with
        | ok d => rfl
        | error e => rfl
      rw [Shelf.after_materialize, hstate]
      simp only [hrefused]
      refine ⟨?_, ?_, h⟩
      · intro hinj
        obtain ⟨hmiss, hfiles⟩ := hgood hinj
        constructor
        · intro hempty
          simp only [StrategyStore.call, s3_store, hmiss hempty]
          rfl
        · intro hsome
          obtain ⟨d, hok, hflat⟩ := hfiles hsome
          simp only [StrategyStore.call, s3_store, hok]
          exact ⟨d, rfl, hflat⟩
      · intro hno _
        obtain ⟨f, herror⟩ := hbad hno
        refine ⟨f, ?_⟩
        simp only [StrategyStore.call, s3_store, herror]
        rfl

end Bucket

/-! ### Both stores -/

section Both

variable (casefold : String → String) (store : S3StrategyStore) {disk : Disk} {objects : Bucket}
  {shelf : Shelf}

/-- No package of a refused id is there to be materialized. -/
theorem unaliased_of_refused {c : Call} {r : Refusal} (hchecked : shelf.Checked)
    (h : c.refused = some r) : c.Unaliased casefold shelf := by
  cases c with
  | materialize id =>
    intro name hname
    have hsegment := (hchecked id.segment name hname).1
    rw [show refusal id.segment = some r from h] at hsegment
    exact absurd hsegment (by simp)
  | put id filename content => trivial
  | get id filename => trivial
  | exists_ id => trivial
  | delete id => trivial

/-- **One call** on stores that hold one shelf. -/
theorem call_same_iff (hdisk : OnDisk disk shelf) (hbucket : InBucket store objects shelf)
    (hchecked : shelf.Checked) (c : Call) :
    (local_store.call disk c).1.Same ((s3_store casefold store).call objects c).1 ↔
      c.Unaliased casefold shelf := by
  have hlocal := (local_call hdisk hchecked c).1
  obtain ⟨hanswers, hunsafe, _⟩ := s3_call casefold hbucket hchecked c
  constructor
  · intro hsame
    by_contra haliased
    have hok : c.refused = none := by
      cases hrefused : c.refused with
      | none => rfl
      | some r => exact absurd (unaliased_of_refused casefold hchecked hrefused) haliased
    obtain ⟨f, hf⟩ := hunsafe haliased hok
    rw [hf] at hsame
    rw [hsame.eq_raised] at hlocal
    exact Answers.ne_store_error hlocal
  · intro h
    exact hlocal.same (hanswers h)

/-- **A run** of calls. -/
theorem run_same_iff (hdisk : OnDisk disk shelf) (hbucket : InBucket store objects shelf)
    (hchecked : shelf.Checked) (calls : List Call) :
    List.Forall₂ Outcome.Same (local_store.run disk calls).1
        ((s3_store casefold store).run objects calls).1 ↔
      Unaliased casefold shelf calls := by
  induction calls generalizing disk objects shelf with
  | nil => exact ⟨fun _ => trivial, fun _ => List.Forall₂.nil⟩
  | cons c calls ih =>
    have hdisk' := (local_call hdisk hchecked c).2
    have hbucket' := (s3_call casefold hbucket hchecked c).2.2
    have hhead := call_same_iff casefold store hdisk hbucket hchecked c
    have htail := ih hdisk' hbucket' (hchecked.after c)
    unfold StrategyStore.run Unaliased
    rw [List.forall₂_cons]
    exact and_congr hhead htail

/-- What a run leaves is a shelf in either store. -/
theorem run_holds (hdisk : OnDisk disk shelf) (hbucket : InBucket store objects shelf)
    (hchecked : shelf.Checked) (calls : List Call) :
    ∃ shelf' : Shelf, OnDisk (local_store.run disk calls).2 shelf' ∧
      InBucket store ((s3_store casefold store).run objects calls).2 shelf' ∧ shelf'.Checked := by
  induction calls generalizing disk objects shelf with
  | nil => exact ⟨shelf, hdisk, hbucket, hchecked⟩
  | cons c calls ih =>
    exact ih (local_call hdisk hchecked c).2 (s3_call casefold hbucket hchecked c).2.2
      (hchecked.after c)

/-- Nothing on the shelf. -/
def Shelf.bare : Shelf := fun _ _ => none

theorem bare_on_disk : OnDisk ∅ Shelf.bare := by
  constructor
  · rfl
  · intro bytes
    simp
  · rintro segment ⟨name, hname⟩
    exact absurd rfl hname
  · intro segment _
    rfl
  · intro segment name
    rfl
  · intro path _
    rfl

theorem bare_in_bucket : InBucket store ∅ Shelf.bare := by
  constructor
  · intro segment name _ _
    rfl
  · intro k hk
    exact absurd rfl hk

theorem bare_checked : Shelf.bare.Checked := by
  intro segment name hname
  exact absurd rfl hname

/-- A `get` reads the shelf of its own package. -/
theorem Answers.get_eq {shelf shelf' : Shelf} {id : StrategyId} {filename : String}
    {o o' : Outcome} (h : Answers shelf (.get id filename) o)
    (h' : Answers shelf' (.get id filename) o')
    (hpackage : shelf id.segment = shelf' id.segment) : o = o' := by
  have hfile : shelf id.segment filename = shelf' id.segment filename := congrFun hpackage filename
  unfold Answers at h h'
  cases hrefused : (Call.get id filename).refused with
  | some r =>
    simp only [hrefused] at h h'
    rw [h, h']
  | none =>
    simp only [hrefused] at h h'
    cases hthere : shelf' id.segment filename with
    | none =>
      rw [hthere] at hfile
      simp only [hthere, hfile] at h h'
      rw [h, h']
    | some content =>
      rw [hthere] at hfile
      simp only [hthere, hfile] at h h'
      rw [h, h']

/-- A deletion that leaves the objects of every other key. -/
def Isolated {σ : Type} (store : StrategyStore σ) (s : σ) : Prop :=
  ∀ id other : StrategyId, other.key ≠ id.key → ∀ filename,
    (store.call (store.call s (.delete id)).2 (.get other filename)).1 =
      (store.call s (.get other filename)).1

/-- Two keys name two packages. -/
theorem after_delete_other {id other : StrategyId} (h : other.key ≠ id.key) :
    (shelf.after (.delete id)) other.segment = shelf other.segment := by
  have hsegment : other.segment ≠ id.segment := by
    intro heq
    apply h
    unfold StrategyId.key strategy_key
    exact congrArg _ heq
  unfold Shelf.after
  cases hrefused : (Call.delete id).refused with
  | some r => rfl
  | none =>
    funext name
    simp only [if_neg hsegment]

theorem local_isolated (h : OnDisk disk shelf) (hchecked : shelf.Checked) :
    Isolated local_store disk := by
  intro id other hne filename
  obtain ⟨_, hafter⟩ := local_call h hchecked (.delete id)
  obtain ⟨hanswer, _⟩ := local_call hafter (hchecked.after _) (.get other filename)
  obtain ⟨hbefore, _⟩ := local_call h hchecked (.get other filename)
  exact hanswer.get_eq hbefore (after_delete_other hne)

theorem s3_isolated (h : InBucket store objects shelf) (hchecked : shelf.Checked) :
    Isolated (s3_store casefold store) objects := by
  intro id other hne filename
  obtain ⟨_, _, hafter⟩ := s3_call casefold h hchecked (.delete id)
  obtain ⟨hanswer, _⟩ := s3_call casefold hafter (hchecked.after _) (.get other filename)
  obtain ⟨hbefore, _⟩ := s3_call casefold h hchecked (.get other filename)
  exact (hanswer trivial).get_eq (hbefore trivial) (after_delete_other hne)

/-- **The stores agree** on a sequence of calls exactly when none of them
    materializes a package with two filenames that fold to one, and in either
    store a deletion leaves every other key alone. -/
theorem stores_agree_iff :
    (∀ calls, List.Forall₂ Outcome.Same (local_store.run ∅ calls).1
        ((s3_store casefold store).run ∅ calls).1 ↔
      Unaliased casefold Shelf.bare calls) ∧
    ∀ calls, Isolated local_store (local_store.run ∅ calls).2 ∧
      Isolated (s3_store casefold store) ((s3_store casefold store).run ∅ calls).2 := by
  constructor
  · exact run_same_iff casefold store bare_on_disk (bare_in_bucket store) bare_checked
  · intro calls
    obtain ⟨shelf, hdisk, hbucket, hchecked⟩ :=
      run_holds casefold store bare_on_disk (bare_in_bucket store) bare_checked calls
    exact ⟨local_isolated hdisk hchecked, s3_isolated casefold store hbucket hchecked⟩

end Both

/-- `casefold()` of a text in ASCII. -/
def casefold_ascii (s : String) : String := String.ofList (s.toList.map Char.toLower)

/-- Two files whose names differ in the case of one letter. -/
def two_cases : List Call :=
  let id : StrategyId := ⟨"x", by decide +kernel, by unfold Segments.Uncut; decide +kernel⟩
  [.put id "strategy.py" "pass", .put id "Strategy.py" "pass", .materialize id]

/-- The disk materializes both, and the bucket refuses. -/
theorem two_cases_differ :
    ¬ List.Forall₂ Outcome.Same (local_store.run ∅ two_cases).1
      ((s3_store casefold_ascii ⟨"bucket", ""⟩).run ∅ two_cases).1 := by
  rw [run_same_iff _ _ bare_on_disk (bare_in_bucket _) bare_checked]
  rintro ⟨_, _, hinj, _⟩
  have hnames := @hinj "strategy.py" (by decide +kernel) "Strategy.py" (by decide +kernel)
    (by decide +kernel)
  exact absurd hnames (by decide)

end Storage
