import BacktestVisualizer.Framework.Fallible
import Mathlib.Data.List.AList
import Mathlib.Data.List.Infix
import Mathlib.Data.List.Sublists
import Mathlib.Data.List.Sort
import Mathlib.Tactic

/-! # Storage

  Two kinds of storage over finite maps. A bucket maps whole keys to objects
  and lists them by how they start. A tree of files maps paths to directories
  and files, and asks for the directory of a path before anything is put in
  it.
-/

/-! ### Finite maps -/

/-- A finite map. -/
abbrev Keyed (κ β : Type) := AList (fun _ : κ => β)

namespace Keyed

variable {κ β : Type} [DecidableEq κ]

/-- The value of a key. -/
def get (m : Keyed κ β) (k : κ) : Option β := m.lookup k

/-- Erase keys one after the other. -/
def erase_all (m : Keyed κ β) (ks : List κ) : Keyed κ β := ks.foldl (fun m k => m.erase k) m

@[simp] theorem get_empty (k : κ) : get (∅ : Keyed κ β) k = none := rfl

theorem get_insert (m : Keyed κ β) (k j : κ) (b : β) :
    get (m.insert k b) j = if j = k then some b else get m j := by
  unfold get
  split
  · rename_i h
    rw [h, AList.lookup_insert]
  · rename_i h
    exact AList.lookup_insert_ne h

theorem get_erase (m : Keyed κ β) (k j : κ) :
    get (m.erase k) j = if j = k then none else get m j := by
  unfold get
  split
  · rename_i h
    rw [h, AList.lookup_erase]
  · rename_i h
    exact AList.lookup_erase_ne h

theorem get_erase_all (m : Keyed κ β) (ks : List κ) (j : κ) :
    get (erase_all m ks) j = if j ∈ ks then none else get m j := by
  unfold erase_all
  induction ks generalizing m with
  | nil => simp
  | cons k ks ih =>
    rw [List.foldl_cons, ih, get_erase]
    by_cases hks : j ∈ ks
    · simp [hks]
    · by_cases hk : j = k
      · simp [hk]
      · simp [hks, hk]

theorem get_union (m n : Keyed κ β) (k : κ) : get (m ∪ n) k = (get m k).or (get n k) := by
  unfold get
  cases h : m.lookup k with
  | none =>
    rw [AList.lookup_union_right (AList.lookup_eq_none.mp h)]
    rfl
  | some b =>
    have hmem : k ∈ m := AList.lookup_isSome.mp (by rw [h]; rfl)
    rw [AList.lookup_union_left hmem, h]
    rfl

/-- Batch after batch erases what all batches hold. -/
theorem foldl_erase_all (m : Keyed κ β) (batches : List (List κ)) :
    batches.foldl (fun m ks => erase_all m ks) m = erase_all m batches.flatten := by
  unfold erase_all
  rw [List.foldl_flatten]

theorem mem_keys {m : Keyed κ β} {k : κ} : k ∈ m.keys ↔ get m k ≠ none := by
  unfold get
  rw [ne_eq, AList.lookup_eq_none, not_not, AList.mem_keys]

/-- Maps with the same values hold the same entries. -/
theorem entries_perm {m n : Keyed κ β} (h : ∀ k, get m k = get n k) :
    m.entries.Perm n.entries := by
  apply List.lookup_ext m.nodupKeys n.nodupKeys
  intro k b
  show b ∈ get m k ↔ b ∈ get n k
  rw [h]

end Keyed

/-! ### Maps kept newest first

  A map that is only written by `insert` lists its entries newest first. -/

namespace Keyed

variable {κ β : Type}

/-- Drop the oldest entry. -/
def pop_oldest (m : Keyed κ β) : Keyed κ β :=
  ⟨m.entries.dropLast, m.nodupKeys.sublist (List.dropLast_sublist m.entries)⟩

/-- Drop the oldest entries while there are more than `size`. -/
def trim (size : ℕ) (m : Keyed κ β) : Keyed κ β := pop_oldest^[m.entries.length - size] m

theorem entries_pop_oldest (m : Keyed κ β) (n : ℕ) :
    (pop_oldest^[n] m).entries = m.entries.take (m.entries.length - n) := by
  induction n with
  | zero => simp
  | succ n ih =>
    rw [Function.iterate_succ_apply']
    show (pop_oldest^[n] m).entries.dropLast = _
    rw [ih, List.dropLast_eq_take, List.take_take, List.length_take]
    congr 1
    omega

theorem entries_trim (size : ℕ) (m : Keyed κ β) :
    (trim size m).entries = m.entries.take size := by
  unfold trim
  rw [entries_pop_oldest]
  by_cases h : size ≤ m.entries.length
  · congr 1
    omega
  · rw [List.take_of_length_le (by omega), List.take_of_length_le (by omega)]

theorem length_trim (size : ℕ) (m : Keyed κ β) : (trim size m).entries.length ≤ size := by
  rw [entries_trim]
  exact List.length_take_le size m.entries

variable [DecidableEq κ]

/-- Write it again, as the newest. -/
def move_to_end (m : Keyed κ β) (k : κ) : Keyed κ β :=
  match get m k with
  | none => m
  | some b => m.insert k b

theorem get_of_mem {m : Keyed κ β} {k : κ} {b : β} (h : ⟨k, b⟩ ∈ m.entries) :
    get m k = some b :=
  AList.mem_lookup_iff.mpr h

/-- What is left was there. -/
theorem get_of_trim {size : ℕ} {m : Keyed κ β} {k : κ} {b : β}
    (h : get (trim size m) k = some b) : get m k = some b := by
  have hmem : (⟨k, b⟩ : Sigma fun _ : κ => β) ∈ (trim size m).entries :=
    AList.mem_lookup_iff.mp h
  rw [entries_trim] at hmem
  exact get_of_mem (List.mem_of_mem_take hmem)

theorem get_move_to_end (m : Keyed κ β) (k j : κ) : get (move_to_end m k) j = get m j := by
  unfold move_to_end
  cases hk : get m k with
  | none => rfl
  | some b =>
    simp only
    rw [get_insert]
    by_cases hjk : j = k
    · rw [if_pos hjk, hjk, hk]
    · rw [if_neg hjk]

/-- Moving an entry adds none. -/
theorem length_move_to_end (m : Keyed κ β) (k : κ) :
    (move_to_end m k).entries.length = m.entries.length := by
  unfold move_to_end
  cases hk : get m k with
  | none => rfl
  | some b =>
    have hmem : k ∈ m.keys := mem_keys.mpr (by rw [hk]; simp)
    have hlength : ((m.insert k b).keys).length = m.keys.length := by
      rw [AList.keys_insert, List.length_cons, List.length_erase_of_mem hmem]
      have hpos := List.length_pos_of_mem hmem
      omega
    simpa [AList.keys, List.keys] using hlength

end Keyed

/-! ### Trees of files -/

namespace FileTree

inductive Entry (β : Type) where
  | dir
  | file (bytes : β)
  deriving DecidableEq, Repr

/-- The entries below a root, which is always there. -/
abbrev Tree (ν β : Type) := Keyed (List ν) (Entry β)

inductive OSError where
  | file_not_found
  | not_a_directory
  | is_a_directory
  | file_exists
  deriving DecidableEq, Repr

variable {ν β : Type} [DecidableEq ν]

/-- `path.is_dir()`. -/
def is_dir (t : Tree ν β) (path : List ν) : Bool :=
  match path, t.get path with
  | [], _ => true
  | _, some .dir => true
  | _, _ => false

/-- What is raised where nothing is: the way there may lead through a file. -/
def missing (t : Tree ν β) (path : List ν) : OSError :=
  if path.inits.any (fun p => match t.get p with
    | some (.file _) => true
    | _ => false) then .not_a_directory
  else .file_not_found

/-- One directory of `path.mkdir(parents=True, exist_ok=True)`. -/
def mkdir_one (path : List ν) (t : Tree ν β) (p : List ν) : Except OSError (Tree ν β) :=
  match t.get p with
  | none => .ok (t.insert p .dir)
  | some .dir => .ok t
  | some (.file _) => .error (if p = path then .file_exists else .not_a_directory)

/-- `path.mkdir(parents=True, exist_ok=True)`, from the outermost in. -/
def mkdir (t : Tree ν β) (path : List ν) : Except OSError (Tree ν β) :=
  (path.inits.filter (fun p => p ≠ [])).foldlM (mkdir_one path) t

/-- Write a whole file. -/
def write_file (t : Tree ν β) (path : List ν) (bytes : β) : Except OSError (Tree ν β) :=
  if is_dir t path.dropLast then
    if is_dir t path then .error .is_a_directory else .ok (t.insert path (.file bytes))
  else .error (missing t path)

/-- Read a whole file. -/
def read_file (t : Tree ν β) (path : List ν) : Except OSError β :=
  match t.get path with
  | some (.file bytes) => .ok bytes
  | some .dir => .error .is_a_directory
  | none => .error (missing t path)

/-- `directory.iterdir()`. -/
def iterdir (t : Tree ν β) (directory : List ν) : List (List ν) :=
  t.keys.filter (fun p => p ≠ [] ∧ p.dropLast = directory)

/-- `directory.rglob("*")`. -/
def rglob (t : Tree ν β) (directory : List ν) : List (List ν) :=
  t.keys.filter (fun p => directory.isPrefixOf p ∧ p ≠ directory)

/-- `shutil.rmtree(directory)`. -/
def rmtree (t : Tree ν β) (directory : List ν) : Except OSError (Tree ν β) :=
  match t.get directory with
  | some .dir => .ok (t.erase_all (t.keys.filter (fun p => directory.isPrefixOf p)))
  | some (.file _) => .error .not_a_directory
  | none => .error (missing t directory)

/-- Write a whole file after asking for its directory. -/
def put_file (t : Tree ν β) (path : List ν) (bytes : β) : Except OSError (Tree ν β) := do
  let t ← mkdir t path.dropLast
  write_file t path bytes

/-! ### What the operations do -/

theorem is_dir_iff {t : Tree ν β} {path : List ν} (h : path ≠ []) :
    is_dir t path = true ↔ t.get path = some .dir := by
  cases path with
  | nil => exact absurd rfl h
  | cons n path =>
    unfold is_dir
    cases hget : t.get (n :: path) with
    | none => simp
    | some entry =>
      cases entry with
      | dir => simp
      | file bytes => simp

theorem mkdir_one_ok {t : Tree ν β} (path : List ν) {p : List ν}
    (h : ∀ bytes, t.get p ≠ some (.file bytes)) :
    ∃ t', mkdir_one path t p = .ok t' ∧
      ∀ q, t'.get q = if q = p then some .dir else t.get q := by
  unfold mkdir_one
  cases hget : t.get p with
  | none => exact ⟨_, rfl, fun q => Keyed.get_insert t p q .dir⟩
  | some entry =>
    cases entry with
    | file bytes => exact absurd hget (h bytes)
    | dir =>
      refine ⟨t, rfl, ?_⟩
      intro q
      split
      · rename_i hq
        rw [hq, hget]
      · rfl

theorem foldlM_mkdir_one {t : Tree ν β} (path : List ν) {ps : List (List ν)}
    (h : ∀ p ∈ ps, ∀ bytes, t.get p ≠ some (.file bytes)) :
    ∃ t', ps.foldlM (mkdir_one path) t = .ok t' ∧
      ∀ q, t'.get q = if q ∈ ps then some .dir else t.get q := by
  induction ps generalizing t with
  | nil => exact ⟨t, rfl, by simp⟩
  | cons p ps ih =>
    obtain ⟨t₁, hone, hget⟩ := mkdir_one_ok path (h p List.mem_cons_self)
    have hrest : ∀ q ∈ ps, ∀ bytes, t₁.get q ≠ some (.file bytes) := by
      intro q hq bytes
      rw [hget]
      split
      · simp
      · exact h q (List.mem_cons_of_mem _ hq) bytes
    obtain ⟨t₂, hfold, hget₂⟩ := ih hrest
    refine ⟨t₂, ?_, ?_⟩
    · rw [List.foldlM_cons, hone]
      exact hfold
    · intro q
      rw [hget₂, hget]
      by_cases hps : q ∈ ps
      · simp [hps]
      · simp [hps]

/-- **`mkdir`** with no file in its way. -/
theorem mkdir_ok {t : Tree ν β} {path : List ν}
    (h : ∀ p, p <+: path → ∀ bytes, t.get p ≠ some (.file bytes)) :
    ∃ t', mkdir t path = .ok t' ∧
      ∀ q, t'.get q = if q <+: path ∧ q ≠ [] then some .dir else t.get q := by
  unfold mkdir
  have hfree : ∀ p ∈ path.inits.filter (fun p => p ≠ []), ∀ bytes,
      t.get p ≠ some (.file bytes) := by
    intro p hp
    exact h p ((List.mem_inits _ _).mp (List.mem_of_mem_filter hp))
  obtain ⟨t', hfold, hget⟩ := foldlM_mkdir_one path hfree
  refine ⟨t', hfold, ?_⟩
  intro q
  rw [hget]
  simp [List.mem_inits]

omit [DecidableEq ν] in
theorem not_prefix_dropLast {path : List ν} (h : path ≠ []) : ¬ path <+: path.dropLast := by
  intro hbegins
  have hlen := hbegins.length_le
  have hpos := List.length_pos_iff.mpr h
  rw [List.length_dropLast] at hlen
  omega

/-- **A file is put** where no file is in its way, and no directory in its
    place. -/
theorem put_file_ok {t : Tree ν β} {path : List ν} (bytes : β) (hpath : path ≠ [])
    (h : ∀ p, p <+: path.dropLast → ∀ bytes, t.get p ≠ some (.file bytes))
    (hplace : t.get path ≠ some .dir) :
    ∃ t', put_file t path bytes = .ok t' ∧
      ∀ q, t'.get q =
        if q = path then some (.file bytes)
        else if q <+: path.dropLast ∧ q ≠ [] then some .dir
        else t.get q := by
  obtain ⟨t₁, hmkdir, hget⟩ := mkdir_ok h
  have hparent : is_dir t₁ path.dropLast = true := by
    by_cases hroot : path.dropLast = []
    · rw [hroot]
      rfl
    · rw [is_dir_iff hroot, hget, if_pos ⟨List.prefix_rfl, hroot⟩]
  have hfree : ¬ is_dir t₁ path = true := by
    rw [is_dir_iff hpath, hget, if_neg (fun hdir => not_prefix_dropLast hpath hdir.1)]
    exact hplace
  refine ⟨t₁.insert path (.file bytes), ?_, ?_⟩
  · unfold put_file
    rw [hmkdir]
    show write_file t₁ path bytes = _
    unfold write_file
    rw [if_pos hparent, if_neg hfree]
  · intro q
    rw [Keyed.get_insert, hget]

/-- Making directories leaves the files alone. -/
theorem mkdir_files {t t' : Tree ν β} {path : List ν} (h : mkdir t path = .ok t') (q : List ν)
    (bytes : β) : t'.get q = some (.file bytes) ↔ t.get q = some (.file bytes) := by
  apply Fallible.foldlM_preserves (P := fun u => u.get q = some (.file bytes) ↔
    t.get q = some (.file bytes)) _ h Iff.rfl
  intro u u' p _ hmk hu
  rw [← hu]
  unfold mkdir_one at hmk
  cases hget : u.get p with
  | none =>
    simp only [hget] at hmk
    obtain rfl := Except.ok.inj hmk
    rw [Keyed.get_insert]
    split
    · rename_i hq
      rw [hq, hget]
      simp
    · rfl
  | some entry =>
    cases entry with
    | dir =>
      simp only [hget] at hmk
      obtain rfl := Except.ok.inj hmk
      rfl
    | file => simp [hget] at hmk

/-- A file that is put is there, and no other file has changed. -/
theorem put_file_files {t t' : Tree ν β} {path : List ν} {bytes : β}
    (h : put_file t path bytes = .ok t') (q : List ν) (b : β) :
    t'.get q = some (.file b) ↔ if q = path then b = bytes else t.get q = some (.file b) := by
  obtain ⟨u, hmkdir, hwrite⟩ := Fallible.bind_ok h
  unfold write_file at hwrite
  split at hwrite
  · split at hwrite
    · exact absurd hwrite (by simp)
    · obtain rfl := Except.ok.inj hwrite
      rw [Keyed.get_insert]
      split
      · simp [eq_comm]
      · exact mkdir_files hmkdir q b
  · exact absurd hwrite (by simp)

/-- A file at the root needs no directory. -/
theorem put_file_root {t : Tree ν β} {n : ν} (bytes : β) (h : t.get [n] ≠ some .dir) :
    put_file t [n] bytes = .ok (t.insert [n] (.file bytes)) := by
  have hmkdir : mkdir t ([n] : List ν).dropLast = .ok t := rfl
  have hfree : ¬ is_dir t [n] = true := by
    rw [is_dir_iff (by simp)]
    exact h
  unfold put_file
  rw [hmkdir]
  have hroot : is_dir t ([n] : List ν).dropLast = true := rfl
  show write_file t [n] bytes = _
  unfold write_file
  rw [if_pos hroot, if_neg hfree]

/-- Nothing is missing for another reason where no file is in the way. -/
theorem missing_of_no_file {t : Tree ν β} {path : List ν}
    (h : ∀ p, p <+: path → ∀ bytes, t.get p ≠ some (.file bytes)) :
    missing t path = .file_not_found := by
  unfold missing
  rw [if_neg]
  intro hany
  obtain ⟨p, hp, hfile⟩ := List.any_eq_true.mp hany
  split at hfile
  · rename_i bytes hget
    exact h p ((List.mem_inits _ _).mp hp) bytes hget
  · exact absurd hfile (by simp)

theorem missing_cases (t : Tree ν β) (path : List ν) :
    missing t path = .not_a_directory ∨ missing t path = .file_not_found := by
  unfold missing
  split
  · exact Or.inl rfl
  · exact Or.inr rfl

theorem mem_iterdir {t : Tree ν β} {directory p : List ν} :
    p ∈ iterdir t directory ↔ t.get p ≠ none ∧ p ≠ [] ∧ p.dropLast = directory := by
  unfold iterdir
  rw [List.mem_filter, Keyed.mem_keys]
  simp

theorem mem_rglob {t : Tree ν β} {directory p : List ν} :
    p ∈ rglob t directory ↔ t.get p ≠ none ∧ directory <+: p ∧ p ≠ directory := by
  unfold rglob
  rw [List.mem_filter, Keyed.mem_keys]
  simp [List.isPrefixOf_iff_prefix]

theorem rmtree_ok {t : Tree ν β} {directory : List ν} (h : t.get directory = some .dir) :
    ∃ t', rmtree t directory = .ok t' ∧
      ∀ q, t'.get q = if directory <+: q then none else t.get q := by
  unfold rmtree
  rw [h]
  refine ⟨_, rfl, ?_⟩
  intro q
  rw [Keyed.get_erase_all]
  have hmem : q ∈ t.keys.filter (fun p => directory.isPrefixOf p) ↔
      t.get q ≠ none ∧ directory <+: q := by
    rw [List.mem_filter, Keyed.mem_keys, List.isPrefixOf_iff_prefix]
  by_cases hnone : t.get q = none
  · rw [hnone, ite_self, ite_self]
  · simp only [hmem, hnone, ne_eq, not_false_eq_true, true_and]

/-! ### Well-formed trees -/

theorem mkdir_one_get {t t' : Tree ν β} {path p : List ν} (h : mkdir_one path t p = .ok t')
    (q : List ν) : t'.get q = if q = p then some .dir else t.get q := by
  unfold mkdir_one at h
  cases hget : t.get p with
  | none =>
    simp only [hget] at h
    obtain rfl := Except.ok.inj h
    exact Keyed.get_insert t p q .dir
  | some entry =>
    cases entry with
    | dir =>
      simp only [hget] at h
      obtain rfl := Except.ok.inj h
      split
      · rename_i hq
        rw [hq, hget]
      · rfl
    | file => simp [hget] at h

theorem foldlM_mkdir_one_get {path : List ν} {ps : List (List ν)} {t t' : Tree ν β}
    (h : ps.foldlM (mkdir_one path) t = .ok t') (q : List ν) :
    t'.get q = if q ∈ ps then some .dir else t.get q := by
  induction ps generalizing t with
  | nil =>
    obtain rfl := Except.ok.inj h
    simp
  | cons p ps ih =>
    obtain ⟨u, hone, hrest⟩ := Fallible.bind_ok h
    rw [ih hrest, mkdir_one_get hone]
    by_cases hps : q ∈ ps
    · simp [hps]
    · simp [hps]

/-- What a tree holds once the directories on a path are made. -/
theorem mkdir_get {t t' : Tree ν β} {path : List ν} (h : mkdir t path = .ok t') (q : List ν) :
    t'.get q = if q <+: path ∧ q ≠ [] then some .dir else t.get q := by
  rw [foldlM_mkdir_one_get h]
  simp [List.mem_inits]

omit [DecidableEq ν] in
/-- A path that begins another one and is not the whole of it. -/
theorem prefix_dropLast {p q : List ν} (h : p <+: q) (hne : p ≠ q) : p <+: q.dropLast := by
  obtain ⟨rest, rfl⟩ := h
  have hrest : rest ≠ [] := by
    intro hnil
    rw [hnil, List.append_nil] at hne
    exact hne rfl
  rw [List.dropLast_append_of_ne_nil hrest]
  exact List.prefix_append p rest.dropLast

/-- What a tree holds once a file is put, and what was not in its place. -/
theorem put_file_get {t t' : Tree ν β} {path : List ν} {bytes : β}
    (h : put_file t path bytes = .ok t') :
    path ≠ [] ∧ t.get path ≠ some .dir ∧ ∀ q, t'.get q =
      if q = path then some (.file bytes)
      else if q <+: path.dropLast ∧ q ≠ [] then some .dir
      else t.get q := by
  obtain ⟨u, hmkdir, hwrite⟩ := Fallible.bind_ok h
  unfold write_file at hwrite
  split at hwrite
  · split at hwrite
    · exact absurd hwrite (by simp)
    · rename_i hfree
      have hpath : path ≠ [] := by
        rintro rfl
        exact hfree rfl
      have hbefore : u.get path = t.get path := by
        rw [mkdir_get hmkdir, if_neg (fun hdir => not_prefix_dropLast hpath hdir.1)]
      rw [is_dir_iff hpath, hbefore] at hfree
      obtain rfl := Except.ok.inj hwrite
      refine ⟨hpath, hfree, ?_⟩
      intro q
      rw [Keyed.get_insert, mkdir_get hmkdir]
  · exact absurd hwrite (by simp)

/-- Whatever is there lies in directories that are there. -/
def WellFormed (t : Tree ν β) : Prop :=
  ∀ p q, p <+: q → p ≠ [] → p ≠ q → t.get q ≠ none → t.get p = some .dir

theorem WellFormed.mkdir {t t' : Tree ν β} {path : List ν} (h : WellFormed t)
    (hok : mkdir t path = .ok t') : WellFormed t' := by
  intro p q hpq hp hne hq
  rw [mkdir_get hok] at hq ⊢
  split
  · rfl
  · rename_i hoff
    have hq' : ¬ (q <+: path ∧ q ≠ []) := by
      intro hon
      exact hoff ⟨hpq.trans hon.1, hp⟩
    rw [if_neg hq'] at hq
    exact h p q hpq hp hne hq

theorem WellFormed.put_file {t t' : Tree ν β} {path : List ν} {bytes : β} (h : WellFormed t)
    (hok : put_file t path bytes = .ok t') : WellFormed t' := by
  obtain ⟨hpath, hplace, hget⟩ := put_file_get hok
  intro p q hpq hp hne hq
  -- only a path beside the new file and its directories was there before
  by_cases hon : p <+: path.dropLast
  · have hother : p ≠ path := by
      rintro rfl
      exact not_prefix_dropLast hpath hon
    rw [hget, if_neg hother, if_pos ⟨hon, hp⟩]
  · have hq₁ : q ≠ path := by
      rintro rfl
      exact hon (prefix_dropLast hpq hne)
    have hq₂ : ¬ (q <+: path.dropLast ∧ q ≠ []) := by
      intro hdir
      exact hon (hpq.trans hdir.1)
    rw [hget, if_neg hq₁, if_neg hq₂] at hq
    have hdir := h p q hpq hp hne hq
    have hother : p ≠ path := by
      rintro rfl
      exact hplace hdir
    rw [hget, if_neg hother, if_neg (fun hboth => hon hboth.1)]
    exact hdir

theorem WellFormed.rmtree {t t' : Tree ν β} {directory : List ν} (h : WellFormed t)
    (hok : rmtree t directory = .ok t') :
    t.get directory = some .dir ∧ WellFormed t' ∧
      ∀ q, t'.get q = if directory <+: q then none else t.get q := by
  have hdir : t.get directory = some .dir := by
    unfold FileTree.rmtree at hok
    split at hok
    · rename_i hget
      exact hget
    · exact absurd hok (by simp)
    · exact absurd hok (by simp)
  obtain ⟨u, hu, hget⟩ := rmtree_ok hdir
  rw [hu] at hok
  obtain rfl := Except.ok.inj hok
  refine ⟨hdir, ?_, hget⟩
  intro p q hpq hp hne hq
  rw [hget] at hq ⊢
  split at hq
  · exact absurd rfl hq
  · rename_i hout
    rw [if_neg (fun hin => hout (hin.trans hpq))]
    exact h p q hpq hp hne hq

/-- Nothing is below what is no directory. -/
theorem WellFormed.bare {t : Tree ν β} (h : WellFormed t) {directory q : List ν}
    (hne : directory ≠ []) (hdir : t.get directory ≠ some .dir) (hbelow : directory <+: q)
    (hq : q ≠ directory) : t.get q = none := by
  by_contra hget
  exact hdir (h directory q hbelow hne hq.symm hget)

/-- Something below a directory begins with an entry of the directory. -/
theorem WellFormed.entry {t : Tree ν β} (h : WellFormed t) {directory q : List ν}
    (hbelow : directory <+: q) (hq : q ≠ directory) (hget : t.get q ≠ none) :
    ∃ p, p ∈ iterdir t directory := by
  obtain ⟨rest, rfl⟩ := hbelow
  cases rest with
  | nil => exact absurd (List.append_nil directory) hq
  | cons n rest =>
    refine ⟨directory ++ [n], mem_iterdir.mpr ⟨?_, by simp, List.dropLast_concat⟩⟩
    cases rest with
    | nil => exact hget
    | cons m rest =>
      have hbegins : directory ++ [n] <+: directory ++ n :: m :: rest := ⟨m :: rest, by simp⟩
      rw [h _ _ hbegins (by simp) (by simp) hget]
      simp

/-- A file at a path. -/
def file_at (t : Tree ν β) (path : List ν) : Option β :=
  match t.get path with
  | some (.file bytes) => some bytes
  | _ => none

theorem file_at_eq {t : Tree ν β} {path : List ν} {bytes : β} :
    file_at t path = some bytes ↔ t.get path = some (.file bytes) := by
  unfold file_at
  split
  · rename_i hget
    rw [hget]
    simp
  · rename_i hget
    simp only [reduceCtorEq, false_iff]
    exact hget bytes

theorem file_at_mkdir {t t' : Tree ν β} {path : List ν} (h : mkdir t path = .ok t')
    (q : List ν) : file_at t' q = file_at t q := by
  apply Option.ext
  intro bytes
  rw [file_at_eq, file_at_eq]
  exact mkdir_files h q bytes

theorem file_at_put_file {t t' : Tree ν β} {path : List ν} {bytes : β}
    (h : put_file t path bytes = .ok t') (q : List ν) :
    file_at t' q = if q = path then some bytes else file_at t q := by
  apply Option.ext
  intro b
  rw [file_at_eq, put_file_files h]
  split
  · simp [eq_comm]
  · exact file_at_eq.symm

theorem file_at_of_get {t t' : Tree ν β} {q : List ν} (h : t'.get q = t.get q) :
    file_at t' q = file_at t q := by
  unfold file_at
  rw [h]

theorem file_at_none {t : Tree ν β} {q : List ν} (h : t.get q = none) : file_at t q = none := by
  unfold file_at
  rw [h]

/-! ### Flat trees -/

/-- The entries of files that all stand at the root. -/
def flat_entry (files : ν → Option β) : List ν → Option (Entry β)
  | [n] => (files n).map Entry.file
  | _ => none

/-- A tree of such files. -/
def Flat (t : Tree ν β) (files : ν → Option β) : Prop := ∀ p, t.get p = flat_entry files p

/-- Two trees of the same files hold the same entries. -/
theorem Flat.entries_perm {t t' : Tree ν β} {files : ν → Option β} (h : Flat t files)
    (h' : Flat t' files) : t.entries.Perm t'.entries := by
  apply Keyed.entries_perm
  intro p
  rw [h p, h' p]

/-- **Files put one after the other** at the root of an empty tree. -/
theorem foldlM_flat {α ε : Type} {f : Tree ν β → α → Except ε (Tree ν β)} {name : α → ν}
    {files : ν → Option β} {l : List α}
    (hf : ∀ a ∈ l, ∃ bytes, files (name a) = some bytes ∧
      ∀ t : Tree ν β, (∀ p, t.get p ≠ some .dir) →
        f t a = .ok (t.insert [name a] (.file bytes)))
    (hall : ∀ n, files n ≠ none → ∃ a ∈ l, name a = n) :
    ∃ t, l.foldlM f (∅ : Tree ν β) = .ok t ∧ Flat t files := by
  have hgen : ∀ (t : Tree ν β), (∀ p, t.get p ≠ some .dir) →
      ∃ t', l.foldlM f t = .ok t' ∧
        ((∀ p, (∃ a ∈ l, p = [name a]) → t'.get p = flat_entry files p) ∧
          ∀ p, (¬ ∃ a ∈ l, p = [name a]) → t'.get p = t.get p) := by
    clear hall
    induction l with
    | nil => exact fun t _ => ⟨t, rfl, by simp, by simp⟩
    | cons a l ih =>
      intro t ht
      obtain ⟨bytes, hfile, hstep⟩ := hf a List.mem_cons_self
      have hnext : ∀ p, Keyed.get (t.insert [name a] (.file bytes)) p ≠ some .dir := by
        intro p
        rw [Keyed.get_insert]
        split
        · simp
        · exact ht p
      obtain ⟨t', hfold, hthere, helse⟩ :=
        ih (fun b hb => hf b (List.mem_cons_of_mem _ hb)) _ hnext
      refine ⟨t', ?_, ?_, ?_⟩
      · rw [List.foldlM_cons, hstep t ht]
        exact hfold
      · rintro p ⟨b, hb, hp⟩
        by_cases hl : ∃ b ∈ l, p = [name b]
        · exact hthere p hl
        · -- only the first file has this name
          rcases List.mem_cons.mp hb with rfl | hb
          · rw [helse p hl, Keyed.get_insert, if_pos hp, hp]
            show some (Entry.file bytes) = (files (name b)).map Entry.file
            rw [hfile]
            rfl
          · exact absurd ⟨b, hb, hp⟩ hl
      · intro p hp
        rw [helse p (fun ⟨b, hb, hname⟩ => hp ⟨b, List.mem_cons_of_mem _ hb, hname⟩),
          Keyed.get_insert, if_neg (fun hname => hp ⟨a, List.mem_cons_self, hname⟩)]
  obtain ⟨t, hfold, hthere, helse⟩ := hgen ∅ (by simp)
  refine ⟨t, hfold, ?_⟩
  intro p
  by_cases hl : ∃ a ∈ l, p = [name a]
  · exact hthere p hl
  · rw [helse p hl, Keyed.get_empty]
    match p with
    | [n] =>
      show none = (files n).map Entry.file
      cases hfile : files n with
      | none => rfl
      | some bytes =>
        obtain ⟨a, ha, rfl⟩ := hall n (by simp [hfile])
        exact absurd ⟨a, ha, rfl⟩ hl
    | [] => rfl
    | _ :: _ :: _ => rfl

end FileTree
