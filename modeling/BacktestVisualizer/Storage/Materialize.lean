import BacktestVisualizer.Framework.Fallible
import BacktestVisualizer.Storage.Interchangeable

/-! # Materialising is Confined

  `S3StrategyStore.materialize` again, with an S3 that answers as it likes:
  any keys, in any order and any pages, and any request may fail. All keys are
  looked at before the first file is written, and the files written lie below
  the destination, none on another and none inside another, even where names
  are folded to one case.

  No link is below the destination, so a path resolves to what its parts say.
-/

namespace Storage

open FileTree

/-! ### Paths on disk -/

/-- One part of a path, on the way down. -/
def step_into (directory : List String) (part : String) : List String :=
  if part = "" ∨ part = "." then directory
  else if part = ".." then directory.dropLast
  else directory ++ [part]

/-- The separators of either platform. -/
def is_separator (c : Char) : Bool := c == '/' || c == '\\'

/-- `directory.joinpath(segment).resolve()`, read as carelessly as any platform
    does: either slash separates, a slash in front or a drive starts again at
    the root. -/
def join_path (directory : List String) (segment : String) : List String :=
  let start := if segment.toList.any (· == ':') ∨ segment.toList.head?.any is_separator then []
    else directory
  ((segment.toList.splitOnP is_separator).map String.ofList).foldl step_into start

namespace S3StrategyStore

/-! ### What S3 answers -/

/-- What a call raises when S3 has its say. -/
inductive S3Error where
  | raised (e : StoreError)
  /-- "S3 returned a key outside requested prefix ...". -/
  | outside_requested (start : String)
  /-- "S3 ... on s3://...". -/
  | s3_failed (detail : String)
  deriving DecidableEq, Repr

/-- The reply to `get_object`, and to reading its body. -/
inductive Fetched where
  | body (bytes : ByteArray)
  | refused (e : S3Error)
  | broken (e : S3Error)

/-- The pages of a listing, each of which may fail, and the objects. -/
structure Remote where
  pages : List (Except S3Error (List String))
  get_object : String → Fetched

variable (casefold : String → String) (store : S3StrategyStore)

/-- One key of a page. -/
def plan_key (start : String) (plan : Plan) (object_key : String) : Except S3Error Plan :=
  if !Segments.starts_with object_key start then .error (.outside_requested start)
  else if Segments.ends_with key_separator object_key then .ok plan
  else (plan_object casefold store start plan object_key).mapError .raised

/-- The first loop of `materialize`, page by page. -/
def gather (start : String) (pages : List (Except S3Error (List String))) : Except S3Error Plan :=
  pages.foldlM (fun plan page => do
    let keys ← page
    keys.foldlM (plan_key casefold store start) plan) { targets := [], paths := [], directories := [] }

/-- What `materialize` has done: the disk, the files written and the result. -/
structure Materialized where
  disk : Disk
  written : List (List String)
  result : Except S3Error Unit

/-- The second loop: a body that breaks off leaves no file, and nothing after a
    failure is written. -/
def write_targets (get_object : String → Fetched) (disk : Disk) :
    List (String × List String) → Materialized
  | [] => { disk := disk, written := [], result := .ok () }
  | (object_key, target) :: targets =>
      let failed := fun disk e => { disk := disk, written := [], result := .error e : Materialized }
      let io_failed := fun e => S3Error.raised (.store_error (.io_failed (uri store object_key) e))
      match get_object object_key with
      | .refused e => failed disk e
      | .broken e =>
          match mkdir disk target.dropLast with
          | .ok disk => failed disk e
          | .error e => failed disk (io_failed e)
      | .body bytes =>
          match put_file disk target bytes with
          | .error e => failed disk (io_failed e)
          | .ok disk =>
              let rest := write_targets get_object disk targets
              { rest with written := target :: rest.written }

/-- `materialize`, with an S3 that may fail. -/
def materialize_remote (remote : Remote) (key : String) (destination : Disk) : Materialized :=
  let refused := fun e =>
    { disk := destination, written := [], result := .error e : Materialized }
  match prefix_for store key with
  | .error e => refused (.raised e)
  | .ok start =>
      match gather casefold store start remote.pages with
      | .error e => refused e
      | .ok plan =>
          if plan.targets.isEmpty then refused (.raised (.key_error key))
          else write_targets store remote.get_object destination plan.targets

end S3StrategyStore

/-! ### Accepted names -/

/-- The characters of an accepted name, and its end. -/
theorem object_name_chars {name n : String} (h : object_name name = .ok n) :
    (∀ c ∈ name.toList, is_separator c = false ∧ c ≠ ':') ∧
      Segments.ends_with '.' name = false := by
  unfold object_name at h
  simp only at h
  split at h
  · exact absurd h (by simp)
  · rename_i hvalid
    simp only [not_or] at hvalid
    obtain ⟨_, _, hdot, hchars, _⟩ := hvalid
    refine ⟨?_, by simpa using hdot⟩
    intro c hc
    have hrefused : ∀ d ∈ "/\\<>:\"|?*".toList, c ≠ d := by
      rintro d hd rfl
      apply hchars
      exact List.any_eq_true.mpr ⟨c, hc, by simp only [hd, decide_true, Bool.true_or]⟩
    have hslash := hrefused '/' (by decide +kernel)
    have hback := hrefused '\\' (by decide +kernel)
    exact ⟨by simp [is_separator, hslash, hback], hrefused ':' (by decide +kernel)⟩

/-- **An accepted name** is one step down, on either platform. -/
theorem join_path_object_name {name n : String} (h : object_name name = .ok n)
    (directory : List String) : join_path directory name = directory ++ [name] := by
  obtain ⟨_, hne, _⟩ := object_name_ok h
  obtain ⟨hchars, hdot⟩ := object_name_chars h
  -- no part of the name leads out of the directory
  have hstay : ¬ (name.toList.any (· == ':') ∨ name.toList.head?.any is_separator) := by
    rintro (hcolon | hfront)
    · obtain ⟨c, hc, heq⟩ := List.any_eq_true.mp hcolon
      exact (hchars c hc).2 (by simpa using heq)
    · cases hlist : name.toList with
      | nil => simp [hlist] at hfront
      | cons c l =>
        have hc := (hchars c (by rw [hlist]; exact List.mem_cons_self)).1
        simp [hlist, hc] at hfront
  have hone : name.toList.splitOnP is_separator = [name.toList] :=
    List.splitOnP_eq_singleton (fun c hc => (hchars c hc).1)
  have hcurrent : name ≠ "." := by
    rintro rfl
    exact absurd hdot (by decide +kernel)
  have hparent : name ≠ ".." := by
    rintro rfl
    exact absurd hdot (by decide +kernel)
  unfold join_path
  simp only [if_neg hstay, hone, List.map_cons, List.map_nil, String.ofList_toList,
    List.foldl_cons, List.foldl_nil]
  unfold step_into
  rw [if_neg (by simp [hne, hcurrent]), if_neg hparent]

/-- A path strictly inside a destination: it resolves below the root of the
    destination, wherever that is. -/
def Inside (target : List String) : Prop :=
  target ≠ [] ∧ ∀ root : List String, target.foldl join_path root = root ++ target

theorem inside_of_names {target : List String} (hne : target ≠ [])
    (h : ∀ s ∈ target, object_name s = .ok s) : Inside target := by
  refine ⟨hne, ?_⟩
  clear hne
  induction target with
  | nil => simp
  | cons s target ih =>
    intro root
    rw [List.foldl_cons, join_path_object_name (h s List.mem_cons_self),
      ih (fun s' hs' => h s' (List.mem_cons_of_mem _ hs')), List.append_assoc]
    rfl

/-- A list of names that are all accepted is left as it is. -/
theorem names_ok {parts names : List String} (h : parts.mapM object_name = .ok names) :
    names = parts ∧ ∀ s ∈ names, object_name s = .ok s := by
  have hall := Fallible.forall₂_of_mapM_ok h
  clear h
  induction hall with
  | nil => simp
  | cons hname _ ih =>
    obtain ⟨rfl, hrest⟩ := ih
    obtain ⟨rfl, _⟩ := object_name_ok hname
    refine ⟨rfl, ?_⟩
    intro s hs
    rcases List.mem_cons.mp hs with rfl | hs
    · exact hname
    · exact hrest s hs

/-- What `_materialize_target` accepts is the path as it was written. -/
theorem materialize_target_ok {relative : String} {target : List String}
    (h : materialize_target relative = .ok target) :
    Segments.join key_separator target = relative ∧ target ≠ [] ∧
      ∀ s ∈ target, object_name s = .ok s := by
  obtain ⟨hsplit, hnames⟩ := names_ok h
  refine ⟨?_, ?_, hnames⟩
  · rw [hsplit, Segments.join_split]
  · rw [hsplit]
    exact Segments.split_ne_nil relative

/-! ### Folded names -/

variable (casefold : String → String)

/-- A path with its names folded. -/
def folded (path : List String) : String := casefold (Segments.join key_separator path)

/-- A directory on the way from the destination to a path. -/
def Above (directory path : List String) : Prop :=
  directory ≠ [] ∧ directory <+: path ∧ directory ≠ path

/-- Folded, two paths are not one, and neither is on the way to the other. -/
structure Apart (a b : List String) : Prop where
  distinct : folded casefold a ≠ folded casefold b
  not_above : ∀ p, Above p b → folded casefold p ≠ folded casefold a
  not_below : ∀ p, Above p a → folded casefold p ≠ folded casefold b

/-- What `str.casefold` does: a table, character by character, that keeps the
    separator. -/
structure CharFold (table : Char → List Char) : Prop where
  each : ∀ s, (casefold s).toList = s.toList.flatMap table
  separator : table key_separator = [key_separator]

variable {casefold} in
/-- Such a folding goes name by name. -/
theorem folded_join {table : Char → List Char} (h : CharFold casefold table)
    (path : List String) :
    folded casefold path = Segments.join key_separator (path.map casefold) := by
  apply String.toList_inj.mp
  unfold folded Segments.join
  rw [h.each, String.toList_ofList, String.toList_ofList, List.map_map]
  induction path with
  | nil => rfl
  | cons name path ih =>
    by_cases hnil : path = []
    · subst hnil
      simp [h.each]
    · have hmap : path.map String.toList ≠ [] := by simpa using hnil
      have hmap' : path.map (String.toList ∘ casefold) ≠ [] := by simpa using hnil
      rw [List.map_cons, List.map_cons, List.intercalate_cons_of_ne_nil hmap,
        List.intercalate_cons_of_ne_nil hmap', List.flatMap_append, List.flatMap_append, ih]
      simp [h.each, h.separator]

variable {casefold} in
/-- Paths that are apart are so name by name: folded, neither starts the
    other. -/
theorem Apart.names {table : Char → List Char} (h : CharFold casefold table) {a b : List String}
    (hapart : Apart casefold a b) (ha : a ≠ []) : ¬ a.map casefold <+: b.map casefold := by
  intro hstarts
  have htake : (b.take a.length).map casefold = a.map casefold := by
    rw [List.map_take, List.prefix_iff_eq_take.mp hstarts, List.length_map]
  have hfolded : folded casefold (b.take a.length) = folded casefold a := by
    rw [folded_join h, folded_join h, htake]
  by_cases hall : b.take a.length = b
  · rw [hall] at hfolded
    exact hapart.distinct hfolded.symm
  · refine hapart.not_above _ ⟨?_, List.take_prefix _ _, hall⟩ hfolded
    intro hnil
    rw [hnil] at htake
    exact ha (List.map_eq_nil_iff.mp htake.symm)

theorem mem_parents {target : List String} {d : String} :
    d ∈ (target.inits.filter (fun p => p ≠ [] ∧ p ≠ target)).map (fun p =>
        casefold (Segments.join key_separator p)) ↔
      ∃ p, Above p target ∧ folded casefold p = d := by
  simp only [List.mem_map, List.mem_filter, List.mem_inits, decide_eq_true_eq, Above, folded]
  constructor
  · rintro ⟨p, ⟨hbegins, hne, hproper⟩, rfl⟩
    exact ⟨p, ⟨hne, hbegins, hproper⟩, rfl⟩
  · rintro ⟨p, ⟨hne, hbegins, hproper⟩, rfl⟩
    exact ⟨p, ⟨hbegins, hne, hproper⟩, rfl⟩

namespace S3StrategyStore

variable {casefold} {store : S3StrategyStore}

/-- The three sets describe the targets, and the targets are apart. -/
structure Plan.Sound (casefold : String → String) (plan : Plan) : Prop where
  names : ∀ x ∈ plan.targets, x.2 ≠ [] ∧ ∀ s ∈ x.2, object_name s = .ok s
  paths : ∀ x ∈ plan.targets, folded casefold x.2 ∈ plan.paths
  directories : ∀ x ∈ plan.targets, ∀ p, Above p x.2 → folded casefold p ∈ plan.directories
  apart : plan.targets.Pairwise (fun x y => Apart casefold x.2 y.2)

/-- An accepted object adds its target, which is apart from all others. -/
theorem plan_object_ok {start k : String} {plan plan' : Plan} (h : plan.Sound casefold)
    (hok : plan_object casefold store start plan k = .ok plan') :
    plan'.Sound casefold ∧ ∃ target, plan'.targets = plan.targets ++ [(k, target)] ∧
      Segments.join key_separator target = Segments.drop_start k start := by
  unfold plan_object at hok
  simp only at hok
  cases htarget : materialize_target (Segments.drop_start k start) with
  | error e => simp [htarget] at hok
  | ok target =>
    obtain ⟨hjoin, hne, hnames⟩ := materialize_target_ok htarget
    simp only [htarget] at hok
    split at hok
    · exact absurd hok (by simp)
    rename_i hfree
    obtain ⟨hpaths, hdirs⟩ := not_or.mp hfree
    obtain ⟨hdirs, hparents⟩ := not_or.mp hdirs
    obtain rfl := Except.ok.inj hok
    have hfolded : casefold (Segments.drop_start k start) = folded casefold target := by
      rw [folded, hjoin]
    rw [hfolded] at hpaths hdirs
    have hlast : ∀ x ∈ plan.targets ++ [(k, target)], x ∈ plan.targets ∨ x = (k, target) := by
      intro x hx
      rwa [List.mem_append, List.mem_singleton] at hx
    refine ⟨?_, target, rfl, hjoin⟩
    constructor
    · intro x hx
      rcases hlast x hx with hx | rfl
      · exact h.names x hx
      · exact ⟨hne, hnames⟩
    · intro x hx
      rcases hlast x hx with hx | rfl
      · exact List.mem_cons_of_mem _ (h.paths x hx)
      · rw [hfolded]
        exact List.mem_cons_self
    · intro x hx p hp
      rcases hlast x hx with hx | rfl
      · exact List.mem_append_right _ (h.directories x hx p hp)
      · exact List.mem_append_left _ ((mem_parents casefold).mpr ⟨p, hp, rfl⟩)
    · apply List.pairwise_append.mpr
      refine ⟨h.apart, List.pairwise_singleton _ _, ?_⟩
      intro x hx y hy
      rw [List.mem_singleton] at hy
      rw [hy]
      -- one test for each way to collide: the same path, above it, below it
      constructor
      · intro hsame
        exact hpaths (hsame ▸ h.paths x hx)
      · intro p hp hsame
        exact hparents ⟨_, (mem_parents casefold).mpr ⟨p, hp, rfl⟩, hsame ▸ h.paths x hx⟩
      · intro p hp hsame
        exact hdirs (hsame ▸ h.directories x hx p hp)

/-- The object of a target. -/
def object_of (start : String) (target : List String) : String :=
  start ++ Segments.join key_separator target

/-- The keys of a listing that are no markers. -/
def real_keys (keys : List String) : List String :=
  keys.filter (fun k => !Segments.ends_with key_separator k)

/-- One page: its keys are all looked at, in their order. -/
theorem foldlM_plan_key {start : String} {keys : List String} {plan plan' : Plan}
    (h : plan.Sound casefold)
    (hok : keys.foldlM (plan_key casefold store start) plan = .ok plan') :
    plan'.Sound casefold ∧
      plan'.targets.map (fun x => object_of start x.2) =
        plan.targets.map (fun x => object_of start x.2) ++ real_keys keys := by
  induction keys generalizing plan with
  | nil =>
    obtain rfl : plan = plan' := Except.ok.inj hok
    exact ⟨h, (List.append_nil _).symm⟩
  | cons k keys ih =>
    rw [List.foldlM_cons] at hok
    obtain ⟨plan₁, hone, hrest⟩ := Fallible.bind_ok hok
    unfold plan_key at hone
    split at hone
    · exact absurd hone (by simp)
    rename_i hstart
    split at hone
    · -- a marker is skipped
      rename_i hmarker
      obtain rfl := Except.ok.inj hone
      rw [real_keys, List.filter_cons_of_neg (by simp [hmarker])]
      exact ih h hrest
    · rename_i hreal
      obtain ⟨hsound, target, htargets, hjoin⟩ := plan_object_ok h (Fallible.mapError_ok.mp hone)
      obtain ⟨hsound', hlisted⟩ := ih hsound hrest
      have hobject : object_of start target = k := by
        rw [object_of, hjoin, Segments.append_drop_start (by simpa using hstart)]
      refine ⟨hsound', ?_⟩
      rw [hlisted, htargets, real_keys, real_keys, List.filter_cons_of_pos (by simp [hreal]),
        List.map_append, List.map_singleton, hobject, List.append_assoc]
      rfl

theorem empty_sound : Plan.Sound casefold { targets := [], paths := [], directories := [] } := by
  constructor
  · simp
  · simp
  · simp
  · exact List.Pairwise.nil

/-- **The first loop** has looked at every key of every page. -/
theorem gather_ok {start : String} {pages : List (Except S3Error (List String))} {plan : Plan}
    (hok : gather casefold store start pages = .ok plan) :
    plan.Sound casefold ∧ ∃ keys : List (List String), pages = keys.map .ok ∧
      plan.targets.map (fun x => object_of start x.2) = real_keys keys.flatten := by
  have hgen : ∀ (pages : List (Except S3Error (List String))) (plan₀ : Plan),
      plan₀.Sound casefold →
      pages.foldlM (fun plan page => do
        let keys ← page
        keys.foldlM (plan_key casefold store start) plan) plan₀ = .ok plan →
      plan.Sound casefold ∧ ∃ keys : List (List String), pages = keys.map .ok ∧
        plan.targets.map (fun x => object_of start x.2) =
          plan₀.targets.map (fun x => object_of start x.2) ++ real_keys keys.flatten := by
    intro pages
    induction pages with
    | nil =>
      intro plan₀ h hok
      obtain rfl : plan₀ = plan := Except.ok.inj hok
      exact ⟨h, [], rfl, (List.append_nil _).symm⟩
    | cons page pages ih =>
      intro plan₀ h hok
      rw [List.foldlM_cons] at hok
      obtain ⟨plan₁, hpage, hrest⟩ := Fallible.bind_ok hok
      obtain ⟨keys, rfl, hkeys⟩ := Fallible.bind_ok hpage
      obtain ⟨hsound, hlisted⟩ := foldlM_plan_key h hkeys
      -- the plan goes on from page to page
      obtain ⟨hsound', rest, rfl, hlisted'⟩ := ih plan₁ hsound hrest
      refine ⟨hsound', keys :: rest, rfl, ?_⟩
      rw [hlisted', hlisted, List.flatten_cons, real_keys, real_keys, real_keys,
        List.filter_append, List.append_assoc]
  exact hgen pages _ empty_sound hok

/-- **The second loop** writes the targets in their order, up to a failure, and
    no other file. -/
theorem write_targets_written (get_object : String → Fetched) (disk : Disk)
    (targets : List (String × List String)) :
    let done := write_targets store get_object disk targets
    done.written <+: targets.map (fun x => x.2) ∧
    (done.result = .ok () → done.written = targets.map (fun x => x.2)) ∧
    ∀ path, path ∉ done.written → ∀ bytes,
      (done.disk.get path = some (.file bytes) ↔ disk.get path = some (.file bytes)) := by
  induction targets generalizing disk with
  | nil => exact ⟨List.prefix_rfl, fun _ => rfl, fun _ _ _ => Iff.rfl⟩
  | cons x targets ih =>
    unfold write_targets
    simp only
    cases hfetch : get_object x.1 with
    | refused e => exact ⟨List.nil_prefix, by simp, fun _ _ _ => Iff.rfl⟩
    -- a body that breaks off leaves the directories and no file
    | broken e =>
      cases hmkdir : mkdir disk x.2.dropLast with
      | error e' => exact ⟨List.nil_prefix, by simp, fun _ _ _ => Iff.rfl⟩
      | ok disk' => exact ⟨List.nil_prefix, by simp, fun path _ bytes => mkdir_files hmkdir path bytes⟩
    | body bytes =>
      cases hput : put_file disk x.2 bytes with
      | error e' =>
        simp only [hput]
        exact ⟨List.nil_prefix, by simp, fun _ _ _ => trivial⟩
      | ok disk' =>
        obtain ⟨hbegins, hall, hframe⟩ := ih disk'
        simp only [hput, List.map_cons]
        refine ⟨(List.prefix_cons_inj _).mpr hbegins, fun hok => by rw [hall hok], ?_⟩
        intro path hpath b
        rw [List.mem_cons, not_or] at hpath
        rw [hframe path hpath.2, put_file_files hput, if_neg hpath.1]

/-! ### Object keys -/

theorem prefix_for_ok {key start : String} (h : prefix_for store key = .ok start) :
    ∃ segments, key_segments key = .ok segments ∧
      start = Segments.folder key_separator store.prefix_text
        (Segments.join key_separator segments) := by
  obtain ⟨segments, hsegments, hrest⟩ := Fallible.bind_ok h
  exact ⟨segments, Fallible.mapError_ok.mp hsegments, (Except.ok.inj hrest).symm⟩

theorem key_segments_ok {key : String} {segments : List String}
    (h : key_segments key = .ok segments) :
    segments ≠ [] ∧ ∀ s ∈ segments, Segments.Uncut key_separator s := by
  unfold key_segments at h
  simp only at h
  split at h
  · exact absurd h (by simp)
  · rename_i hne
    obtain ⟨hsame, hnames⟩ := names_ok h
    exact ⟨by rwa [hsame], fun s hs => (object_name_ok (hnames s hs)).2.2⟩

/-- An object key is the prefix and the joined segments of key and filename. -/
theorem object_key_ok {key filename k : String} (h : object_key store key filename = .ok k) :
    ∃ segments, key_segments key = .ok segments ∧
      (∀ s ∈ segments ++ [filename], Segments.Uncut key_separator s) ∧
      k = store.prefix_text ++ Segments.join key_separator (segments ++ [filename]) := by
  obtain ⟨start, hstart, hrest⟩ := Fallible.bind_ok h
  obtain ⟨name, hname, hlast⟩ := Fallible.bind_ok hrest
  obtain ⟨segments, hsegments, rfl⟩ := prefix_for_ok hstart
  obtain ⟨rfl, _, huncut⟩ := object_name_ok (Fallible.mapError_ok.mp hname)
  refine ⟨segments, hsegments, ?_, ?_⟩
  · intro s hs
    rcases List.mem_append.mp hs with hs | hs
    · exact (key_segments_ok hsegments).2 s hs
    · rw [List.mem_singleton] at hs
      rwa [hs]
  · rw [← Except.ok.inj hlast]
    rw [Segments.join_snoc (key_segments_ok hsegments).1, Segments.folder, String.append_assoc,
      String.append_assoc, String.append_assoc]

/-- **An object key tells its segments.** -/
theorem object_key_inj {key filename key' filename' k : String}
    (h : object_key store key filename = .ok k) (h' : object_key store key' filename' = .ok k) :
    key_segments key = key_segments key' ∧ filename = filename' := by
  obtain ⟨segments, hsegments, huncut, hk⟩ := object_key_ok h
  obtain ⟨segments', hsegments', huncut', hk'⟩ := object_key_ok h'
  rw [hk] at hk'
  have hjoin := congrArg String.toList hk'
  rw [String.toList_append, String.toList_append, List.append_cancel_left_eq] at hjoin
  have hparts := Segments.join_inj huncut huncut' (by simp) (by simp) (String.toList_inj.mp hjoin)
  obtain ⟨hsame, hname⟩ := List.append_inj' hparts rfl
  rw [hsegments, hsegments', hsame]
  exact ⟨rfl, (List.cons.inj hname).1⟩

/-! ### One consistent bucket -/

/-- The S3 of a bucket that answers every request: the keys in their order, cut
    into pages. -/
def bucket_remote (objects : Bucket) (pages : List (List String)) : Remote where
  pages := pages.map .ok
  get_object := fun k =>
    match objects.get k with
    | some body => .body body
    | none => .refused (.raised (.key_error k))

/-- A result of the store, as one of S3. -/
def raise_from {α β : Type} (f : α → β) : Except StoreError α → Except S3Error β
  | .ok a => .ok (f a)
  | .error e => .error (.raised e)

theorem foldlM_plan_key_eq {start : String} {keys : List String}
    (hstart : ∀ k ∈ keys, Segments.starts_with k start = true) (plan : Plan) :
    keys.foldlM (plan_key casefold store start) plan =
      raise_from id ((real_keys keys).foldlM (plan_object casefold store start) plan) := by
  induction keys generalizing plan with
  | nil => rfl
  | cons k keys ih =>
    have ih := ih (fun k' hk' => hstart k' (List.mem_cons_of_mem _ hk'))
    rw [List.foldlM_cons]
    unfold plan_key
    rw [if_neg (by simp [hstart k List.mem_cons_self])]
    by_cases hmarker : Segments.ends_with key_separator k = true
    · rw [if_pos hmarker, real_keys, List.filter_cons_of_neg (by simp [hmarker])]
      exact ih plan
    · rw [if_neg hmarker, real_keys, List.filter_cons_of_pos (by simp [hmarker]),
        List.foldlM_cons]
      cases hplan : plan_object casefold store start plan k with
      | error e => rfl
      | ok plan' => exact ih plan'

theorem gather_eq {start : String} {pages : List (List String)}
    (hstart : ∀ k ∈ pages.flatten, Segments.starts_with k start = true) :
    gather casefold store start (pages.map .ok) =
      raise_from id ((real_keys pages.flatten).foldlM (plan_object casefold store start)
        { targets := [], paths := [], directories := [] }) := by
  have hpages : ∀ plan : Plan, (pages.map Except.ok).foldlM (fun plan page => do
        let keys ← page
        keys.foldlM (plan_key casefold store start) plan) plan =
      pages.flatten.foldlM (plan_key casefold store start) plan := by
    intro plan
    clear hstart
    induction pages generalizing plan with
    | nil => rfl
    | cons keys pages ih =>
      rw [List.map_cons, List.foldlM_cons, List.flatten_cons, List.foldlM_append]
      show (keys.foldlM (plan_key casefold store start) plan >>= fun plan => _) = _
      congr 1
      funext plan'
      exact ih plan'
  unfold gather
  rw [hpages, foldlM_plan_key_eq hstart]

theorem write_targets_eq (objects : Bucket) (pages : List (List String)) (disk : Disk)
    (targets : List (String × List String)) :
    let done := write_targets store (bucket_remote objects pages).get_object disk targets
    raise_from (fun _ => ()) (targets.foldlM (download store objects) disk) = done.result ∧
      ∀ disk', targets.foldlM (download store objects) disk = .ok disk' → done.disk = disk' := by
  induction targets generalizing disk with
  | nil =>
    refine ⟨rfl, fun disk' h => ?_⟩
    exact Except.ok.inj h
  | cons x targets ih =>
    unfold write_targets
    simp only [List.foldlM_cons, bucket_remote, download]
    cases hget : objects.get x.1 with
    | none => exact ⟨rfl, fun disk' h => absurd h (by simp [bind, Except.bind])⟩
    | some body =>
      cases hput : put_file disk x.2 body with
      | error e =>
        simp only [hput]
        exact ⟨rfl, fun disk' h => absurd h (by simp [bind, Except.bind, Except.mapError])⟩
      | ok disk' =>
        simp only [hput]
        exact ih disk'

/-- **With a bucket that answers**, in whatever pages, this is `materialize`. -/
theorem materialize_remote_eq (objects : Bucket) {pages : List (List String)} {key : String}
    (destination : Disk)
    (hpages : list_keys store objects key true = .ok pages.flatten) :
    let done := materialize_remote casefold store (bucket_remote objects pages) key destination
    done.result = raise_from (fun _ => ()) (materialize casefold store objects key destination) ∧
      ∀ disk, materialize casefold store objects key destination = .ok disk → done.disk = disk := by
  intro done
  obtain ⟨start, hstart, hkeys⟩ := Fallible.bind_ok hpages
  have hflat : (objects.keys.filter (Segments.starts_with · start)).insertionSort (· ≤ ·) =
      pages.flatten := by
    simpa using Except.ok.inj hkeys
  -- the markers are listed and then left out
  have hreal : list_keys store objects key false = .ok (real_keys pages.flatten) := by
    unfold list_keys
    rw [hstart]
    simp only [bind, Except.bind, hflat, Bool.false_or]
    rfl
  have hbelow : ∀ k ∈ pages.flatten, Segments.starts_with k start = true := by
    intro k hk
    rw [← hflat, List.mem_insertionSort] at hk
    exact (List.mem_filter.mp hk).2
  have hdone : done = materialize_remote casefold store (bucket_remote objects pages) key
      destination := rfl
  unfold materialize_remote at hdone
  simp only [hstart, bucket_remote, gather_eq hbelow] at hdone
  unfold materialize
  rw [hstart, hreal]
  simp only [bind, Except.bind]
  cases hplan : (real_keys pages.flatten).foldlM (plan_object casefold store start)
      { targets := [], paths := [], directories := [] } with
  | error e =>
    simp only [hplan, raise_from] at hdone ⊢
    rw [hdone]
    exact ⟨rfl, fun disk h => absurd h (by simp)⟩
  | ok plan =>
    simp only [hplan, raise_from, id_eq] at hdone ⊢
    by_cases hempty : plan.targets.isEmpty = true
    · rw [if_pos hempty] at hdone ⊢
      rw [hdone]
      exact ⟨rfl, fun disk h => absurd h (by simp)⟩
    · rw [if_neg hempty] at hdone ⊢
      obtain ⟨hresult, hdisk⟩ := @write_targets_eq store objects pages destination
        plan.targets
      rw [hdone]
      exact ⟨hresult.symm, hdisk⟩

/-- **Materialising is confined and free of collisions.** Whatever S3 lists and
    whatever fails, either nothing is written and the call raises, or every
    listed object has a target, and the targets lie strictly inside the
    destination and are apart once folded; the files written are the first of
    them, all of them if the call returns. And no two accepted pairs of key and
    filename share an object, unless their segments are the same. -/
theorem materialize_confined (casefold : String → String) (store : S3StrategyStore) :
    (∀ (remote : Remote) (key : String) (destination : Disk),
      let done := materialize_remote casefold store remote key destination
      (done.disk = destination ∧ done.written = [] ∧ ∃ e, done.result = .error e) ∨
      ∃ (start : String) (targets : List (List String)) (keys : List (List String)),
        prefix_for store key = .ok start ∧ remote.pages = keys.map .ok ∧
        targets.map (object_of start) = real_keys keys.flatten ∧
        (∀ target ∈ targets, Inside target) ∧ targets.Pairwise (Apart casefold) ∧
        (∀ table, CharFold casefold table → targets.Pairwise (fun a b =>
          ¬ a.map casefold <+: b.map casefold ∧ ¬ b.map casefold <+: a.map casefold)) ∧
        done.written <+: targets ∧ (done.result = .ok () → done.written = targets) ∧
        ∀ path, path ∉ done.written → ∀ bytes,
          (done.disk.get path = some (.file bytes) ↔ destination.get path = some (.file bytes))) ∧
    (∀ key filename key' filename' k, object_key store key filename = .ok k →
      object_key store key' filename' = .ok k →
      key_segments key = key_segments key' ∧ filename = filename') := by
  constructor
  · intro remote key destination done
    have hdone : done = materialize_remote casefold store remote key destination := rfl
    unfold materialize_remote at hdone
    cases hstart : prefix_for store key with
    | error e =>
      simp only [hstart] at hdone
      rw [hdone]
      exact Or.inl ⟨rfl, rfl, _, rfl⟩
    | ok start =>
      simp only [hstart] at hdone
      cases hgather : gather casefold store start remote.pages with
      | error e =>
        simp only [hgather] at hdone
        rw [hdone]
        exact Or.inl ⟨rfl, rfl, _, rfl⟩
      | ok plan =>
        simp only [hgather] at hdone
        split at hdone
        · rw [hdone]
          exact Or.inl ⟨rfl, rfl, _, rfl⟩
        -- all keys were looked at, and only then the first file is written
        obtain ⟨hsound, keys, hpages, hlisted⟩ := gather_ok hgather
        obtain ⟨hbegins, hall, hframe⟩ := @write_targets_written store
          remote.get_object destination plan.targets
        rw [← hdone] at hbegins hall hframe
        have hapart : (plan.targets.map (fun x => x.2)).Pairwise (Apart casefold) :=
          List.pairwise_map.mpr hsound.apart
        have hnonempty : ∀ target ∈ plan.targets.map (fun x => x.2), target ≠ [] := by
          intro target htarget
          obtain ⟨x, hx, rfl⟩ := List.mem_map.mp htarget
          exact (hsound.names x hx).1
        right
        refine ⟨start, plan.targets.map (fun x => x.2), keys, rfl, hpages, ?_, ?_, hapart, ?_,
          hbegins, hall, hframe⟩
        · rw [List.map_map]
          exact hlisted
        · intro target htarget
          obtain ⟨x, hx, rfl⟩ := List.mem_map.mp htarget
          exact inside_of_names (hsound.names x hx).1 (hsound.names x hx).2
        · intro table htable
          apply hapart.imp_of_mem
          intro a b ha hb hab
          have hba : Apart casefold b a := ⟨hab.distinct.symm, hab.not_below, hab.not_above⟩
          exact ⟨hab.names htable (hnonempty a ha), hba.names htable (hnonempty b hb)⟩
  · intro key filename key' filename' k h h'
    exact object_key_inj h h'

/-- A package in two pages, with a marker. -/
def two_pages : Remote where
  pages := [.ok ["strategies/a/", "strategies/a/strategy.py"], .ok ["strategies/a/config.json"]]
  get_object := fun _ => .body ByteArray.empty

theorem materialize_confined_pair :
    (materialize_remote casefold_ascii ⟨"b", ""⟩ two_pages "strategies/a/" ∅).written =
      [["strategy.py"], ["config.json"]] ∧
    [["strategy.py"], ["config.json"]].Pairwise (Apart casefold_ascii) ∧
    key_segments "strategies/a/" = key_segments "/strategies//a" := by
  have hwritten : (materialize_remote casefold_ascii ⟨"b", ""⟩ two_pages "strategies/a/"
      ∅).written = [["strategy.py"], ["config.json"]] := by decide +kernel
  obtain ⟨hconfined, hkeys⟩ := materialize_confined casefold_ascii ⟨"b", ""⟩
  refine ⟨hwritten, ?_, ?_⟩
  · rcases hconfined two_pages "strategies/a/" ∅ with ⟨_, hnone, _⟩ |
      ⟨_, targets, _, _, _, _, _, hapart, _, hbegins, _, _⟩
    · rw [hwritten] at hnone
      exact absurd hnone (by simp)
    · rw [hwritten] at hbegins
      exact hapart.sublist hbegins.sublist
  · exact (hkeys "strategies/a/" "strategy.py" "/strategies//a" "strategy.py"
      "strategies/a/strategy.py" (by decide +kernel) (by decide +kernel)).1

end S3StrategyStore

end Storage
