import BacktestVisualizer.Storage.MigrationRuns

/-! # Running the Store Migration Again

  A run that passed its preflight and then broke off leaves a destination that
  a later run completes, unless other bytes have come into the place of an
  object. Of this the migration never gets rid: it does not overwrite.
-/

namespace Storage

namespace Migration

open Program

variable {sha256 : ByteArray → ByteArray} {store : S3StrategyStore} {disk : Disk}
  {keys : List String}

/-! ### Nothing in the way -/

/-- The local store has all files of the keys, none of them too large. -/
def Sourced (store : S3StrategyStore) (disk : Disk) (keys : List String) : Prop :=
  ∀ key ∈ keys, ∀ filename ∈ filenames, ∃ content object_key,
    store.object_key key filename = .ok object_key ∧
    stored_bytes disk key filename = some content ∧ content.size ≤ max_object_bytes

/-- A run that has nothing in its way. -/
structure Clear (store : S3StrategyStore) (disk : Disk) (keys : List String) (w : World) :
    Prop where
  based : Based quiet disk w
  settled : ∀ key ∈ keys, ∀ filename ∈ filenames, Settled quiet store disk keys key filename w

theorem clear_stable {allowed : String → ByteArray → Prop} :
    Stable (Advance quiet store disk keys allowed) (Clear store disk keys) := by
  intro w w' hstep hw
  refine ⟨based_stable w w' hstep hw.based, ?_⟩
  intro key hkey filename hfilename
  exact settled_stable _ _ w w' hstep (hw.settled key hkey filename hfilename)

/-- An object is missing or equal. -/
theorem Clear.get {w : World} (h : Clear store disk keys w) {key filename object_key : String}
    {content : ByteArray} (hkey : key ∈ keys) (hfilename : filename ∈ filenames)
    (hobject : store.object_key key filename = .ok object_key)
    (hstored : stored_bytes disk key filename = some content) :
    w.bucket.get object_key = none ∨ w.bucket.get object_key = some content :=
  h.settled key hkey filename hfilename object_key hobject (quiet_harmless store disk keys)
    content ⟨key, hkey, filename, hfilename, hobject, hstored⟩

/-! ### Each part returns -/

theorem returns_local_bytes {key filename : String} {content : ByteArray}
    (hstored : stored_bytes disk key filename = some content)
    (hsize : content.size ≤ max_object_bytes) :
    Returns (Based quiet disk) (local_bytes quiet key filename) := by
  intro w hw
  have hopen : start (open_local quiet key filename) w =
      (.ok (some content), w.pass (quiet w.turn)) := by
    show ((.ok (stored_bytes w.disk key filename), w.pass (quiet w.turn)) :
      Except MigrationError (Option ByteArray) × World) = _
    rw [hw quiet_unedited, hstored]
  unfold local_bytes
  rw [start_bind_ok hopen]
  simp only
  -- the bound of the read cuts nothing off
  rw [extract_all (by omega), if_neg (by omega)]
  exact ⟨_, _, rfl⟩

theorem returns_remote_bytes {key filename object_key : String}
    (hobject : store.object_key key filename = .ok object_key) :
    Returns (fun w => ∀ bytes, w.bucket.get object_key = some bytes →
      bytes.size ≤ max_object_bytes) (remote_bytes quiet store key filename) := by
  intro w hw
  have hget : start (get_object quiet object_key) w =
      (.ok (.of id (w.bucket.get object_key)),
        (w.pass (quiet w.turn)).note (.fetched object_key w.bucket)) := rfl
  unfold remote_bytes
  rw [hobject]
  simp only
  rw [start_bind_ok hget]
  cases hfound : w.bucket.get object_key with
  | none => exact ⟨_, _, rfl⟩
  | some bytes =>
    have hsize := hw bytes hfound
    simp only [GetReply.of, id]
    rw [if_neg (by omega), extract_all (by omega), if_neg (by omega)]
    exact ⟨_, _, rfl⟩

theorem start_check_equal (content : ByteArray) (key filename : String) (w : World) :
    start (check_equal sha256 content (some content) key filename) w = (.ok (), w) := by
  unfold check_equal
  simp only [ne_eq, not_true, or_self, if_false]
  rfl

/-! ### Each stage returns -/

/-- Whatever is put: what a quiet run does to the world. -/
abbrev Undisturbed (store : S3StrategyStore) (disk : Disk) (keys : List String) :
    World → World → Prop := Advance quiet store disk keys (fun _ _ => True)

/-- What is read is what the local store has. -/
theorem HasRead.eq {key filename : String} {content content' : ByteArray} {log : List Event}
    (h : HasRead quiet disk key filename content' log)
    (hstored : stored_bytes disk key filename = some content) : content' = content := by
  have hsame := h.stored quiet_unedited
  rw [hstored] at hsame
  exact (Option.some.inj hsame).symm

section
variable (allowed : String → ByteArray → Prop)

theorem spec_local_clear (key filename : String) :
    Spec (Advance quiet store disk keys allowed) (Clear store disk keys)
      (local_bytes quiet key filename)
      (fun content w => HasRead quiet disk key filename content w.log ∧ Clear store disk keys w) :=
  ((spec_local key filename).frame clear_stable).weaken (fun _ hw => ⟨hw.based, hw⟩)
    (fun _ _ hw => ⟨hw.1.1, hw.2⟩)

theorem spec_remote_clear (key filename : String) :
    Spec (Advance quiet store disk keys allowed) (Clear store disk keys)
      (remote_bytes quiet store key filename)
      (fun found w => Found store key filename found w ∧ Clear store disk keys w) :=
  ((spec_remote key filename).frame clear_stable).weaken (fun _ hw => ⟨hw, hw⟩)
    (fun _ _ hw => hw)

end

/-- What is found of a file's object is nothing or the file. -/
theorem Found.which {key filename : String} {content : ByteArray} {found : Option ByteArray}
    {w : World} (h : Found store key filename found w) (hclear : Clear store disk keys w)
    (hkey : key ∈ keys) (hfilename : filename ∈ filenames)
    (hstored : stored_bytes disk key filename = some content) :
    found = none ∨ found = some content := by
  obtain ⟨_, object_key, hobject, _, hget⟩ := h
  rw [← hget]
  exact hclear.get hkey hfilename hobject hstored

theorem returns_remote_clear {key filename : String} (hsourced : Sourced store disk keys)
    (hkey : key ∈ keys) (hfilename : filename ∈ filenames) :
    Returns (Clear store disk keys) (remote_bytes quiet store key filename) := by
  obtain ⟨content, object_key, hobject, hstored, hsize⟩ := hsourced key hkey filename hfilename
  apply (returns_remote_bytes hobject).weaken
  intro w hw bytes hbytes
  rcases hw.get hkey hfilename hobject hstored with hnone | hsome
  · rw [hnone] at hbytes
    exact absurd hbytes (by simp)
  · rw [hsome] at hbytes
    rw [← Option.some.inj hbytes]
    exact hsize

theorem returns_preflight_file (hsourced : Sourced store disk keys) {key : String}
    {file : String × ObjectSnapshot} (hkey : key ∈ keys) (hname : file.1 ∈ filenames)
    (hfile : ∀ content, stored_bytes disk key file.1 = some content →
      file.2 = snapshot sha256 content) :
    Returns (Clear store disk keys) (preflight_file quiet sha256 store key file) := by
  obtain ⟨content, object_key, hobject, hstored, hsize⟩ := hsourced key hkey file.1 hname
  have hlocal : Returns (Clear store disk keys) (local_bytes quiet key file.1) :=
    (returns_local_bytes hstored hsize).weaken (fun _ hw => hw.based)
  apply Returns.bind hlocal (spec_local_clear (fun _ _ => True) key file.1)
  intro content' w hw
  obtain rfl := hw.1.eq hstored
  rw [if_neg (by rw [hfile _ hstored]; simp)]
  have hclear := hw.2
  clear hw
  revert w
  apply Returns.bind (returns_remote_clear hsourced hkey hname)
    (spec_remote_clear (fun _ _ => True) key file.1)
  intro found w hw
  -- missing or equal, and equal passes the check
  rcases hw.1.which hw.2 hkey hname hstored with rfl | rfl
  · exact ⟨_, _, rfl⟩
  · simp only
    rw [start_bind_ok (start_check_equal content' key file.1 w)]
    exact ⟨_, _, rfl⟩

/-- The files of a plan have the snapshots of the local files. -/
theorem PlanOf.exact {key : String} {package : PackagePlan} {w : World}
    (h : PlanOf quiet sha256 disk key package w) :
    ∀ file ∈ package.2, file.1 ∈ filenames ∧ ∀ content,
      stored_bytes disk key file.1 = some content → file.2 = snapshot sha256 content := by
  intro file hfile
  obtain ⟨filename, hfilename, rfl, planned, hread, hsnapshot⟩ := Fallible.exists_left h.2 hfile
  refine ⟨hfilename, ?_⟩
  intro content hstored
  rw [hsnapshot, hread.eq hstored]

/-- And it has one for each. -/
theorem PlanOf.lookup_exact {key filename : String} {content : ByteArray} {package : PackagePlan}
    {w : World} (h : PlanOf quiet sha256 disk key package w) (hfilename : filename ∈ filenames)
    (hstored : stored_bytes disk key filename = some content) :
    package.2.lookup filename = some (snapshot sha256 content) := by
  cases hlookup : package.2.lookup filename with
  | none =>
    obtain ⟨file, hfile, hname, _⟩ := Fallible.exists_right h.2 hfilename
    have hother := List.lookup_eq_none_iff.mp hlookup file hfile
    rw [hname] at hother
    exact absurd hother (by simp)
  | some s =>
    obtain ⟨planned, hread, hsnapshot⟩ := h.lookup hlookup
    rw [hsnapshot, hread.eq hstored]

theorem returns_local_clear {key filename : String} (hsourced : Sourced store disk keys)
    (hkey : key ∈ keys) (hfilename : filename ∈ filenames) :
    Returns (Clear store disk keys) (local_bytes quiet key filename) := by
  obtain ⟨content, _, _, hstored, hsize⟩ := hsourced key hkey filename hfilename
  exact (returns_local_bytes hstored hsize).weaken (fun _ hw => hw.based)

/-- Something is read for each file, as in the plan and in the copy. -/
theorem returns_reads {β : Type} {key : String} (f : String → ByteArray → β)
    (hsourced : Sourced store disk keys) (hkey : key ∈ keys) :
    Returns (Clear store disk keys) (filenames.mapM (fun filename => do
      let content ← local_bytes quiet key filename
      return f filename content)) := by
  apply Returns.mapM
  · intro filename _
    apply Spec.bind (spec_local_clear (fun _ _ => True) key filename)
    intro content
    exact .pure (fun _ hw => hw.2)
  · intro filename hfilename
    apply Returns.bind (returns_local_clear hsourced hkey hfilename)
      (spec_local_clear (fun _ _ => True) key filename)
    intro content
    exact .pure

theorem returns_preflight_package (hsourced : Sourced store disk keys) {package : PackagePlan}
    (hkey : package.1 ∈ keys)
    (hfiles : ∀ file ∈ package.2, file.1 ∈ filenames ∧ ∀ content,
      stored_bytes disk package.1 file.1 = some content → file.2 = snapshot sha256 content) :
    Returns (Clear store disk keys) (preflight_package quiet sha256 store package) := by
  have hspec : ∀ file ∈ package.2, Spec (Undisturbed store disk keys)
      (Clear store disk keys) (preflight_file quiet sha256 store package.1 file)
      (fun _ => Clear store disk keys) := by
    intro file hfile
    exact (spec_preflight_file sha256 hkey (hfiles file hfile).1).keep clear_stable
      (fun w hw => hw.based)
  intro w hw
  obtain ⟨missing, w', hrun⟩ := Returns.mapM hspec (fun file hfile =>
    returns_preflight_file hsourced hkey (hfiles file hfile).1 (hfiles file hfile).2) w hw
  unfold preflight_package
  rw [start_bind_ok hrun]
  exact ⟨_, _, rfl⟩

theorem returns_plan_package (hsourced : Sourced store disk keys) {key : String}
    (hkey : key ∈ keys) : Returns (Clear store disk keys) (plan_package quiet sha256 key) := by
  intro w hw
  obtain ⟨files, w', hrun⟩ :=
    returns_reads (fun filename content => (filename, snapshot sha256 content)) hsourced hkey w hw
  unfold plan_package
  rw [start_bind_ok hrun]
  exact ⟨_, _, rfl⟩

/-- **The preflight returns.** -/
theorem returns_preflight {arguments : Arguments} {registered : List String}
    (hregistered : registry_keys arguments = .ok registered)
    (hsourced : Sourced store disk keys) (hkeys : ∀ key ∈ registered, key ∈ keys) :
    Returns (Clear store disk keys) (preflight quiet sha256 store arguments) := by
  have hplan : ∀ key ∈ registered, Spec (Undisturbed store disk keys)
      (Clear store disk keys) (plan_package quiet sha256 key)
      (fun package w => PlanOf quiet sha256 disk key package w) := fun key _ =>
    (spec_plan_package sha256 key).weaken (fun _ hw => hw.based) (fun _ _ hw => hw)
  have hcount : ∀ f, Returns (Clear store disk keys) (count f) := fun f => .modify
  unfold preflight
  rw [hregistered]
  simp only
  have hcounted : ∀ f, Spec (Undisturbed store disk keys) (Clear store disk keys) (count f)
      (fun _ => Clear store disk keys) := fun f => spec_count f clear_stable
  apply Returns.bind (hcount _) (hcounted _)
  intro _
  have hkeep : ∀ key ∈ registered, Spec (Undisturbed store disk keys)
      (Clear store disk keys) (plan_package quiet sha256 key) (fun _ => Clear store disk keys) :=
    fun key hkey => (hplan key hkey).keep clear_stable (fun _ hw => hw)
  apply Returns.bind (Returns.mapM hkeep
    (fun key hkey => returns_plan_package hsourced (hkeys key hkey)))
    (Spec.mapM clear_stable (planOf_stable sha256) hplan)
  intro snapshots w hw
  obtain ⟨hclear, hplans⟩ := hw
  have hpackage : ∀ package ∈ snapshots, package.1 ∈ keys ∧
      ∀ file ∈ package.2, file.1 ∈ filenames ∧ ∀ content,
        stored_bytes disk package.1 file.1 = some content → file.2 = snapshot sha256 content := by
    intro package hmem
    obtain ⟨key, hkey, hplanned⟩ := Fallible.exists_left hplans hmem
    rw [hplanned.1]
    exact ⟨hkeys key hkey, hplanned.exact⟩
  have hspec : ∀ package ∈ snapshots, Spec (Undisturbed store disk keys)
      (Clear store disk keys) (preflight_package quiet sha256 store package)
      (fun _ => Clear store disk keys) := by
    intro package hmem
    exact (spec_preflight_package sha256 (hpackage package hmem).1
      (fun file hfile => ((hpackage package hmem).2 file hfile).1)).keep clear_stable
      (fun w hw => hw.based)
  obtain ⟨_, w', hrun⟩ := Returns.forM hspec (fun package hmem =>
    returns_preflight_package hsourced (hpackage package hmem).1 (hpackage package hmem).2) w hclear
  rw [start_bind_ok hrun]
  exact ⟨_, _, rfl⟩

/-! ### The copying returns -/

/-- An object that is there is found, with the bytes of its file. -/
theorem start_remote_present {key filename : String} {content : ByteArray}
    (hsourced : Sourced store disk keys) (hkey : key ∈ keys) (hfilename : filename ∈ filenames)
    (hstored : stored_bytes disk key filename = some content) {w : World}
    (hclear : Clear store disk keys w) (hpresent : Present quiet store key filename w) :
    ∃ w', start (remote_bytes quiet store key filename) w = (.ok (some content), w') := by
  obtain ⟨found, w', hrun⟩ := returns_remote_clear hsourced hkey hfilename w hclear
  have hspec : Spec (Undisturbed store disk keys) (Clear store disk keys)
      (remote_bytes quiet store key filename)
      (fun found w => Found store key filename found w ∧ Clear store disk keys w) :=
    spec_remote_clear (fun _ _ => True) key filename
  obtain ⟨hstep, hafter⟩ := hspec w hclear
  obtain ⟨hfound, hclear'⟩ := hafter found w' hrun
  rw [hrun] at hstep
  have hpresent' := present_stable key filename w w' hstep hpresent
  rcases hfound.which hclear' hkey hfilename hstored with rfl | rfl
  · obtain ⟨_, object_key, hobject, _, hget⟩ := hfound
    obtain ⟨object_key', hobject', hthere⟩ := hpresent'
    rw [hobject] at hobject'
    obtain rfl := Except.ok.inj hobject'
    -- nobody takes an object away
    exact absurd hget (hthere quiet_alone)
  · exact ⟨w', hrun⟩

theorem returns_verify_file {key : String} {file : String × ByteArray}
    (hsourced : Sourced store disk keys) (hkey : key ∈ keys) (hname : file.1 ∈ filenames)
    (hstored : stored_bytes disk key file.1 = some file.2) :
    Returns (fun w => Clear store disk keys w ∧ Present quiet store key file.1 w)
      (verify_file quiet sha256 store key file) := by
  intro w hw
  obtain ⟨w', hrun⟩ := start_remote_present hsourced hkey hname hstored hw.1 hw.2
  unfold verify_file
  rw [start_bind_ok hrun, start_check_equal]
  exact ⟨_, _, rfl⟩

theorem returns_missing_file {key : String} {file : String × ByteArray}
    (hsourced : Sourced store disk keys) (hkey : key ∈ keys) (hname : file.1 ∈ filenames)
    (hstored : stored_bytes disk key file.1 = some file.2) :
    Returns (Clear store disk keys) (missing_file quiet sha256 store key file) := by
  apply Returns.bind (returns_remote_clear hsourced hkey hname)
    (spec_remote_clear (fun _ _ => True) key file.1)
  intro found w hw
  rcases hw.1.which hw.2 hkey hname hstored with rfl | rfl
  · exact ⟨_, _, rfl⟩
  · simp only
    rw [start_bind_ok (start_check_equal file.2 key file.1 w)]
    exact ⟨_, _, rfl⟩

/-- A put that nobody disturbs is stored where nothing is, -/
theorem start_put_stored {object_key : String} {w : World} (body : ByteArray)
    (hnone : w.bucket.get object_key = none) :
    ∃ w', start (put_object quiet object_key body true) w = (.ok .stored, w') := by
  have hreply : (start (put_object quiet object_key body true) w).1 =
      .ok (if !true || (w.bucket.get object_key).isNone then .stored else .conflict) := rfl
  rw [hnone] at hreply
  exact ⟨_, Prod.ext hreply rfl⟩

/-- and refused where something is. -/
theorem start_put_conflict {object_key : String} {w : World} (body : ByteArray)
    (hthere : w.bucket.get object_key ≠ none) :
    ∃ w', start (put_object quiet object_key body true) w = (.ok .conflict, w') ∧
      w'.bucket.get object_key ≠ none := by
  have hnot : (w.bucket.get object_key).isNone = false := by
    simpa using Option.isSome_iff_ne_none.mpr hthere
  have hreply : (start (put_object quiet object_key body true) w).1 =
      .ok (if !true || (w.bucket.get object_key).isNone then .stored else .conflict) := rfl
  have hbucket : (start (put_object quiet object_key body true) w).2.bucket =
      if (!true || (w.bucket.get object_key).isNone) && true then
        w.bucket.insert object_key body else w.bucket := rfl
  rw [hnot] at hreply hbucket
  refine ⟨_, Prod.ext hreply rfl, ?_⟩
  rw [hbucket]
  exact hthere

variable (sha256) in
theorem returns_put_missing {key filename : String} {content : ByteArray}
    (hsourced : Sourced store disk keys) (hkey : key ∈ keys) (hfilename : filename ∈ filenames)
    (hstored : stored_bytes disk key filename = some content) :
    Returns (Clear store disk keys) (put_missing quiet sha256 store key filename content) := by
  obtain ⟨content', object_key, hobject, hstored', _⟩ := hsourced key hkey filename hfilename
  rw [hstored] at hstored'
  obtain rfl := Option.some.inj hstored'
  have hlocal : LocalObject store disk keys object_key content :=
    ⟨key, hkey, filename, hfilename, hobject, hstored⟩
  intro w hw
  unfold put_missing
  rw [hobject]
  -- stored where it is missing, else read back equal
  by_cases hnone : w.bucket.get object_key = none
  · obtain ⟨w₁, hput⟩ := start_put_stored content hnone
    simp only
    rw [start_bind_ok hput]
    exact ⟨_, _, rfl⟩
  · obtain ⟨w₁, hput, hthere⟩ := start_put_conflict content hnone
    have hspec : Spec (Undisturbed store disk keys) (fun _ => True)
        (put_object quiet object_key content true)
        (fun reply w => reply = .stored → w.bucket.get object_key ≠ none) :=
      spec_put_object trivial (fun _ => hlocal)
    obtain ⟨hstep, _⟩ := hspec w trivial
    rw [hput] at hstep
    obtain ⟨w₂, hremote⟩ := start_remote_present hsourced hkey hfilename hstored
      (clear_stable w w₁ hstep hw) ⟨object_key, hobject, fun _ => hthere⟩
    simp only
    rw [start_bind_ok hput]
    simp only
    rw [start_bind_ok hremote, start_bind_ok (start_check_equal content key filename w₂)]
    exact ⟨_, _, rfl⟩

theorem returns_copy_file {key : String} {file : String × ByteArray}
    (hsourced : Sourced store disk keys) (hkey : key ∈ keys) (hname : file.1 ∈ filenames)
    (hstored : stored_bytes disk key file.1 = some file.2) :
    Returns (Clear store disk keys) (copy_file quiet sha256 store key file) := by
  intro w hw
  obtain ⟨stored, w₁, hput⟩ :=
    returns_put_missing sha256 hsourced hkey hname hstored w hw
  unfold copy_file
  rw [start_bind_ok hput]
  exact ⟨_, _, rfl⟩

theorem returns_reread {package : PackagePlan} {w₁ : World}
    (hplan : PlanOf quiet sha256 disk package.1 package w₁)
    (contents : List (String × ByteArray)) :
    Returns (fun w => Based quiet disk w ∧ Contents quiet disk package.1 contents w)
      (contents.forM (reread sha256 package)) := by
  intro w hw
  have hturn : ∀ file ∈ contents, Returns (fun _ => True) (reread sha256 package file) := by
    intro file hfile
    obtain ⟨filename, hfilename, rfl, hread⟩ := Fallible.exists_left hw.2 hfile
    -- the plan was made from the same file
    have hlookup := hplan.lookup_exact hfilename (hread.stored quiet_unedited)
    unfold reread
    rw [if_neg (by rw [hlookup]; simp)]
    exact .pure
  exact Returns.forM (R := fun _ _ => True) (fun _ _ _ _ => ⟨trivial, fun _ _ _ => trivial⟩)
    hturn w trivial

/-- What copying a package needs of its contents. -/
def Copyable (disk : Disk) (key : String) (contents : List (String × ByteArray)) : Prop :=
  ∀ file ∈ contents, file.1 ∈ filenames ∧ stored_bytes disk key file.1 = some file.2

theorem returns_missing_files {key : String} {contents : List (String × ByteArray)}
    (hsourced : Sourced store disk keys) (hkey : key ∈ keys) (hfiles : Copyable disk key contents) :
    Returns (Clear store disk keys) (contents.mapM (missing_file quiet sha256 store key)) := by
  have hspec : ∀ file ∈ contents, Spec (Undisturbed store disk keys) (Clear store disk keys)
      (missing_file quiet sha256 store key file) (fun _ => Clear store disk keys) :=
    fun file _ => (spec_missing_file sha256 key file).keep clear_stable (fun w hw => hw.based)
  exact Returns.mapM hspec (fun file hfile =>
    returns_missing_file hsourced hkey (hfiles file hfile).1 (hfiles file hfile).2)

variable (sha256) in
theorem returns_copy_files {key : String} {files : List (String × ByteArray)}
    {pre : List Event} (hsourced : Sourced store disk keys) (hkey : key ∈ keys)
    (hfiles : Copyable disk key files)
    (hplanned : ∀ file ∈ files, PlannedBytes quiet sha256 disk pre key file.1 file.2) :
    Returns (Clear store disk keys) (files.forM (copy_file quiet sha256 store key)) := by
  have hspec : ∀ file ∈ files, Spec
      (Advance quiet store disk keys (PlannedObject quiet sha256 store disk keys pre))
      (Clear store disk keys) (copy_file quiet sha256 store key file)
      (fun _ => Clear store disk keys) :=
    fun file hfile => (spec_copy_file sha256 hkey (hfiles file hfile).1
      (hplanned file hfile)).keep clear_stable (fun w hw => hw.based)
  exact Returns.forM hspec (fun file hfile =>
    returns_copy_file hsourced hkey (hfiles file hfile).1 (hfiles file hfile).2)

variable (sha256) in
theorem returns_verify_files {key : String} {contents : List (String × ByteArray)}
    (hsourced : Sourced store disk keys) (hkey : key ∈ keys) (hfiles : Copyable disk key contents) :
    Returns (fun w => Clear store disk keys w ∧
        ∀ file ∈ contents, Present quiet store key file.1 w)
      (contents.forM (verify_file quiet sha256 store key)) := by
  have hstable : Stable (Undisturbed store disk keys) (fun w => Clear store disk keys w ∧
      ∀ file ∈ contents, Present quiet store key file.1 w) :=
    clear_stable.and (.all (fun file => present_stable key file.1))
  have hanswered : ∀ file : String × ByteArray, Spec (Undisturbed store disk keys)
      (fun _ => True) (verify_file quiet sha256 store key file)
      (fun _ w => ∃ log event, w.log = log ++ [event] ∧ Answer store key file.1 file.2 event) :=
    fun file => Spec.ghost (fun log => (spec_verify_file sha256 key file log).weaken
      (fun w hw => hw.2) (fun _ w hw => hw))
  apply Returns.forM (fun file _ => (hanswered file).keep hstable (fun _ _ => trivial))
  intro file hfile
  exact (returns_verify_file hsourced hkey (hfiles file hfile).1 (hfiles file hfile).2).weaken
    (fun w hw => ⟨hw.1, hw.2 file hfile⟩)

/-- **The copying of a package returns.** -/
theorem returns_copy_package {package : PackagePlan} {w₁ : World}
    (hsourced : Sourced store disk keys) (hkey : package.1 ∈ keys)
    (hplan : PlanOf quiet sha256 disk package.1 package w₁) :
    Returns (Clear store disk keys) (copy_package quiet sha256 store package) := by
  have hreads : Spec (Undisturbed store disk keys) (Clear store disk keys) (filenames.mapM
      (fun filename => do
        let content ← local_bytes quiet package.1 filename
        return (filename, content)))
      (fun contents w => (Based quiet disk w ∧ Contents quiet disk package.1 contents w) ∧
        Clear store disk keys w) :=
    ((spec_contents package.1).frame clear_stable).weaken (fun w hw => ⟨hw.based, hw⟩)
      (fun _ _ hw => hw)
  apply Returns.bind (returns_reads (fun filename content => (filename, content)) hsourced hkey)
    hreads
  intro contents
  have hreread : Spec (Undisturbed store disk keys)
      (fun w => (Based quiet disk w ∧ Contents quiet disk package.1 contents w) ∧ Clear store disk keys w)
      (contents.forM (reread sha256 package))
      (fun _ w => Reread quiet sha256 disk w₁.log package.1 contents ∧ Clear store disk keys w) :=
    ((spec_reread sha256 hplan.read contents).frame clear_stable).weaken (fun w hw => hw)
      (fun _ w hw => ⟨hw.1.1, hw.2⟩)
  apply Returns.bind ((returns_reread hplan contents).weaken (fun w hw => hw.1)) hreread
  intro _
  apply Returns.of_imp
  intro hreread
  have hfiles : Copyable disk package.1 contents := by
    intro file hfile
    obtain ⟨hname, hplanned⟩ := hreread.file hfile
    exact ⟨hname, hplanned.2 quiet_unedited⟩
  have hmissing : Spec (Undisturbed store disk keys) (Clear store disk keys)
      (contents.mapM (missing_file quiet sha256 store package.1))
      (fun missing w => (Based quiet disk w ∧ Missing quiet store package.1 contents missing w) ∧
          Clear store disk keys w) :=
    ((spec_missing_files sha256 package.1 contents).frame clear_stable).weaken
      (fun w hw => ⟨hw.based, hw⟩) (fun _ _ hw => hw)
  apply Returns.bind (returns_missing_files hsourced hkey hfiles) hmissing
  intro missing w hw
  have hcopies : Copyable disk package.1 missing.reduceOption :=
    fun file hfile => hfiles file (mem_of_missing hw.1.2 hfile)
  obtain ⟨_, w₂, hcopy⟩ := returns_copy_files sha256 hsourced hkey hcopies
    (fun file hfile => (hreread.file (mem_of_missing hw.1.2 hfile)).2) w hw.2
  obtain ⟨⟨_, hpresent⟩, hclear⟩ :=
    (((spec_fill sha256 hkey hreread).frame clear_stable) w hw).2 _ w₂ hcopy
  obtain ⟨_, w₃, hverify⟩ :=
    returns_verify_files sha256 hsourced hkey hfiles w₂ ⟨hclear, hpresent⟩
  rw [start_bind_ok hcopy, start_bind_ok hverify]
  exact ⟨_, _, rfl⟩

/-! ### Whole runs -/

theorem returns_migrate {arguments : Arguments} {registered : List String}
    (hregistered : registry_keys arguments = .ok registered)
    (hsourced : Sourced store disk (referenced arguments)) :
    Returns (Clear store disk (referenced arguments)) (migrate quiet sha256 store arguments) := by
  have hkeys : ∀ key ∈ registered, key ∈ referenced arguments :=
    fun key hkey => (mem_registry_keys hregistered key).mp hkey
  have hcleared : Spec (Undisturbed store disk (referenced arguments))
      (Clear store disk (referenced arguments)) (preflight quiet sha256 store arguments)
      (fun snapshots w => (Cleared quiet sha256 store disk (referenced arguments) arguments
        snapshots w ∧ Based quiet disk w) ∧ Clear store disk (referenced arguments) w) :=
    ((spec_preflight sha256 (fun _ h key hkey => (mem_registry_keys h key).mp hkey)).frame
      clear_stable).weaken (fun w hw => ⟨hw.based, hw⟩) (fun _ _ hw => hw)
  apply Returns.bind (returns_preflight hregistered hsourced hkeys) hcleared
  intro snapshots w₁ hw
  obtain ⟨⟨hcleared, _⟩, hclear⟩ := hw
  split
  · have hcopied : ∀ package ∈ snapshots, Spec
        (Advance quiet store disk (referenced arguments)
          (PlannedObject quiet sha256 store disk (referenced arguments) w₁.log))
        (Clear store disk (referenced arguments)) (copy_package quiet sha256 store package)
        (fun _ => Clear store disk (referenced arguments)) := by
      intro package hpackage
      obtain ⟨hkey, hplan⟩ := hcleared.package.2 package hpackage
      apply (spec_copy_package sha256 hkey ?_).keep clear_stable (fun w hw => hw.based)
      exact hplan.read
    obtain ⟨_, w, hrun⟩ := Returns.forM hcopied (fun package hpackage =>
      returns_copy_package hsourced (hcleared.package.2 package hpackage).1
        (hcleared.package.2 package hpackage).2) w₁ hclear
    rw [start_bind_ok hrun]
    exact ⟨_, _, rfl⟩
  · exact ⟨_, _, rfl⟩

theorem clear_of_fits {bucket : Bucket} {report : Report}
    (h : ∀ k, Fits store disk keys bucket k) :
    Clear store disk keys (.begin disk bucket report) where
  based := fun _ => rfl
  settled := fun _ _ _ _ object_key _ _ => h object_key

/-- Where all referenced objects are settled, nothing is in the way. -/
theorem fits_of_settled {env : Env} {w : World} (hharmless : Harmless env store disk keys)
    (h : ∀ key ∈ keys, ∀ filename ∈ filenames, Settled env store disk keys key filename w)
    (k : String) : Fits store disk keys w.bucket k := by
  intro bytes hbytes
  have ⟨key, hkey, filename, hfilename, hobject, _⟩ := hbytes
  exact h key hkey filename hfilename k hobject hharmless bytes hbytes

/-- A preflight that returned. -/
theorem cleared_of_preflight {env : Env} {arguments : Arguments} {bucket : Bucket}
    {report : Report} {snapshots : List PackagePlan} {w₁ : World}
    (hrun : start (preflight env sha256 store arguments) (.begin disk bucket report) =
      (.ok snapshots, w₁)) :
    Cleared env sha256 store disk (referenced arguments) arguments snapshots w₁ ∧
      Based env disk w₁ ∧ (Alone env → ∀ k, w₁.bucket.get k = bucket.get k) := by
  have hpreflight : Spec (Advance env store disk (referenced arguments) (fun _ _ => False))
      (Based env disk) (preflight env sha256 store arguments) (fun snapshots w =>
        Cleared env sha256 store disk (referenced arguments) arguments snapshots w ∧
          Based env disk w) :=
    spec_preflight sha256 (fun _ h key hkey => (mem_registry_keys h key).mp hkey)
  obtain ⟨⟨pre, hpre⟩, hafter⟩ := hpreflight (World.begin disk bucket report) (fun _ => rfl)
  obtain ⟨hcleared, hbased⟩ := hafter _ _ hrun
  rw [hrun] at hpre
  exact ⟨hcleared, hbased, hpre.kept env⟩

/-- What a run leaves behind once its preflight has returned. -/
theorem settled_of_preflight {env : Env} {arguments : Arguments} {bucket : Bucket}
    {report : Report} {snapshots : List PackagePlan} {w₁ : World}
    (hrun : start (preflight env sha256 store arguments) (.begin disk bucket report) =
      (.ok snapshots, w₁)) :
    ∀ key ∈ referenced arguments, ∀ filename ∈ filenames,
      Settled env store disk (referenced arguments) key filename
        (start (migrate env sha256 store arguments) (.begin disk bucket report)).2 := by
  obtain ⟨hcleared, hbased, _⟩ := cleared_of_preflight hrun
  intro key hkey filename hfilename
  have hsettled := (hcleared.all hkey hfilename).2
  unfold migrate
  rw [start_bind_ok hrun]
  split
  · obtain ⟨hstep, _⟩ := spec_copy_packages hcleared w₁ hbased
    -- the copying may break off, and even then it has only advanced
    cases hcopy : start (snapshots.forM (copy_package env sha256 store)) w₁ with
    | mk r w =>
      rw [hcopy] at hstep
      have hafter := settled_stable key filename w₁ w hstep hsettled
      cases r with
      | error e => rw [start_bind_error hcopy]; exact hafter
      | ok u => rw [start_bind_ok hcopy]; exact hafter
  · exact hsettled

/-- A preflight that returned has read every file. -/
theorem Cleared.sourced {env : Env} {arguments : Arguments} {snapshots : List PackagePlan}
    {w : World} (h : Cleared env sha256 store disk (referenced arguments) arguments snapshots w)
    (hunedited : Unedited env) : Sourced store disk (referenced arguments) := by
  intro key hkey filename hfilename
  obtain ⟨content, object_key, _, hread, hobject, _⟩ := (h.all hkey hfilename).1
  exact ⟨content, object_key, hobject, hread.stored hunedited, hread.size⟩

/-- **A later run returns exactly when nothing is in its way.** -/
theorem migrate_returns_iff {env : Env} {arguments : Arguments} {bucket later : Bucket}
    {report report' : Report} {snapshots : List PackagePlan} {w₁ : World}
    (hunedited : Unedited env)
    (hrun : start (preflight env sha256 store arguments) (.begin disk bucket report) =
      (.ok snapshots, w₁)) :
    (∃ r, (start (migrate quiet sha256 store arguments) (.begin disk later report')).1 = .ok r) ↔
      ∀ k, Fits store disk (referenced arguments) later k := by
  constructor
  · rintro ⟨r, hreturns⟩ k
    cases hpreflight : start (preflight quiet sha256 store arguments)
        (.begin disk later report') with
    | mk result w =>
      cases result with
      | error e =>
        unfold migrate at hreturns
        rw [start_bind_error hpreflight] at hreturns
        exact absurd hreturns (by simp)
      | ok snapshots' =>
        -- a preflight alone changes nothing, so what it found was there before
        obtain ⟨hcleared, _, hkept⟩ := cleared_of_preflight hpreflight
        have hfits := fits_of_settled (quiet_harmless store disk (referenced arguments))
          (fun key hkey filename hfilename => (hcleared.all hkey hfilename).2) k
        intro bytes hbytes
        rw [← hkept quiet_alone k]
        exact hfits bytes hbytes
  · intro hfits
    obtain ⟨hcleared, _⟩ := cleared_of_preflight hrun
    obtain ⟨registered, hregistered, _⟩ := hcleared.planned
    obtain ⟨r, w, hreturns⟩ := returns_migrate hregistered (hcleared.sourced hunedited)
      (.begin disk later report') (clear_of_fits hfits)
    exact ⟨r, by rw [hreturns]⟩

/-- **The migration never overwrites, and it converges.** Whatever others do,
    a run keeps to `Safe`. And where it passed its preflight and others left no
    other bytes in the place of an object, then or since, a later run that
    nothing fails returns, however this one ended. -/
theorem migrate_safe_and_converges (env : Env) (sha256 : ByteArray → ByteArray)
    (store : S3StrategyStore) (arguments : Arguments) (disk : Disk) (bucket : Bucket)
    (report : Report) :
    (∃ pre post, Safe env sha256 store arguments disk bucket
      (start (migrate env sha256 store arguments) (.begin disk bucket report)).1
      (start (migrate env sha256 store arguments) (.begin disk bucket report)).2 pre post) ∧
    (Harmless env store disk (referenced arguments) →
      (∃ snapshots, (start (preflight env sha256 store arguments)
        (.begin disk bucket report)).1 = .ok snapshots) →
      ∀ others, Keeps store disk (referenced arguments) others → ∀ later,
        ∃ r, (start (migrate quiet sha256 store arguments) (.begin disk
          (others (start (migrate env sha256 store arguments) (.begin disk bucket report)).2.bucket)
          later)).1 = .ok r) := by
  refine ⟨migrate_safe env sha256 store arguments disk bucket report, ?_⟩
  intro hharmless hpreflight others hothers later
  obtain ⟨snapshots, hok⟩ := hpreflight
  have hrun : start (preflight env sha256 store arguments) (.begin disk bucket report) =
      (.ok snapshots, (start (preflight env sha256 store arguments)
        (.begin disk bucket report)).2) := Prod.ext hok rfl
  apply (migrate_returns_iff hharmless.1 hrun).mpr
  intro k
  exact hothers _ k (fits_of_settled hharmless (settled_of_preflight hrun) k)

/-! ### A run that breaks off -/

/-- The digests of the files below. -/
def file_digest (content : ByteArray) : ByteArray :=
  let digest :=
    if content = "pass".toUTF8 then
      0xd74ff0ee8da3b9806b18c877dbf29bbde50b5bd8e4dad7a3a725000feb82e8f1
    else if content = "\x7b\x7d".toUTF8 then
      0x44136fa355b3678a1146ad16f7e8649e94fb4fc21fe77e8310c060f61caaff8a
    else 0x2d711642b726b04401627ca9fbac32f5c8530fb1903cc4db02258717921a4881
  ⟨((List.range 32).map (fun i => UInt8.ofNat (digest >>> (8 * (31 - i))))).toArray⟩

/-- A local store with one package. -/
def one_package : Disk :=
  [(["strategies"], .dir), (["strategies", "a"], .dir),
    (["strategies", "a", "strategy.py"], .file "pass".toUTF8),
    (["strategies", "a", "config.json"], .file "\x7b\x7d".toUTF8)].foldl
      (fun disk entry => disk.insert entry.1 entry.2) ∅

def bucket_store : S3StrategyStore := { bucket := "b", prefix_text := "" }

def apply_one : Arguments where
  inventory := fun _ => { items := ["strategies/a/"], fails := false }
  apply := true
  api_workers_stopped := true
  max_packages := 1000

def no_counts : Report := ⟨0, 0, 0, 0, 0, 0⟩

/-- The put of the config is refused. -/
def refused_put : Env := fun n => { quiet n with
  writing := if n = 11 then some (.failed false) else none }

theorem migrate_resumes :
    (start (migrate refused_put file_digest bucket_store apply_one)
      (.begin one_package ∅ no_counts)).1 =
        .error (.destination_write_failed "strategies/a/" "config.json") ∧
    ∃ r, (start (migrate quiet file_digest bucket_store apply_one) (.begin one_package
      (start (migrate refused_put file_digest bucket_store apply_one)
        (.begin one_package ∅ no_counts)).2.bucket no_counts)).1 = .ok r := by
  have hharmless : Harmless refused_put bucket_store one_package (referenced apply_one) :=
    ⟨fun _ _ => rfl, fun _ _ _ h => h⟩
  refine ⟨by decide +kernel, ?_⟩
  obtain ⟨_, hconverges⟩ := migrate_safe_and_converges refused_put file_digest bucket_store
    apply_one one_package ∅ no_counts
  apply hconverges hharmless _ id (fun _ _ h => h) no_counts
  exact Fallible.exists_of_isOk (by decide +kernel)

/-- The put of the source is refused, and another writer has put a config of
    its own before. -/
def racing_put : Env := fun n => { quiet n with
  others := fun bucket =>
    if n = 10 then bucket.insert "strategies/a/config.json" "x".toUTF8 else bucket
  writing := if n = 10 then some (.failed false) else none }

theorem racing_writer_not_resumed :
    ((start (preflight racing_put file_digest bucket_store apply_one)
      (.begin one_package ∅ no_counts)).1.isOk = true) ∧
    (start (migrate racing_put file_digest bucket_store apply_one)
      (.begin one_package ∅ no_counts)).1 =
        .error (.destination_write_failed "strategies/a/" "strategy.py") ∧
    (start (migrate quiet file_digest bucket_store apply_one) (.begin one_package
      (start (migrate racing_put file_digest bucket_store apply_one)
        (.begin one_package ∅ no_counts)).2.bucket no_counts)).1 =
          .error (.destination_conflict_or_mismatch "strategies/a/" "config.json") := by
  decide +kernel

end Migration

end Storage
