import BacktestVisualizer.Storage.Migration
import Mathlib.Data.List.ReduceOption

/-! # Runs of the Store Migration

  What a run of `migrate` may do to the bucket, whatever other writers and
  failures do: it puts only what is planned, only where there is nothing, and
  only once every package has passed the preflight. `Stretch` is what any part
  of a run may do, and each request is shown to be one.
-/

namespace Storage

namespace Migration

open Program

variable (env : Env) (sha256 : ByteArray → ByteArray) (store : S3StrategyStore)

/-! ### Other writers -/

/-- Nobody edits the local store. -/
def Unedited : Prop := ∀ n disk, (env n).edits disk = disk

/-- Nobody else writes to the bucket. -/
def Alone : Prop := ∀ n bucket, (env n).others bucket = bucket

section
variable (disk : Disk) (keys : List String)

/-- The bytes that the local store has for an object of one of the keys. -/
def LocalObject (object_key : String) (bytes : ByteArray) : Prop :=
  ∃ key ∈ keys, ∃ filename ∈ filenames, store.object_key key filename = .ok object_key ∧
    stored_bytes disk key filename = some bytes

/-- Nothing is in the place of an object but its own bytes. -/
def Fits (bucket : Bucket) (object_key : String) : Prop :=
  ∀ bytes, LocalObject store disk keys object_key bytes →
    bucket.get object_key = none ∨ bucket.get object_key = some bytes

/-- Another writer who leaves no other bytes in the place of an object. -/
def Keeps (others : Bucket → Bucket) : Prop :=
  ∀ bucket object_key, Fits store disk keys bucket object_key →
    Fits store disk keys (others bucket) object_key

/-- Others who do no harm. -/
def Harmless : Prop := Unedited env ∧ ∀ n, Keeps store disk keys (env n).others

end

theorem quiet_unedited : Unedited quiet := fun _ _ => rfl

theorem quiet_alone : Alone quiet := fun _ _ => rfl

theorem quiet_harmless (disk : Disk) (keys : List String) : Harmless quiet store disk keys :=
  ⟨quiet_unedited, fun _ _ _ h => h⟩

/-! ### Objects -/

variable {store}

/-- An object key has one file behind it. -/
theorem LocalObject.unique {disk : Disk} {keys : List String} {object_key : String}
    {bytes bytes' : ByteArray} (h : LocalObject store disk keys object_key bytes)
    (h' : LocalObject store disk keys object_key bytes') : bytes = bytes' := by
  obtain ⟨key, _, filename, _, hobject, hbytes⟩ := h
  obtain ⟨key', _, filename', _, hobject', hbytes'⟩ := h'
  obtain ⟨hkey, rfl⟩ := S3StrategyStore.object_key_inj hobject hobject'
  have hpath : LocalStrategyStore.object_path key filename =
      LocalStrategyStore.object_path key' filename := by
    unfold LocalStrategyStore.object_path LocalStrategyStore.key_dir
    rw [hkey]
  unfold stored_bytes at hbytes hbytes'
  rw [hpath] at hbytes
  rw [hbytes] at hbytes'
  exact Option.some.inj hbytes'

/-! ### Stretches of a run -/

section
variable (store) (disk : Disk) (keys : List String) (allowed : String → ByteArray → Prop)

/-- A stretch of a run with its new events. -/
structure Stretch (w w' : World) (new : List Event) : Prop where
  log : w'.log = w.log ++ new
  /-- It puts only what is allowed, and where there is something it changes
      nothing. -/
  puts : ∀ object_key body before after, Event.put object_key body before after ∈ new →
    allowed object_key body ∧ (after = before ∨
      (before.get object_key = none ∧ after = before.insert object_key body))
  unedited : Unedited env → w'.disk = w.disk
  reads : Unedited env → ∀ key filename bytes, Event.read key filename bytes ∈ new →
    stored_bytes w.disk key filename = some bytes
  /-- With no other writer, what is new in the bucket was put. -/
  alone : Alone env → ∀ k, w'.bucket.get k = w.bucket.get k ∨ (w.bucket.get k = none ∧
    ∃ body before after, Event.put k body before after ∈ new ∧ w'.bucket.get k = some body)
  fits : Harmless env store disk keys → ∀ k, Fits store disk keys w.bucket k →
    Fits store disk keys w'.bucket k

/-- The world after some stretch. -/
def Advance (w w' : World) : Prop := ∃ new, Stretch env store disk keys allowed w w' new

end

section
variable {env} {disk : Disk} {keys : List String} {allowed : String → ByteArray → Prop}

theorem Stretch.refl (w : World) : Stretch env store disk keys allowed w w [] where
  log := (List.append_nil _).symm
  puts := by simp
  unedited := fun _ => rfl
  reads := by simp
  alone := fun _ _ => Or.inl rfl
  fits := fun _ _ h => h

theorem Stretch.trans {w w₁ w₂ : World} {new new' : List Event}
    (h : Stretch env store disk keys allowed w w₁ new)
    (h' : Stretch env store disk keys allowed w₁ w₂ new') :
    Stretch env store disk keys allowed w w₂ (new ++ new') where
  log := by rw [h'.log, h.log, List.append_assoc]
  puts := by
    intro k body before after hmem
    rcases List.mem_append.mp hmem with hmem | hmem
    · exact h.puts k body before after hmem
    · exact h'.puts k body before after hmem
  unedited := fun hunedited => (h'.unedited hunedited).trans (h.unedited hunedited)
  reads := by
    intro hunedited key filename bytes hmem
    rcases List.mem_append.mp hmem with hmem | hmem
    · exact h.reads hunedited key filename bytes hmem
    · rw [← h.unedited hunedited]
      exact h'.reads hunedited key filename bytes hmem
  alone := by
    intro halone k
    -- the second stretch may have put what the first did not
    rcases h'.alone halone k with hsame' | ⟨hnone', body, before, after, hput, hget⟩
    · rcases h.alone halone k with hsame | ⟨hnone, body, before, after, hput, hget⟩
      · exact Or.inl (hsame'.trans hsame)
      · exact Or.inr ⟨hnone, body, before, after, List.mem_append_left _ hput, hsame'.trans hget⟩
    · rcases h.alone halone k with hsame | ⟨_, body₁, _, _, _, hget₁⟩
      · rw [hsame] at hnone'
        exact Or.inr ⟨hnone', body, before, after, List.mem_append_right _ hput, hget⟩
      · -- what was put is not put again
        rw [hnone'] at hget₁
        exact absurd hget₁ (by simp)
  fits := fun hharmless k hk => h'.fits hharmless k (h.fits hharmless k hk)

instance : IsPreorder World (Advance env store disk keys allowed) where
  refl := fun w => ⟨[], Stretch.refl w⟩
  trans := by
    rintro w w₁ w₂ ⟨new, h⟩ ⟨new', h'⟩
    exact ⟨new ++ new', h.trans h'⟩

/-- A stretch with an event that is no put and a file that is there. -/
theorem Stretch.note {w : World} {event : Event}
    (hput : ∀ k body before after, event ≠ .put k body before after)
    (hread : ∀ key filename bytes, event = .read key filename bytes →
      stored_bytes w.disk key filename = some bytes) :
    Stretch env store disk keys allowed w (w.note event) [event] where
  log := rfl
  puts := by
    intro k body before after hmem
    exact absurd (List.mem_singleton.mp hmem).symm (hput k body before after)
  unedited := fun _ => rfl
  reads := by
    intro _ key filename bytes hmem
    exact hread key filename bytes (List.mem_singleton.mp hmem).symm
  alone := fun _ _ => Or.inl rfl
  fits := fun _ _ h => h

/-- The turn of the others. -/
theorem Stretch.pass (w : World) (n : ℕ) :
    Stretch env store disk keys allowed w (w.pass (env n)) [] where
  log := (List.append_nil _).symm
  puts := by simp
  unedited := fun hunedited => hunedited n w.disk
  reads := by simp
  alone := by
    intro halone k
    exact Or.inl (congrArg (fun bucket => Keyed.get bucket k) (halone n w.bucket))
  fits := fun hharmless k hk => hharmless.2 n w.bucket k hk

/-! ### Requests -/

theorem Stretch.note_after_pass {w : World} {n : ℕ} {event : Event}
    (h : Stretch env store disk keys allowed (w.pass (env n)) ((w.pass (env n)).note event) [event]) :
    Advance env store disk keys allowed w ((w.pass (env n)).note event) :=
  ⟨_, (Stretch.pass w n).trans h⟩

theorem spec_open_local (key filename : String) :
    Spec (Advance env store disk keys allowed) (fun _ => True) (open_local env key filename)
      (fun answer w => ∀ bytes, answer = some bytes →
        stored_bytes w.disk key filename = some bytes) := by
  have hpass : ∀ w : World, Advance env store disk keys allowed w (w.pass (env w.turn)) :=
    fun w => ⟨[], Stretch.pass w w.turn⟩
  apply Spec.act
  intro w _
  simp only
  cases (env w.turn).reading with
  | none =>
    refine ⟨hpass w, ?_⟩
    intro answer hanswer bytes hbytes
    rw [← Except.ok.inj hanswer] at hbytes
    exact hbytes
  | some trouble =>
    cases trouble with
    | stopped => exact ⟨hpass w, by simp⟩
    | failed => exact ⟨hpass w, by simp⟩
    | cut n =>
      -- only the bodies of answers are cut short
      refine ⟨hpass w, ?_⟩
      intro answer hanswer bytes hbytes
      rw [← Except.ok.inj hanswer] at hbytes
      exact hbytes

/-- Bytes that may break off, and show it by their length. -/
def Arrives (arrives : ByteArray → ByteArray) : Prop :=
  ∀ content, (arrives content).size = content.size → arrives content = content

theorem extract_all {content : ByteArray} {n : ℕ} (h : content.size ≤ n) :
    content.extract 0 n = content := by
  apply ByteArray.ext
  rw [ByteArray.data_extract]
  exact Array.extract_eq_self_of_le h

theorem arrives_extract (n : ℕ) : Arrives (fun content => content.extract 0 n) := by
  intro content hsize
  apply extract_all
  -- a prefix as long as the whole leaves nothing out
  rw [ByteArray.size_extract] at hsize
  omega

/-- An answer comes from the bucket as it is. -/
theorem spec_get_object (object_key : String) (log : List Event) :
    Spec (Advance env store disk keys allowed) (fun w => w.log = log) (get_object env object_key)
      (fun reply w => reply = .failed ∨ (w.log = log ++ [.fetched object_key w.bucket] ∧
        ∃ arrives, Arrives arrives ∧ reply = .of arrives (w.bucket.get object_key))) := by
  have hanswered : ∀ w : World, Advance env store disk keys allowed w
      ((w.pass (env w.turn)).note (.fetched object_key (w.pass (env w.turn)).bucket)) := by
    intro w
    exact Stretch.note_after_pass (Stretch.note (by simp) (by simp))
  apply Spec.act
  intro w hw
  simp only
  cases (env w.turn).reading with
  | none =>
    refine ⟨hanswered w, ?_⟩
    intro reply hreply
    rw [← Except.ok.inj hreply, ← hw]
    exact Or.inr ⟨rfl, id, fun _ _ => rfl, rfl⟩
  | some trouble =>
    cases trouble with
    | stopped => exact ⟨⟨[], Stretch.pass w w.turn⟩, by simp⟩
    | failed =>
      refine ⟨⟨[], Stretch.pass w w.turn⟩, ?_⟩
      intro reply hreply
      exact Or.inl (Except.ok.inj hreply).symm
    | cut n =>
      refine ⟨hanswered w, ?_⟩
      intro reply hreply
      rw [← Except.ok.inj hreply, ← hw]
      exact Or.inr ⟨rfl, _, arrives_extract n, rfl⟩

/-- A put that came to the bucket, landed or not. -/
theorem Stretch.put {w : World} {object_key : String} {body : ByteArray} {after : Bucket}
    (hallowed : allowed object_key body)
    (hlocal : Unedited env → LocalObject store disk keys object_key body)
    (hafter : after = w.bucket ∨
      (w.bucket.get object_key = none ∧ after = w.bucket.insert object_key body)) :
    Stretch env store disk keys allowed w
      ({ w with bucket := after }.note (.put object_key body w.bucket after))
      [.put object_key body w.bucket after] where
  log := rfl
  puts := by
    intro k body' before after' hmem
    obtain ⟨rfl, rfl, rfl, rfl⟩ := Event.put.inj (List.mem_singleton.mp hmem)
    exact ⟨hallowed, hafter⟩
  unedited := fun _ => rfl
  reads := by simp
  alone := by
    intro _ k
    show after.get k = w.bucket.get k ∨ _
    rcases hafter with rfl | ⟨hnone, hinsert⟩
    · exact Or.inl rfl
    · by_cases hk : k = object_key
      · have hget : after.get k = some body := by rw [hinsert, Keyed.get_insert, if_pos hk]
        rw [← hk] at hnone ⊢
        exact Or.inr ⟨hnone, body, w.bucket, after, List.mem_singleton.mpr rfl, hget⟩
      · exact Or.inl (by rw [hinsert, Keyed.get_insert, if_neg hk])
  fits := by
    intro hharmless k hk bytes hbytes
    show after.get k = none ∨ after.get k = some bytes
    rcases hafter with rfl | ⟨_, hinsert⟩
    · exact hk bytes hbytes
    · rw [hinsert, Keyed.get_insert]
      split
      -- what was put there is the file itself
      · rename_i heq
        rw [heq] at hbytes
        rw [(hlocal hharmless.1).unique hbytes]
        exact Or.inr rfl
      · exact hk bytes hbytes

/-- A conditional put changes nothing that is there, and one that is reported
    as stored is there. -/
theorem spec_put_object {object_key : String} {body : ByteArray}
    (hallowed : allowed object_key body)
    (hlocal : Unedited env → LocalObject store disk keys object_key body) :
    Spec (Advance env store disk keys allowed) (fun _ => True)
      (put_object env object_key body true)
      (fun reply w => reply = .stored → w.bucket.get object_key ≠ none) := by
  have hput : ∀ (w : World) (landed : Bool),
      let w₁ := w.pass (env w.turn)
      let after := if (!true || (w₁.bucket.get object_key).isNone) && landed then
        w₁.bucket.insert object_key body else w₁.bucket
      Advance env store disk keys allowed w
        ({ w₁ with bucket := after }.note (.put object_key body w₁.bucket after)) := by
    intro w landed w₁ after
    have hafter : after = w₁.bucket ∨
        (w₁.bucket.get object_key = none ∧ after = w₁.bucket.insert object_key body) := by
      by_cases hland : ((!true || (w₁.bucket.get object_key).isNone) && landed) = true
      · have hnone : w₁.bucket.get object_key = none := by
          simp only [Bool.not_true, Bool.false_or, Bool.and_eq_true, Option.isNone_iff_eq_none]
            at hland
          exact hland.1
        exact Or.inr ⟨hnone, if_pos hland⟩
      · exact Or.inl (if_neg hland)
    exact ⟨_, (Stretch.pass w w.turn).trans (Stretch.put hallowed hlocal hafter)⟩
  apply Spec.act
  intro w _
  simp only
  cases (env w.turn).writing with
  | none =>
    refine ⟨hput w true, ?_⟩
    intro reply hreply hstored
    rw [hstored] at hreply
    by_cases hnone : ((w.pass (env w.turn)).bucket.get object_key).isNone = true
    · show Keyed.get (if (!true || ((w.pass (env w.turn)).bucket.get object_key).isNone) && true
        then (w.pass (env w.turn)).bucket.insert object_key body
        else (w.pass (env w.turn)).bucket) object_key ≠ none
      rw [if_pos (by simp [hnone]), Keyed.get_insert, if_pos rfl]
      simp
    · simp [hnone] at hreply
  | some trouble =>
    -- no trouble is reported as stored, whether the put has landed or not
    cases trouble with
    | stopped landed => exact ⟨hput w landed, by simp⟩
    | failed landed => exact ⟨hput w landed, by simp⟩
    | conflict landed => exact ⟨hput w landed, by simp⟩

/-! ### One object -/

theorem spec_note {P : World → Prop} {event : Event}
    (hput : ∀ k body before after, event ≠ .put k body before after)
    (hread : ∀ w, P w → ∀ key filename bytes, event = .read key filename bytes →
      stored_bytes w.disk key filename = some bytes)
    (hP : ∀ w, P w → P (w.note event)) :
    Spec (Advance env store disk keys allowed) P (note event)
      (fun _ w => event ∈ w.log ∧ P w) := by
  apply Spec.modify
  intro w hw
  exact ⟨⟨_, Stretch.note hput (hread w hw)⟩,
    List.mem_append_right _ (List.mem_singleton.mpr rfl), hP w hw⟩

/-- A file is read whole or not at all. -/
theorem spec_local_bytes (key filename : String) :
    Spec (Advance env store disk keys allowed) (fun _ => True) (local_bytes env key filename)
      (fun content w => Event.read key filename content ∈ w.log ∧
        content.size ≤ max_object_bytes ∧ stored_bytes w.disk key filename = some content) := by
  apply Spec.bind (spec_open_local key filename)
  intro answer
  cases answer with
  | none => exact .throw _
  | some bytes =>
    apply Spec.ite
    · intro _
      exact .throw _
    · intro hsize
      -- what is short enough to pass was not cut
      have hwhole : bytes.extract 0 (max_object_bytes + 1) = bytes := by
        apply extract_all
        rw [ByteArray.size_extract] at hsize
        omega
      rw [hwhole] at hsize ⊢
      apply Spec.bind
      · apply spec_note (by simp)
        · intro w hw key' filename' bytes' heq
          obtain ⟨rfl, rfl, rfl⟩ := Event.read.inj heq
          exact hw bytes rfl
        · exact fun w hw => hw
      · intro _
        exact .pure (fun w hw => ⟨hw.1, by omega, hw.2 bytes rfl⟩)

/-- What is found in the destination is what the bucket holds. -/
theorem spec_remote_bytes (key filename : String) (log : List Event) :
    Spec (Advance env store disk keys allowed) (fun w => w.log = log)
      (remote_bytes env store key filename)
      (fun found w => ∃ object_key, store.object_key key filename = .ok object_key ∧
        w.log = log ++ [.fetched object_key w.bucket] ∧ w.bucket.get object_key = found) := by
  unfold remote_bytes
  cases hobject : store.object_key key filename with
  | error e => exact .throw _
  | ok object_key =>
    apply Spec.bind (spec_get_object object_key log)
    intro reply
    cases reply with
    | no_such_key =>
      apply Spec.pure
      intro w hw
      rcases hw with hfailed | ⟨hlog, arrives, _, hreply⟩
      · exact absurd hfailed (by simp)
      · refine ⟨object_key, rfl, hlog, ?_⟩
        cases hget : w.bucket.get object_key with
        | none => rfl
        | some content => simp [hget, GetReply.of] at hreply
    | failed => exact .throw _
    | body content_length body =>
      apply Spec.ite
      · intro _
        exact .throw _
      · intro hlength
        apply Spec.ite
        · intro _
          exact .throw _
        · intro hwhole
          apply Spec.pure
          intro w hw
          rcases hw with hfailed | ⟨hlog, arrives, harrives, hreply⟩
          · exact absurd hfailed (by simp)
          · refine ⟨object_key, rfl, hlog, ?_⟩
            cases hget : w.bucket.get object_key with
            | none => simp [hget, GetReply.of] at hreply
            | some content =>
              rw [hget] at hreply
              obtain ⟨rfl, rfl⟩ := GetReply.body.inj hreply
              -- neither the limit nor the connection has cut the body
              rw [not_or, not_not, ByteArray.size_extract] at hwhole
              have hsize : (arrives content).size = content.size := by omega
              rw [harrives content hsize, extract_all (by omega)]

/-- What the last answer of the bucket was. -/
def Found (store : S3StrategyStore) (key filename : String) (found : Option ByteArray)
    (w : World) : Prop :=
  ∃ log object_key, store.object_key key filename = .ok object_key ∧
    w.log = log ++ [.fetched object_key w.bucket] ∧ w.bucket.get object_key = found

/-- The same, wherever it stands in the log. -/
theorem spec_remote {P : World → Prop} (key filename : String) :
    Spec (Advance env store disk keys allowed) P (remote_bytes env store key filename)
      (fun found w => Found store key filename found w) :=
  Spec.ghost (fun log => (spec_remote_bytes key filename log).weaken (fun _ hw => hw.2)
    (fun _ _ hw => hw))

theorem spec_check_equal {P : World → Prop} (expected : ByteArray) (actual : Option ByteArray)
    (key filename : String) :
    Spec (Advance env store disk keys allowed) P (check_equal sha256 expected actual key filename)
      (fun _ w => P w ∧ actual = some expected) := by
  unfold check_equal
  cases actual with
  | none => exact .throw _
  | some actual =>
    apply Spec.ite
    · intro _
      exact .throw _
    · intro hequal
      rw [not_or, not_not] at hequal
      exact .pure (fun w hw => ⟨hw, by rw [hequal.1]⟩)

/-- An object is in the bucket, and stays there with nobody else about. -/
def Present (env : Env) (store : S3StrategyStore) (key filename : String) (w : World) : Prop :=
  ∃ object_key, store.object_key key filename = .ok object_key ∧
    (Alone env → w.bucket.get object_key ≠ none)

theorem present_stable (key filename : String) :
    Stable (Advance env store disk keys allowed) (Present env store key filename) := by
  rintro w w' ⟨new, hstretch⟩ ⟨object_key, hobject, hthere⟩
  refine ⟨object_key, hobject, ?_⟩
  intro halone
  rcases hstretch.alone halone object_key with hsame | ⟨hnone, _⟩
  · rw [hsame]
    exact hthere halone
  · exact absurd hnone (hthere halone)

/-- **A missing object is put**, or was put by another in the meantime. -/
theorem spec_put_missing {key filename : String} {content : ByteArray}
    (hallowed : ∀ object_key, store.object_key key filename = .ok object_key →
      allowed object_key content)
    (hlocal : ∀ object_key, store.object_key key filename = .ok object_key → Unedited env →
      LocalObject store disk keys object_key content) :
    Spec (Advance env store disk keys allowed) (fun _ => True)
      (put_missing env sha256 store key filename content)
      (fun _ w => Present env store key filename w) := by
  unfold put_missing
  cases hobject : store.object_key key filename with
  | error e => exact .throw _
  | ok object_key =>
    apply Spec.bind (spec_put_object (hallowed object_key hobject) (hlocal object_key hobject))
    intro reply
    cases reply with
    | stored => exact .pure (fun w hw => ⟨object_key, hobject, fun _ => hw rfl⟩)
    | failed => exact .throw _
    | conflict =>
      -- a conflict is believed only where the object is read back equal
      apply Spec.bind (spec_remote key filename)
      intro remote
      apply Spec.bind (spec_check_equal sha256 content remote key filename)
      intro _
      apply Spec.pure
      rintro w ⟨⟨_, object_key', hobject', _, hget⟩, hequal⟩
      refine ⟨object_key', hobject', fun _ => ?_⟩
      rw [hget, hequal]
      simp

/-! ### What a run has learned -/

variable (env disk) in
/-- The local store is as it was, if nobody edits it. -/
def Based (w : World) : Prop := Unedited env → w.disk = disk

theorem based_stable : Stable (Advance env store disk keys allowed) (Based env disk) := by
  rintro w w' ⟨new, hstretch⟩ hw hunedited
  rw [hstretch.unedited hunedited]
  exact hw hunedited

theorem mem_log_stable (event : Event) :
    Stable (Advance env store disk keys allowed) (fun w => event ∈ w.log) := by
  rintro w w' ⟨new, hstretch⟩ hw
  show event ∈ w'.log
  rw [hstretch.log]
  exact List.mem_append_left _ hw

variable (env disk) in
/-- A file was read, with bytes of the size that is allowed. -/
structure HasRead (key filename : String) (content : ByteArray) (log : List Event) : Prop where
  read : Event.read key filename content ∈ log
  size : content.size ≤ max_object_bytes
  stored : Unedited env → stored_bytes disk key filename = some content

theorem hasRead_stable (key filename : String) (content : ByteArray) :
    Stable (Advance env store disk keys allowed)
      (fun w => HasRead env disk key filename content w.log) := by
  intro w w' hstep hw
  exact ⟨mem_log_stable _ w w' hstep hw.read, hw.size, hw.stored⟩

theorem spec_local (key filename : String) :
    Spec (Advance env store disk keys allowed) (Based env disk) (local_bytes env key filename)
      (fun content w => HasRead env disk key filename content w.log ∧ Based env disk w) := by
  apply ((spec_local_bytes key filename).frame based_stable).weaken (fun w hw => ⟨trivial, hw⟩)
  rintro content w ⟨⟨hread, hsize, hstored⟩, hbased⟩
  refine ⟨⟨hread, hsize, ?_⟩, hbased⟩
  intro hunedited
  rw [← hbased hunedited]
  exact hstored

variable (env store disk) in
/-- A file has passed the preflight: it could be read, and its object in the
    destination was missing or equal. -/
def Passed (key filename : String) (log : List Event) : Prop :=
  ∃ content object_key bucket, HasRead env disk key filename content log ∧
    store.object_key key filename = .ok object_key ∧
    Event.fetched object_key bucket ∈ log ∧
    (bucket.get object_key = none ∨ bucket.get object_key = some content)

theorem passed_stable (key filename : String) :
    Stable (Advance env store disk keys allowed)
      (fun w => Passed env store disk key filename w.log) := by
  rintro w w' hstep ⟨content, object_key, bucket, hread, hobject, hfetched, hget⟩
  exact ⟨content, object_key, bucket, hasRead_stable _ _ _ w w' hstep hread, hobject,
    mem_log_stable _ w w' hstep hfetched, hget⟩

variable (env store disk keys) in
/-- An object has nothing else in its place, as long as others do no harm. -/
def Settled (key filename : String) (w : World) : Prop :=
  ∀ object_key, store.object_key key filename = .ok object_key → Harmless env store disk keys →
    Fits store disk keys w.bucket object_key

theorem settled_stable (key filename : String) :
    Stable (Advance env store disk keys allowed) (Settled env store disk keys key filename) := by
  rintro w w' ⟨new, hstretch⟩ hw object_key hobject hharmless
  exact hstretch.fits hharmless object_key (hw object_key hobject hharmless)

/-- What was found to be missing or equal is settled. -/
theorem settled_of_found {key filename object_key : String} {content : ByteArray} {w : World}
    (hkey : key ∈ keys) (hfilename : filename ∈ filenames)
    (hobject : store.object_key key filename = .ok object_key)
    (hread : HasRead env disk key filename content w.log)
    (hget : w.bucket.get object_key = none ∨ w.bucket.get object_key = some content) :
    Settled env store disk keys key filename w := by
  intro object_key' hobject' hharmless bytes hbytes
  rw [hobject] at hobject'
  obtain rfl := Except.ok.inj hobject'
  have hlocal : LocalObject store disk keys object_key content :=
    ⟨key, hkey, filename, hfilename, hobject, hread.stored hharmless.1⟩
  rw [hbytes.unique hlocal]
  exact hget

/-! ### The preflight -/

/-- Counting is no event. -/
theorem advance_report (w : World) (report : Report) :
    Advance env store disk keys allowed w { w with report := report } :=
  ⟨[], { log := (List.append_nil _).symm, puts := by simp, unedited := fun _ => rfl,
         reads := by simp, alone := fun _ _ => Or.inl rfl, fits := fun _ _ h => h }⟩

theorem spec_count {P : World → Prop} (f : Report → Report)
    (hP : Stable (Advance env store disk keys allowed) P) :
    Spec (Advance env store disk keys allowed) P (count f) (fun _ w => P w) := by
  apply Spec.modify
  intro w hw
  exact ⟨advance_report w _, hP w _ (advance_report w _) hw⟩

variable (env store disk keys) in
/-- A file is through the preflight. -/
def Through (key filename : String) (w : World) : Prop :=
  Passed env store disk key filename w.log ∧ Settled env store disk keys key filename w

theorem through_stable (key filename : String) :
    Stable (Advance env store disk keys allowed) (Through env store disk keys key filename) :=
  (passed_stable key filename).and (settled_stable key filename)

theorem through_of_found {key filename : String} {content : ByteArray} {found : Option ByteArray}
    {w : World} (hkey : key ∈ keys) (hfilename : filename ∈ filenames)
    (hread : HasRead env disk key filename content w.log) (hw : Found store key filename found w)
    (hwhich : found = none ∨ found = some content) :
    Through env store disk keys key filename w := by
  obtain ⟨log, object_key, hobject, hlog, hget⟩ := hw
  rw [← hget] at hwhich
  have hfetched : Event.fetched object_key w.bucket ∈ w.log := by
    rw [hlog]
    exact List.mem_append_right _ (List.mem_singleton.mpr rfl)
  exact ⟨⟨content, object_key, w.bucket, hread, hobject, hfetched, hwhich⟩,
    settled_of_found hkey hfilename hobject hread hwhich⟩

/-- The bucket is asked about a file that was read. -/
theorem spec_compare {key filename : String} {content : ByteArray} :
    Spec (Advance env store disk keys allowed)
      (fun w => HasRead env disk key filename content w.log ∧ Based env disk w)
      (remote_bytes env store key filename)
      (fun found w => Found store key filename found w ∧
        HasRead env disk key filename content w.log ∧ Based env disk w) := by
  have hstable : Stable (Advance env store disk keys allowed)
      (fun w => HasRead env disk key filename content w.log ∧ Based env disk w) :=
    (hasRead_stable key filename content).and based_stable
  exact ((spec_remote key filename).frame hstable).weaken (fun w hw => ⟨hw, hw⟩)
    (fun found w hw => hw)

/-- A file that is through is counted. -/
theorem spec_counted {β : Type} {key filename : String} {P : World → Prop} (f : Report → Report)
    (b : β) (hP : ∀ w, P w → Through env store disk keys key filename w) :
    Spec (Advance env store disk keys allowed) P (do count f; return b)
      (fun _ w => Through env store disk keys key filename w) := by
  have hcount : Spec (Advance env store disk keys allowed)
      (Through env store disk keys key filename) (count f)
      (fun _ w => Through env store disk keys key filename w) :=
    spec_count f (through_stable key filename)
  apply Spec.bind (hcount.weaken hP (fun _ _ hw => hw))
  intro _
  exact .pure (fun w hw => hw)

theorem spec_preflight_file {key : String} {file : String × ObjectSnapshot} (hkey : key ∈ keys)
    (hfile : file.1 ∈ filenames) :
    Spec (Advance env store disk keys allowed) (Based env disk)
      (preflight_file env sha256 store key file)
      (fun _ w => Through env store disk keys key file.1 w) := by
  apply Spec.bind (spec_local key file.1)
  intro content
  apply Spec.ite
  · intro _
    exact .throw _
  · intro _
    apply Spec.bind spec_compare
    intro found
    cases found with
    | none =>
      apply spec_counted
      intro w hw
      exact through_of_found hkey hfile hw.2.1 hw.1 (Or.inl rfl)
    | some remote =>
      apply Spec.bind (spec_check_equal sha256 content (some remote) key file.1)
      intro _
      apply spec_counted
      intro w hw
      exact through_of_found hkey hfile hw.1.2.1 hw.1.1 (Or.inr hw.2)

theorem spec_emit {P : World → Prop} (line : Line)
    (hP : Stable (Advance env store disk keys allowed) P) :
    Spec (Advance env store disk keys allowed) P (emit line)
      (fun _ w => Event.emitted line ∈ w.log ∧ P w) := by
  apply spec_note (by simp) (by simp)
  intro w hw
  exact hP w _ ⟨_, Stretch.note (by simp) (by simp)⟩ hw

variable (env disk) in
/-- The snapshots of a package are those of files that were read. -/
def PlanOf (key : String) (package : PackagePlan) (w : World) : Prop :=
  package.1 = key ∧ List.Forall₂ (fun filename file => file.1 = filename ∧
    ∃ planned, HasRead env disk key filename planned w.log ∧ file.2 = snapshot sha256 planned)
      filenames package.2

theorem planned_file_stable (key filename : String) (file : String × ObjectSnapshot) :
    Stable (Advance env store disk keys allowed) (fun w => file.1 = filename ∧
      ∃ planned, HasRead env disk key filename planned w.log ∧ file.2 = snapshot sha256 planned) :=
  (Stable.const _).and
    (.exists (fun planned => (hasRead_stable key filename planned).and (.const _)))

theorem planOf_stable (key : String) (package : PackagePlan) :
    Stable (Advance env store disk keys allowed) (PlanOf env sha256 disk key package) :=
  (Stable.const _).and (.forall₂ (planned_file_stable sha256 key))

theorem spec_plan_package (key : String) :
    Spec (Advance env store disk keys allowed) (Based env disk) (plan_package env sha256 key)
      (fun package w => PlanOf env sha256 disk key package w) := by
  apply Spec.bind (Q := fun files w => Based env disk w ∧
    PlanOf env sha256 disk key (key, files) w)
  · apply (Spec.mapM based_stable (planned_file_stable sha256 key) ?_).weaken (fun w hw => hw)
      (fun files w hw => ⟨hw.1, rfl, hw.2⟩)
    intro filename _
    apply Spec.bind (spec_local key filename)
    intro content
    exact .pure (fun w hw => ⟨rfl, content, hw.1, rfl⟩)
  · intro files
    exact .pure (fun w hw => hw.2)

theorem spec_preflight_package {package : PackagePlan} (hkey : package.1 ∈ keys)
    (hfiles : ∀ file ∈ package.2, file.1 ∈ filenames) :
    Spec (Advance env store disk keys allowed) (Based env disk)
      (preflight_package env sha256 store package)
      (fun _ w => ∀ file ∈ package.2, Through env store disk keys package.1 file.1 w) := by
  have hstable : Stable (Advance env store disk keys allowed)
      (fun w => ∀ file ∈ package.2, Through env store disk keys package.1 file.1 w) :=
    .all (fun file => through_stable package.1 file.1)
  apply Spec.bind (Q := fun _ w => ∀ file ∈ package.2,
    Through env store disk keys package.1 file.1 w)
  · refine (Spec.mapM (G := fun file _ w => Through env store disk keys package.1 file.1 w)
      based_stable (fun file _ => through_stable package.1 file.1)
      (fun file hfile => spec_preflight_file sha256 hkey (hfiles file hfile))).weaken
      (fun w hw => hw) ?_
    intro missing w hw file hfile
    obtain ⟨_, _, hthrough⟩ := Fallible.exists_right hw.2 hfile
    exact hthrough
  · intro missing
    exact (spec_emit _ hstable).weaken (fun w hw => hw) (fun _ w hw => hw.2)

variable (env store disk keys) in
/-- What a preflight that returned has made sure of. -/
structure Cleared (arguments : Arguments) (snapshots : List PackagePlan) (w : World) : Prop where
  planned : ∃ registered, registry_keys arguments = .ok registered ∧
    List.Forall₂ (fun key package => PlanOf env sha256 disk key package w) registered snapshots
  through : ∀ package ∈ snapshots, ∀ file ∈ package.2,
    Through env store disk keys package.1 file.1 w

/-- The names in a plan are those of a package. -/
theorem PlanOf.files {key : String} {package : PackagePlan} {w : World}
    (h : PlanOf env sha256 disk key package w) : ∀ file ∈ package.2, file.1 ∈ filenames := by
  intro file hfile
  obtain ⟨filename, hfilename, hname, _⟩ := Fallible.exists_left h.2 hfile
  rw [hname]
  exact hfilename

theorem spec_preflight {arguments : Arguments}
    (hkeys : ∀ registered, registry_keys arguments = .ok registered →
      ∀ key ∈ registered, key ∈ keys) :
    Spec (Advance env store disk keys allowed) (Based env disk)
      (preflight env sha256 store arguments)
      (fun snapshots w => Cleared env sha256 store disk keys arguments snapshots w ∧
        Based env disk w) := by
  unfold preflight
  cases hregistered : registry_keys arguments with
  | error e => exact .throw _
  | ok registered =>
    apply Spec.bind (spec_count _ based_stable)
    intro _
    apply Spec.bind (Spec.mapM based_stable (planOf_stable sha256)
      (fun key _ => spec_plan_package sha256 key))
    intro snapshots w hw
    -- the plans are those of the registered keys
    have hpackages : ∀ package ∈ snapshots, package.1 ∈ keys ∧
        ∀ file ∈ package.2, file.1 ∈ filenames := by
      intro package hpackage
      obtain ⟨key, hkey, hplan⟩ := Fallible.exists_left hw.2 hpackage
      rw [hplan.1]
      exact ⟨hkeys registered hregistered key hkey, hplan.files⟩
    have hplans : Stable (Advance env store disk keys allowed) (fun w =>
        List.Forall₂ (fun key package => PlanOf env sha256 disk key package w)
          registered snapshots) :=
      .forall₂ (planOf_stable sha256)
    have hloop : Spec (Advance env store disk keys allowed) (Based env disk)
        (snapshots.forM (preflight_package env sha256 store))
        (fun _ w => Based env disk w ∧ ∀ package ∈ snapshots, ∀ file ∈ package.2,
          Through env store disk keys package.1 file.1 w) := by
      apply Spec.forM based_stable
      · exact fun package => .all (fun file => through_stable package.1 file.1)
      · intro package hpackage
        exact spec_preflight_package sha256 (hpackages package hpackage).1
          (hpackages package hpackage).2
    revert w
    apply Spec.bind (hloop.frame hplans)
    intro _
    apply Spec.pure
    rintro w ⟨⟨hbased, hthrough⟩, hplanned⟩
    exact ⟨⟨⟨registered, hregistered, hplanned⟩, hthrough⟩, hbased⟩

/-! ### Copying -/

section
variable {pre : List Event}

variable (env disk pre) in
/-- The bytes that were planned for a file: they have the snapshot of bytes
    read in the preflight, and nobody editing them they are the file's. -/
def PlannedBytes (key filename : String) (bytes : ByteArray) : Prop :=
  (∃ planned, Event.read key filename planned ∈ pre ∧
    snapshot sha256 bytes = snapshot sha256 planned) ∧
  (Unedited env → stored_bytes disk key filename = some bytes)

variable (env store disk keys pre) in
/-- An object of a key, with the bytes that were planned for it. -/
def PlannedObject (object_key : String) (bytes : ByteArray) : Prop :=
  ∃ key ∈ keys, ∃ filename ∈ filenames, store.object_key key filename = .ok object_key ∧
    PlannedBytes env sha256 disk pre key filename bytes

/-- A package as it was read again before it is copied. -/
def Reread (env : Env) (sha256 : ByteArray → ByteArray) (disk : Disk) (pre : List Event)
    (key : String) (contents : List (String × ByteArray)) : Prop :=
  List.Forall₂ (fun filename file => file.1 = filename ∧
    PlannedBytes env sha256 disk pre key filename file.2) filenames contents

variable {sha256} in
theorem Reread.file {key : String} {contents : List (String × ByteArray)}
    (h : Reread env sha256 disk pre key contents) {file : String × ByteArray}
    (hfile : file ∈ contents) :
    file.1 ∈ filenames ∧ PlannedBytes env sha256 disk pre key file.1 file.2 := by
  obtain ⟨filename, hfilename, hname, hplanned⟩ := Fallible.exists_left h hfile
  rw [hname]
  exact ⟨hfilename, hplanned⟩

variable (env disk) in
/-- The files of a package, as they were read. -/
def Contents (key : String) (contents : List (String × ByteArray)) (w : World) : Prop :=
  List.Forall₂ (fun filename file => file.1 = filename ∧
    HasRead env disk key filename file.2 w.log) filenames contents

theorem contents_stable (key : String) (contents : List (String × ByteArray)) :
    Stable (Advance env store disk keys allowed) (Contents env disk key contents) :=
  .forall₂ (fun filename file => (Stable.const _).and (hasRead_stable key filename file.2))

theorem spec_contents (key : String) :
    Spec (Advance env store disk keys allowed) (Based env disk)
      (filenames.mapM (fun filename => do
        let content ← local_bytes env key filename
        return (filename, content)))
      (fun contents w => Based env disk w ∧ Contents env disk key contents w) := by
  apply Spec.mapM based_stable
  · exact fun filename file => (Stable.const _).and (hasRead_stable key filename file.2)
  · intro filename _
    apply Spec.bind (spec_local key filename)
    intro content
    exact .pure (fun w hw => ⟨rfl, hw.1⟩)

/-- **A package is copied only as it was planned.** -/
theorem spec_reread {package : PackagePlan}
    (hplan : ∀ filename s, package.2.lookup filename = some s →
      ∃ planned, Event.read package.1 filename planned ∈ pre ∧ s = snapshot sha256 planned)
    (contents : List (String × ByteArray)) :
    Spec (Advance env store disk keys allowed)
      (fun w => Based env disk w ∧ Contents env disk package.1 contents w)
      (contents.forM (reread sha256 package))
      (fun _ w => Reread env sha256 disk pre package.1 contents ∧ Based env disk w) := by
  have hstable : Stable (Advance env store disk keys allowed)
      (fun w => Based env disk w ∧ Contents env disk package.1 contents w) :=
    based_stable.and (contents_stable package.1 contents)
  have hone : ∀ file ∈ contents, Spec (Advance env store disk keys allowed)
      (fun w => Based env disk w ∧ Contents env disk package.1 contents w)
      (reread sha256 package file)
      (fun _ _ => some (snapshot sha256 file.2) = package.2.lookup file.1) := by
    intro file _
    apply Spec.ite
    · intro _
      exact .throw _
    · intro hsame
      exact .pure (fun _ _ => not_not.mp hsame)
  apply (Spec.forM hstable (fun _ => .const _) hone).weaken (fun w hw => hw)
  intro _ w hw
  obtain ⟨⟨hbased, hread⟩, hsame⟩ := hw
  refine ⟨?_, hbased⟩
  -- the loop has looked up each file under its own name
  apply List.forall₂_iff_zip.mpr
  refine ⟨hread.length_eq, ?_⟩
  intro filename file hzip
  obtain ⟨hname, hfile⟩ := List.forall₂_zip hread hzip
  have hlookup := hsame file (List.of_mem_zip hzip).2
  rw [hname] at hlookup
  obtain ⟨planned, hplanned, hsnapshot⟩ := hplan filename _ hlookup.symm
  exact ⟨hname, ⟨planned, hplanned, hsnapshot⟩, hfile.stored⟩

/-- A file is missing, or its object is there. -/
theorem spec_missing_file (key : String) (file : String × ByteArray) :
    Spec (Advance env store disk keys allowed) (Based env disk)
      (missing_file env sha256 store key file)
      (fun missing w => missing = some file ∨
        (missing = none ∧ Present env store key file.1 w)) := by
  apply Spec.bind (spec_remote key file.1)
  intro found
  cases found with
  | none => exact .pure (fun _ _ => Or.inl rfl)
  | some remote =>
    apply Spec.bind (spec_check_equal sha256 file.2 (some remote) key file.1)
    intro _
    apply Spec.pure
    rintro w ⟨⟨log, object_key, hobject, _, hget⟩, _⟩
    refine Or.inr ⟨rfl, object_key, hobject, fun _ => ?_⟩
    rw [hget]
    simp

variable (env store) in
/-- Which of the files are missing; the others are there. -/
def Missing (key : String) (contents : List (String × ByteArray))
    (missing : List (Option (String × ByteArray))) (w : World) : Prop :=
  List.Forall₂ (fun file m => m = some file ∨ (m = none ∧ Present env store key file.1 w))
    contents missing

theorem missing_file_stable (key : String) (file : String × ByteArray)
    (m : Option (String × ByteArray)) : Stable (Advance env store disk keys allowed)
      (fun w => m = some file ∨ (m = none ∧ Present env store key file.1 w)) :=
  (Stable.const _).or ((Stable.const _).and (present_stable key file.1))

theorem spec_missing_files (key : String) (contents : List (String × ByteArray)) :
    Spec (Advance env store disk keys allowed) (Based env disk)
      (contents.mapM (missing_file env sha256 store key))
      (fun missing w => Based env disk w ∧ Missing env store key contents missing w) :=
  Spec.mapM based_stable (missing_file_stable key) (fun file _ => spec_missing_file sha256 key file)

/-- The files that are missing are files of the package. -/
theorem mem_of_missing {key : String} {contents : List (String × ByteArray)}
    {missing : List (Option (String × ByteArray))} {w : World}
    (h : Missing env store key contents missing w) {file : String × ByteArray} (hfile : file ∈ missing.reduceOption) : file ∈ contents := by
  obtain ⟨file', hfile', hwhich⟩ := Fallible.exists_left h (List.reduceOption_mem_iff.mp hfile)
  rcases hwhich with hsome | ⟨hnone, _⟩
  · rw [Option.some.inj hsome]
    exact hfile'
  · exact absurd hnone (by simp)

theorem spec_copy_file {key : String} {file : String × ByteArray} (hkey : key ∈ keys)
    (hname : file.1 ∈ filenames) (hplanned : PlannedBytes env sha256 disk pre key file.1 file.2) :
    Spec (Advance env store disk keys (PlannedObject env sha256 store disk keys pre))
      (Based env disk) (copy_file env sha256 store key file)
      (fun _ w => Present env store key file.1 w) := by
  have hput : Spec (Advance env store disk keys (PlannedObject env sha256 store disk keys pre))
      (fun _ => True) (put_missing env sha256 store key file.1 file.2)
      (fun _ w => Present env store key file.1 w) := by
    apply spec_put_missing
    · intro object_key hobject
      exact ⟨key, hkey, file.1, hname, hobject, hplanned⟩
    · intro object_key hobject hunedited
      exact ⟨key, hkey, file.1, hname, hobject, hplanned.2 hunedited⟩
  apply Spec.bind (hput.weaken (fun _ _ => trivial) (fun _ _ hw => hw))
  intro _
  exact spec_count _ (present_stable key file.1)

theorem spec_copy_files {key : String} {files : List (String × ByteArray)} (hkey : key ∈ keys)
    (hfiles : ∀ file ∈ files, file.1 ∈ filenames ∧
      PlannedBytes env sha256 disk pre key file.1 file.2) :
    Spec (Advance env store disk keys (PlannedObject env sha256 store disk keys pre))
      (Based env disk) (files.forM (copy_file env sha256 store key))
      (fun _ w => Based env disk w ∧ ∀ file ∈ files, Present env store key file.1 w) :=
  Spec.forM based_stable (fun file => present_stable key file.1)
    (fun file hfile => spec_copy_file sha256 hkey (hfiles file hfile).1 (hfiles file hfile).2)

/-- Once the missing files are copied, every object of the package is there. -/
theorem spec_fill {key : String} {contents : List (String × ByteArray)}
    {missing : List (Option (String × ByteArray))} (hkey : key ∈ keys)
    (hreread : Reread env sha256 disk pre key contents) :
    Spec (Advance env store disk keys (PlannedObject env sha256 store disk keys pre))
      (fun w => Based env disk w ∧ Missing env store key contents missing w)
      (missing.reduceOption.forM (copy_file env sha256 store key))
      (fun _ w => Based env disk w ∧ ∀ file ∈ contents, Present env store key file.1 w) := by
  have hstable : Stable (Advance env store disk keys (PlannedObject env sha256 store disk keys pre))
      (Missing env store key contents missing) := .forall₂ (missing_file_stable key)
  intro w hw
  have hfiles : ∀ file ∈ missing.reduceOption, file.1 ∈ filenames ∧
      PlannedBytes env sha256 disk pre key file.1 file.2 :=
    fun file hfile => hreread.file (mem_of_missing hw.2 hfile)
  revert w
  apply ((spec_copy_files sha256 hkey hfiles).frame hstable).weaken (fun w hw => hw)
  rintro _ w ⟨⟨hbased, hcopied⟩, hmissing⟩
  refine ⟨hbased, ?_⟩
  intro file hfile
  obtain ⟨m, hm, hwhich⟩ := Fallible.exists_right hmissing hfile
  -- a file that was missing has been copied since
  rcases hwhich with rfl | ⟨_, hpresent⟩
  · exact hcopied file (List.reduceOption_mem_iff.mpr hm)
  · exact hpresent

/-! ### Verifying -/

/-- An answer of the bucket that is the file. -/
def Answer (store : S3StrategyStore) (key filename : String) (bytes : ByteArray)
    (event : Event) : Prop :=
  ∃ object_key bucket, store.object_key key filename = .ok object_key ∧
    event = .fetched object_key bucket ∧ bucket.get object_key = some bytes

theorem spec_verify_file (key : String) (file : String × ByteArray) (log : List Event) :
    Spec (Advance env store disk keys allowed) (fun w => w.log = log)
      (verify_file env sha256 store key file)
      (fun _ w => ∃ event, w.log = log ++ [event] ∧ Answer store key file.1 file.2 event) := by
  apply Spec.bind (spec_remote_bytes key file.1 log)
  intro remote
  apply (spec_check_equal sha256 file.2 remote key file.1).weaken (fun w hw => hw)
  rintro _ w ⟨⟨object_key, hobject, hlog, hget⟩, hequal⟩
  exact ⟨_, hlog, object_key, w.bucket, hobject, rfl, hget.trans hequal⟩

/-- **One answer after the other** shows a file of the package. -/
theorem spec_verify_files (key : String) (files : List (String × ByteArray)) (log : List Event) :
    Spec (Advance env store disk keys allowed) (fun w => w.log = log)
      (files.forM (verify_file env sha256 store key))
      (fun _ w => ∃ events, w.log = log ++ events ∧
        List.Forall₂ (fun file event => Answer store key file.1 file.2 event) files events) := by
  induction files generalizing log with
  | nil => exact .pure (fun w hw => ⟨[], by rw [hw, List.append_nil], .nil⟩)
  | cons file files ih =>
    rw [forM_cons]
    apply Spec.bind (spec_verify_file sha256 key file log)
    intro _ w hw
    obtain ⟨event, hlog, hanswer⟩ := hw
    apply ((ih (log ++ [event])).weaken (fun w hw => hw) ?_) w hlog
    rintro _ w' ⟨events, hlog', hanswers⟩
    exact ⟨event :: events, by rw [hlog', List.append_assoc]; rfl, .cons hanswer hanswers⟩

variable (env store disk pre) in
/-- A package is verified: the last two answers before it is said were its
    files, as they were planned. -/
def Verified (key : String) (log : List Event) : Prop :=
  ∃ before events after,
    log = before ++ events ++ .emitted (.verified key filenames.length) :: after ∧
    List.Forall₂ (fun filename event => ∃ bytes, Answer store key filename bytes event ∧
      PlannedBytes env sha256 disk pre key filename bytes) filenames events

theorem verified_stable (key : String) :
    Stable (Advance env store disk keys allowed)
      (fun w => Verified env sha256 store disk pre key w.log) := by
  rintro w w' ⟨new, hstretch⟩ ⟨before, events, after, hlog, hanswers⟩
  refine ⟨before, events, after ++ new, ?_, hanswers⟩
  rw [hstretch.log, hlog, List.append_assoc, List.append_assoc, List.append_assoc]
  rfl

variable {sha256} in
/-- Answers that are the files as they were read again are as planned. -/
theorem Reread.answers {key : String} {contents : List (String × ByteArray)}
    {events : List Event} (h : Reread env sha256 disk pre key contents)
    (hanswers : List.Forall₂ (fun file event => Answer store key file.1 file.2 event)
      contents events) :
    List.Forall₂ (fun filename event => ∃ bytes, Answer store key filename bytes event ∧
      PlannedBytes env sha256 disk pre key filename bytes) filenames events := by
  unfold Reread at h
  -- by induction on the two names, each with its answer
  generalize filenames = names at h ⊢
  induction h generalizing events with
  | nil =>
    cases hanswers
    exact .nil
  | cons hfile _ ih =>
    cases hanswers with
    | cons hanswer hrest =>
      obtain ⟨rfl, hplanned⟩ := hfile
      exact .cons ⟨_, hanswer, hplanned⟩ (ih hrest)

/-- The end of a package. -/
theorem spec_verify {key : String} {contents : List (String × ByteArray)}
    (hreread : Reread env sha256 disk pre key contents) {P : World → Prop} :
    Spec (Advance env store disk keys allowed) P
      (do
        contents.forM (verify_file env sha256 store key)
        count (fun report => { report with verified := report.verified + 1 })
        emit (.verified key filenames.length))
      (fun _ w => Verified env sha256 store disk pre key w.log) := by
  have hanswered : Spec (Advance env store disk keys allowed) P
      (contents.forM (verify_file env sha256 store key))
      (fun _ w => ∃ log events, w.log = log ++ events ∧
        List.Forall₂ (fun file event => Answer store key file.1 file.2 event) contents events) :=
    Spec.ghost (fun log => (spec_verify_files sha256 key contents log).weaken
      (fun w hw => hw.2) (fun _ w hw => hw))
  apply Spec.bind hanswered
  intro _
  apply Spec.bind (Q := fun _ w => ∃ log events, w.log = log ++ events ∧
    List.Forall₂ (fun file event => Answer store key file.1 file.2 event) contents events)
  · apply Spec.modify
    intro w hw
    exact ⟨advance_report w _, hw⟩
  · intro _
    apply Spec.modify
    rintro w ⟨log, events, hlog, hanswers⟩
    refine ⟨⟨_, Stretch.note (by simp) (by simp)⟩, log, events, [], ?_, hreread.answers hanswers⟩
    show w.log ++ _ = _
    rw [hlog]

/-- **One package is copied.** -/
theorem spec_copy_package {package : PackagePlan} (hkey : package.1 ∈ keys)
    (hplan : ∀ filename s, package.2.lookup filename = some s →
      ∃ planned, Event.read package.1 filename planned ∈ pre ∧ s = snapshot sha256 planned) :
    Spec (Advance env store disk keys (PlannedObject env sha256 store disk keys pre))
      (Based env disk) (copy_package env sha256 store package)
      (fun _ w => Verified env sha256 store disk pre package.1 w.log) := by
  apply Spec.bind (spec_contents package.1)
  intro contents
  apply Spec.bind (spec_reread sha256 hplan contents)
  intro _
  apply Spec.of_imp
  intro hreread
  apply Spec.bind (spec_missing_files sha256 package.1 contents)
  intro missing
  apply Spec.bind (spec_fill sha256 hkey hreread)
  intro _
  exact spec_verify sha256 hreread

/-! ### Whole runs -/

end

end

/-- The keys that the registry references. -/
def referenced (arguments : Arguments) : List String :=
  (arguments.inventory arguments.max_packages).items

theorem references_eq {arguments : Arguments} {items : List String}
    (h : references arguments = .ok items) : items = referenced arguments := by
  unfold references at h
  simp only at h
  split at h
  · exact absurd h (by simp)
  · split at h
    · exact absurd h (by simp)
    · rename_i hfew
      rw [← Except.ok.inj h]
      apply List.take_of_length_le
      -- few enough references were all taken
      rw [List.length_take] at hfew
      show (arguments.inventory arguments.max_packages).items.length ≤ _
      omega

theorem canonical_key_eq {key key' : String} (h : canonical_key key = .ok key') : key' = key := by
  unfold canonical_key at h
  split at h
  · exact absurd h (by simp)
  · split at h
    · exact absurd h (by simp)
    · exact (Except.ok.inj h).symm

/-- Every referenced key is migrated, and no other. -/
theorem mem_registry_keys {arguments : Arguments} {registered : List String}
    (h : registry_keys arguments = .ok registered) (key : String) :
    key ∈ registered ↔ key ∈ referenced arguments := by
  unfold registry_keys at h
  split at h
  · exact absurd h (by simp)
  · split at h
    · exact absurd h (by simp)
    · obtain ⟨items, hitems, hrest⟩ := Fallible.bind_ok h
      obtain ⟨keys, hkeys, hlast⟩ := Fallible.bind_ok hrest
      have hsame : keys = items.map id :=
        Fallible.eq_map_of_mapM_ok hkeys (fun key _ key' hkey => canonical_key_eq hkey)
      rw [← Except.ok.inj hlast, List.mem_insertionSort, List.mem_dedup, hsame, List.map_id,
        references_eq hitems]

variable (store) in
/-- What may be said of any run of `migrate` and of what it leaves: `pre` is
    what it has done up to its first write, `post` the rest. -/
structure Safe (arguments : Arguments) (disk : Disk) (bucket : Bucket)
    (result : Except MigrationError Report) (w : World) (pre post : List Event) : Prop where
  log : w.log = pre ++ post
  /-- The preflight puts nothing. -/
  preflight : ∀ object_key body before after, Event.put object_key body before after ∉ pre
  /-- Neither does a dry run. -/
  dry : arguments.apply = false → post = []
  /-- Nothing is done until every package has passed the preflight. -/
  passed : post ≠ [] → ∀ key ∈ referenced arguments, ∀ filename ∈ filenames,
    Passed env store disk key filename pre
  /-- A put is of a planned object, and leaves what is there as it is. -/
  puts : ∀ object_key body before after, Event.put object_key body before after ∈ post →
    PlannedObject env sha256 store disk (referenced arguments) pre object_key body ∧
      (after = before ∨
        (before.get object_key = none ∧ after = before.insert object_key body))
  /-- With no other writer, the bucket has changed by these puts only. -/
  alone : Alone env → ∀ k, w.bucket.get k = bucket.get k ∨ (bucket.get k = none ∧
    ∃ body before after, Event.put k body before after ∈ post ∧ w.bucket.get k = some body)
  /-- A run that returns has verified every package. -/
  verified : (∃ report, result = .ok report) → arguments.apply = true →
    ∀ key ∈ referenced arguments, Verified env sha256 store disk pre key w.log

variable {env sha256} in
/-- A preflight that returned knows all packages. -/
theorem Cleared.package {disk : Disk} {arguments : Arguments} {keys : List String}
    {snapshots : List PackagePlan} {w : World}
    (h : Cleared env sha256 store disk keys arguments snapshots w) :
    (∀ key ∈ referenced arguments, ∃ package ∈ snapshots,
      PlanOf env sha256 disk key package w) ∧
    ∀ package ∈ snapshots, package.1 ∈ referenced arguments ∧
      PlanOf env sha256 disk package.1 package w := by
  obtain ⟨registered, hregistered, hplanned⟩ := h.planned
  constructor
  · intro key hkey
    exact Fallible.exists_right hplanned ((mem_registry_keys hregistered key).mpr hkey)
  · intro package hpackage
    obtain ⟨key, hkey, hplan⟩ := Fallible.exists_left hplanned hpackage
    rw [hplan.1]
    exact ⟨(mem_registry_keys hregistered key).mp hkey, hplan⟩

variable {env sha256} in
/-- Every file of every referenced key is through the preflight. -/
theorem Cleared.all {disk : Disk} {arguments : Arguments} {keys : List String}
    {snapshots : List PackagePlan} {w : World}
    (h : Cleared env sha256 store disk keys arguments snapshots w) {key filename : String}
    (hkey : key ∈ referenced arguments) (hfilename : filename ∈ filenames) :
    Through env store disk keys key filename w := by
  obtain ⟨package, hpackage, hplan⟩ := h.package.1 key hkey
  obtain ⟨file, hfile, hname, _⟩ := Fallible.exists_right hplan.2 hfilename
  rw [← hplan.1, ← hname]
  exact h.through package hpackage file hfile

variable {env sha256} in
/-- A snapshot of the plan is that of bytes that were read. -/
theorem PlanOf.lookup {disk : Disk} {key : String} {package : PackagePlan} {w : World}
    (h : PlanOf env sha256 disk key package w) {filename : String} {s : ObjectSnapshot}
    (hs : package.2.lookup filename = some s) :
    ∃ planned, HasRead env disk key filename planned w.log ∧ s = snapshot sha256 planned := by
  obtain ⟨l, l', hsplit, _⟩ := List.lookup_eq_some_iff.mp hs
  have hmem : (filename, s) ∈ package.2 := by
    rw [hsplit]
    simp
  obtain ⟨name, _, hname, planned, hread, hsnapshot⟩ := Fallible.exists_left h.2 hmem
  obtain rfl : filename = name := hname
  exact ⟨planned, hread, hsnapshot⟩

variable {env sha256} in
theorem PlanOf.read {disk : Disk} {key : String} {package : PackagePlan} {w : World}
    (h : PlanOf env sha256 disk key package w) (filename : String) (s : ObjectSnapshot)
    (hs : package.2.lookup filename = some s) :
    ∃ planned, Event.read key filename planned ∈ w.log ∧ s = snapshot sha256 planned := by
  obtain ⟨planned, hread, hsnapshot⟩ := h.lookup hs
  exact ⟨planned, hread.read, hsnapshot⟩

/-- A stretch that may not put anything, with no other writer. -/
theorem Stretch.kept {disk : Disk} {keys : List String} {w w' : World} {new : List Event}
    (h : Stretch env store disk keys (fun _ _ => False) w w' new) (halone : Alone env)
    (k : String) : w'.bucket.get k = w.bucket.get k := by
  rcases h.alone halone k with hsame | ⟨_, body, before, after, hput, _⟩
  · exact hsame
  · exact (h.puts k body before after hput).1.elim

variable {env sha256} in
/-- **The copying** after a preflight that returned. -/
theorem spec_copy_packages {disk : Disk} {arguments : Arguments} {snapshots : List PackagePlan}
    {w₁ : World}
    (h : Cleared env sha256 store disk (referenced arguments) arguments snapshots w₁) :
    Spec (Advance env store disk (referenced arguments)
        (PlannedObject env sha256 store disk (referenced arguments) w₁.log))
      (Based env disk) (snapshots.forM (copy_package env sha256 store))
      (fun _ w => Based env disk w ∧ ∀ package ∈ snapshots,
        Verified env sha256 store disk w₁.log package.1 w.log) := by
  have hstable : ∀ package : PackagePlan, Stable (Advance env store disk (referenced arguments)
      (PlannedObject env sha256 store disk (referenced arguments) w₁.log))
      (fun w => Verified env sha256 store disk w₁.log package.1 w.log) :=
    fun package => verified_stable sha256 package.1
  apply Spec.forM based_stable hstable
  intro package hpackage
  obtain ⟨hkey, hplan⟩ := h.package.2 package hpackage
  exact spec_copy_package sha256 hkey hplan.read

/-- A run that ends with its preflight. -/
theorem safe_of_preflight {arguments : Arguments} {disk : Disk} {bucket : Bucket}
    {report : Report} {result : Except MigrationError Report} {w : World} {pre : List Event}
    (h : Stretch env store disk (referenced arguments) (fun _ _ => False)
      (.begin disk bucket report) w pre)
    (hends : (∃ e, result = .error e) ∨ arguments.apply = false) :
    Safe env sha256 store arguments disk bucket result w pre [] where
  log := by rw [h.log, List.append_nil]; rfl
  preflight := fun k body before after hput => (h.puts k body before after hput).1
  dry := fun _ => rfl
  passed := fun hne => absurd rfl hne
  puts := by simp
  alone := fun halone k => Or.inl (h.kept env halone k)
  verified := by
    rintro ⟨report', hok⟩ happly
    rcases hends with ⟨e, he⟩ | hdry
    · rw [hok] at he
      exact absurd he (by simp)
    · rw [happly] at hdry
      exact absurd hdry (by simp)

/-- A run that goes on to copy. -/
theorem safe_of_copying {arguments : Arguments} {disk : Disk} {bucket : Bucket} {report : Report}
    {result : Except MigrationError Report} {w₁ w : World} {snapshots : List PackagePlan}
    {pre post : List Event}
    (hpre : Stretch env store disk (referenced arguments) (fun _ _ => False)
      (.begin disk bucket report) w₁ pre)
    (hcleared : Cleared env sha256 store disk (referenced arguments) arguments snapshots w₁)
    (hpost : Stretch env store disk (referenced arguments)
      (PlannedObject env sha256 store disk (referenced arguments) w₁.log) w₁ w post)
    (happly : arguments.apply = true)
    (hverified : (∃ report, result = .ok report) → ∀ package ∈ snapshots,
      Verified env sha256 store disk w₁.log package.1 w.log) :
    Safe env sha256 store arguments disk bucket result w pre post := by
  have hlog : w₁.log = pre := hpre.log
  rw [hlog] at hpost hverified
  constructor
  · rw [hpost.log, hlog]
  · exact fun k body before after hput => (hpre.puts k body before after hput).1
  · intro hdry
    rw [happly] at hdry
    exact absurd hdry (by simp)
  · intro _ key hkey filename hfilename
    rw [← hlog]
    exact (hcleared.all hkey hfilename).1
  · exact hpost.puts
  · intro halone k
    have hbefore : w₁.bucket.get k = bucket.get k := hpre.kept env halone k
    rw [← hbefore]
    exact hpost.alone halone k
  · intro hok _ key hkey
    obtain ⟨package, hpackage, hplan⟩ := hcleared.package.1 key hkey
    rw [← hplan.1]
    exact hverified hok package hpackage

variable (store) in
/-- **The migration never overwrites.** -/
theorem migrate_safe (arguments : Arguments) (disk : Disk) (bucket : Bucket) (report : Report) :
    ∃ pre post, Safe env sha256 store arguments disk bucket
      (start (migrate env sha256 store arguments) (.begin disk bucket report)).1
      (start (migrate env sha256 store arguments) (.begin disk bucket report)).2 pre post := by
  have hregistered : ∀ registered, registry_keys arguments = .ok registered →
      ∀ key ∈ registered, key ∈ referenced arguments :=
    fun registered h key hkey => (mem_registry_keys h key).mp hkey
  have hpreflight : Spec (Advance env store disk (referenced arguments) (fun _ _ => False))
      (Based env disk) (preflight env sha256 store arguments) (fun snapshots w =>
        Cleared env sha256 store disk (referenced arguments) arguments snapshots w ∧
          Based env disk w) := spec_preflight sha256 hregistered
  obtain ⟨⟨pre, hpre⟩, hcleared⟩ := hpreflight (World.begin disk bucket report) (fun _ => rfl)
  cases hrun : start (preflight env sha256 store arguments) (World.begin disk bucket report) with
  | mk r w₁ =>
    rw [hrun] at hpre
    cases r with
    | error e =>
      refine ⟨pre, [], ?_⟩
      unfold migrate
      rw [start_bind_error hrun]
      exact safe_of_preflight env sha256 hpre (Or.inl ⟨e, rfl⟩)
    | ok snapshots =>
      obtain ⟨hcleared, hbased⟩ := hcleared snapshots w₁ hrun
      unfold migrate
      rw [start_bind_ok hrun]
      cases happly : arguments.apply with
      | false =>
        exact ⟨pre, [], safe_of_preflight env sha256 hpre (Or.inr happly)⟩
      | true =>
        obtain ⟨⟨post, hpost⟩, hcopied⟩ := spec_copy_packages hcleared w₁ hbased
        -- the copying is safe however it ends
        rw [if_pos rfl]
        cases hcopy : start (snapshots.forM (copy_package env sha256 store)) w₁ with
        | mk r w =>
          rw [hcopy] at hpost
          refine ⟨pre, post, ?_⟩
          cases r with
          | error e =>
            rw [start_bind_error hcopy]
            exact safe_of_copying env sha256 hpre hcleared hpost happly (by simp)
          | ok u =>
            rw [start_bind_ok hcopy]
            exact safe_of_copying env sha256 hpre hcleared hpost happly
              (fun _ => (hcopied u w hcopy).2)

end Migration

end Storage
