import BacktestVisualizer.Feeds.ArticlePage

/-! # Only Public Addresses Are Contacted

  What is requested has been checked in the same hop, whatever the resolver,
  the pages and their redirects answer. There are at most four requests. The
  caller gets a story or nothing, as long as the library raises what it is
  documented to raise and the HTML parser takes the page that is read.
-/

namespace ArticlePage

variable {out : Outside}

/-! ### What a check has seen -/

/-- An address that is reachable from everywhere, and no group. An address of
    IPv4 in the clothes of IPv6 is taken for what it is. -/
def Reachable (out : Outside) (address : String) : Prop :=
  ∃ ip, out.ip_address address = .ok ip ∧
    out.is_global (ip.ipv4_mapped.getD ip) = true ∧
    (ip.ipv4_mapped.getD ip).is_multicast = false

theorem is_public_iff {address : String} :
    is_public out address = .ok true ↔ Reachable out address := by
  unfold is_public Reachable
  cases hip : out.ip_address address with
  | error e => simp [bind, Except.bind]
  | ok ip => simp [bind, Except.bind]

theorem all_public_ok {addresses : List String} (h : all_public out addresses = .ok true) :
    ∀ address ∈ addresses, is_public out address = .ok true := by
  induction addresses with
  | nil => simp
  | cons address addresses ih =>
    rw [all_public] at h
    obtain ⟨first, hfirst, hrest⟩ := Fallible.bind_ok h
    cases first with
    | false => exact absurd hrest (by simp)
    | true =>
      intro other hother
      rcases List.mem_cons.mp hother with rfl | hmem
      · exact hfirst
      · exact ih hrest other hmem

theorem resolved_ok {hop : ℕ} {host : String} {port : ℕ} {addresses : List String}
    (h : resolved out hop host port = .ok addresses) :
    out.resolve hop host port = .ok addresses := by
  unfold resolved at h
  split at h
  · exact absurd h (by simp)
  · exact h

/-- What is known of a target before it is requested. -/
structure Guarded (out : Outside) (hop : ℕ) (t : Target) : Prop where
  scheme : t.scheme = "http" ∨ t.scheme = "https"
  port : DEFAULT_PORTS t.scheme = some t.port
  /-- It is pinned to an answer of this hop, and all of these are public. -/
  pinned : ∃ addresses, out.resolve hop t.host t.port = .ok addresses ∧
    t.address ∈ addresses ∧ ∀ address ∈ addresses, is_public out address = .ok true

theorem scheme_of_port {scheme : String} {port : ℕ} (h : DEFAULT_PORTS scheme = some port) :
    scheme = "http" ∨ scheme = "https" := by
  unfold DEFAULT_PORTS at h
  split at h
  · exact Or.inl ‹_›
  · split at h
    · exact Or.inr ‹_›
    · exact absurd h (by simp)

/-- **A target has passed the guard.** -/
theorem target_guarded {hop : ℕ} {url : String} {t : Target} (h : target out hop url = .ok t) :
    Guarded out hop t := by
  unfold target at h
  obtain ⟨parts, _, h⟩ := Fallible.bind_ok h
  simp only at h
  cases hport : DEFAULT_PORTS parts.scheme.toLower with
  | none =>
    rw [hport] at h
    exact absurd h (by simp)
  | some default_port =>
    rw [hport] at h
    simp only at h
    split at h
    · exact absurd h (by simp)
    · rename_i host _
      obtain ⟨port, _, h⟩ := Fallible.bind_ok h
      split at h
      · exact absurd h (by simp)
      · rename_i hsame
        rw [not_not] at hsame
        obtain ⟨addresses, hresolved, h⟩ := Fallible.bind_ok h
        split at h
        · exact absurd h (by simp)
        · rename_i address addresses
          obtain ⟨all, hall, h⟩ := Fallible.bind_ok h
          cases all with
          | false => exact absurd h (by simp)
          | true =>
            obtain rfl := Except.ok.inj h
            rw [hsame] at hresolved ⊢
            refine ⟨scheme_of_port hport, hport, _, resolved_ok hresolved, ?_, all_public_ok hall⟩
            exact List.mem_cons_self

/-! ### The requests of a fetch -/

/-- Every request is guarded, and made in the hop that checked it. -/
theorem follow_guarded (left hop : ℕ) (current : String) :
    ∀ sent ∈ (follow out left hop current).1, Guarded out sent.hop sent.target := by
  induction left generalizing hop current with
  | zero =>
    intro sent hsent
    exact absurd hsent (by simp [follow])
  | succ left ih =>
    intro sent hsent
    rw [follow] at hsent
    cases htarget : target out hop current with
    | error e =>
      rw [htarget] at hsent
      exact absurd hsent (by simp)
    | ok t =>
      have hfirst : Guarded out hop t := target_guarded htarget
      rw [htarget] at hsent
      simp only at hsent
      have hone : sent ∈ [(⟨hop, t⟩ : Sent)] → Guarded out sent.hop sent.target := by
        intro hmem
        rw [List.mem_singleton.mp hmem]
        exact hfirst
      split at hsent
      · exact hone hsent
      · split at hsent
        · exact hone hsent
        · split at hsent
          · exact hone hsent
          · rename_i next _
            rcases List.mem_cons.mp hsent with rfl | hrest
            · exact hfirst
            · exact ih (hop + 1) next sent hrest

/-- The requests are numbered by their hops, one a hop. -/
theorem follow_hops (left hop : ℕ) (current : String) :
    (follow out left hop current).1.map Sent.hop =
      List.range' hop (follow out left hop current).1.length := by
  induction left generalizing hop current with
  | zero => rfl
  | succ left ih =>
    rw [follow]
    split
    · rfl
    · split
      · rfl
      · split
        · rfl
        · split
          · rfl
          · rename_i next _
            simp only [List.map_cons, List.length_cons, List.range'_succ]
            rw [ih]

theorem follow_length (left hop : ℕ) (current : String) :
    (follow out left hop current).1.length ≤ left := by
  induction left generalizing hop current with
  | zero => exact le_refl 0
  | succ left ih =>
    rw [follow]
    split
    · exact Nat.zero_le _
    · split
      · simp
      · split
        · simp
        · split
          · simp
          · rename_i next _
            have hrest := ih (hop + 1) next
            simp only [List.length_cons]
            omega

/-! ### Nothing gets out -/

/-- The exceptions `fetch_page_story` answers with nothing. -/
def Raised.Caught : Raised → Prop
  | .refused _ => True
  | .os_error => True
  | .http_exception => True
  | .value_error => True
  | .lookup_error => False
  | .assertion_error => False
  | .other => False

/-- What the library is documented to raise. -/
structure Documented (out : Outside) : Prop where
  urlsplit : ∀ url e, out.urlsplit url = .error e → e = .value_error
  port : ∀ url parts e, out.urlsplit url = .ok parts → parts.port = .error e → e = .value_error
  urljoin : ∀ url location e, out.urljoin url location = .error e → e = .value_error
  ip_address : ∀ address e, out.ip_address address = .error e → e = .value_error
  resolve : ∀ hop host port e, out.resolve hop host port = .error e →
    e = .os_error ∨ e = .value_error
  request : ∀ hop t e, out.request hop t = .error e →
    e = .os_error ∨ e = .http_exception ∨ e = .value_error
  /-- An encoding that nobody knows is a `LookupError`. -/
  decode : ∀ body encoding e, out.decode body encoding = .error e →
    e = .lookup_error ∨ e = .value_error
  /-- UTF-8 is known. -/
  utf_8 : ∀ body e, out.decode body "utf-8" = .error e → e = .value_error

/-- Whatever `x` raises is caught. -/
def Contained {α : Type} (x : Except Raised α) : Prop := ∀ e, x = .error e → e.Caught

theorem Contained.ok {α : Type} (a : α) : Contained (.ok a) := by
  intro e h
  exact absurd h (by simp)

theorem Contained.refused {α : Type} (why : Refusal) :
    Contained (.error (.refused why) : Except Raised α) := by
  intro e h
  rw [← Except.error.inj h]
  trivial

/-- A chain raises what one of its steps raises. -/
theorem Contained.bind {α β : Type} {x : Except Raised α} {f : α → Except Raised β}
    (hx : Contained x) (hf : ∀ a, x = .ok a → Contained (f a)) : Contained (x >>= f) := by
  intro e h
  cases x with
  | error e' =>
    obtain rfl := Except.error.inj h
    exact hx e' rfl
  | ok a => exact hf a rfl e h

/-- What only raises `ValueError`. -/
theorem Contained.of_value_error {α : Type} {x : Except Raised α}
    (h : ∀ e, x = .error e → e = .value_error) : Contained x := by
  intro e he
  rw [h e he]
  trivial

theorem Contained.all_public (hdoc : Documented out) (addresses : List String) :
    Contained (all_public out addresses) := by
  induction addresses with
  | nil => exact Contained.ok true
  | cons address addresses ih =>
    rw [ArticlePage.all_public]
    apply Contained.bind
    · unfold is_public
      apply Contained.bind
      · exact Contained.of_value_error (hdoc.ip_address address)
      · intro ip _
        exact Contained.ok _
    · intro first _
      cases first with
      | true => exact ih
      | false => exact Contained.ok false

theorem Contained.resolved (hdoc : Documented out) (hop : ℕ) (host : String) (port : ℕ) :
    Contained (resolved out hop host port) := by
  unfold ArticlePage.resolved
  split
  · exact Contained.refused _
  · intro e he
    rcases hdoc.resolve hop host port e he with rfl | rfl
    · trivial
    · trivial

theorem Contained.target (hdoc : Documented out) (hop : ℕ) (url : String) :
    Contained (target out hop url) := by
  unfold ArticlePage.target
  apply Contained.bind (Contained.of_value_error (hdoc.urlsplit url))
  intro parts hparts
  simp only
  split
  · exact Contained.refused _
  · split
    · exact Contained.refused _
    · rename_i default_port _ _ host _
      apply Contained.bind (Contained.of_value_error (hdoc.port url parts · hparts))
      intro port _
      split
      · exact Contained.refused _
      · apply Contained.bind (Contained.resolved hdoc hop host _)
        intro addresses _
        split
        · exact Contained.refused _
        · apply Contained.bind (Contained.all_public hdoc _)
          intro all _
          cases all with
          | true => exact Contained.ok _
          | false => exact Contained.refused _

theorem Contained.document_of (hdoc : Documented out) (response : Response) :
    Contained (document_of out response) := by
  unfold ArticlePage.document_of
  split
  · exact Contained.of_value_error (hdoc.utf_8 response.body)
  · -- a `LookupError` went the other way
    rename_i hother
    intro e he
    rcases hdoc.decode _ _ e he with rfl | rfl
    · exact absurd he hother
    · trivial

/-- A parser that never raises takes every page. -/
theorem Contained.run (hfeed : ∀ fed, Contained (out.feed fed)) (chunks : List String) :
    ∀ (p : HeadParser) (fed : List String), Contained (p.run out fed chunks) := by
  induction chunks with
  | nil => exact fun p _ => Contained.ok p
  | cons chunk chunks ih =>
    intro p fed
    rw [HeadParser.run]
    apply Contained.bind (hfeed _)
    intro events _
    simp only
    split
    · exact Contained.ok _
    · exact ih _ _

theorem Contained.parse_page_story (hfeed : ∀ fed, Contained (out.feed fed)) (document : String) :
    Contained (parse_page_story out document) :=
  Contained.bind (Contained.run hfeed _ _ _) fun _ _ => Contained.ok _

/-- The page of this response is read as `document`. -/
def ReadAs (out : Outside) (response : Response) (document : String) : Prop :=
  response.status = 200 ∧ response.body ≠ [] ∧ document_of out response = .ok document

/-- Reading a response is contained exactly when parsing its page is. -/
theorem contained_read_story_iff (hdoc : Documented out) (response : Response) :
    Contained (read_story out response) ↔
      ∀ document, ReadAs out response document → Contained (parse_page_story out document) := by
  unfold read_story
  split
  · rename_i hempty
    refine ⟨fun _ document hread => ?_, fun _ => Contained.ok none⟩
    rcases hempty with hstatus | hbody
    · exact absurd hread.1 hstatus
    · exact absurd hbody hread.2.1
  · rename_i hpage
    simp only [not_or, not_not] at hpage
    constructor
    · intro h document hread e he
      exact h e (by rw [hread.2.2]; simp [he, bind, Except.bind])
    · intro h
      apply Contained.bind (Contained.document_of hdoc response)
      intro document hdocument
      apply Contained.bind (h document ⟨hpage.1, hpage.2, hdocument⟩)
      exact fun story _ => Contained.ok _

/-- The response at the end of the redirects, met with `left` hops left. -/
inductive Reaches (out : Outside) : ℕ → ℕ → String → Response → Prop where
  | here {left hop : ℕ} {current : String} {t : Target} {response : Response} :
      target out hop current = .ok t → out.request hop t = .ok response →
      redirected response = none → Reaches out (left + 1) hop current response
  | next {left hop : ℕ} {current location next : String} {t : Target}
      {response last : Response} :
      target out hop current = .ok t → out.request hop t = .ok response →
      redirected response = some location → out.urljoin current location = .ok next →
      Reaches out left (hop + 1) next last → Reaches out (left + 1) hop current last

/-- The loop is contained exactly when reading the last response is. -/
theorem contained_follow_iff (hdoc : Documented out) (left hop : ℕ) (current : String) :
    Contained (follow out left hop current).2 ↔
      ∀ response, Reaches out left hop current response → Contained (read_story out response) := by
  induction left generalizing hop current with
  | zero =>
    refine ⟨fun _ _ hreach => ?_, fun _ => Contained.ok none⟩
    cases hreach
  | succ left ih =>
    rw [follow]
    cases htarget : target out hop current with
    | error e =>
      refine ⟨fun _ _ hreach => ?_, fun _ e' he' => ?_⟩
      · cases hreach <;> simp_all
      · rw [← Except.error.inj he']
        exact Contained.target hdoc hop current e htarget
    | ok t =>
      simp only
      cases hrequest : out.request hop t with
      | error e =>
        refine ⟨fun _ _ hreach => ?_, fun _ e' he' => ?_⟩
        · cases hreach <;> simp_all
        · rw [← Except.error.inj he']
          rcases hdoc.request hop t e hrequest with rfl | rfl | rfl
          · trivial
          · trivial
          · trivial
      | ok response =>
        simp only
        cases hredirect : redirected response with
        | none =>
          refine ⟨fun h last hreach => ?_, fun h => h _ (.here htarget hrequest hredirect)⟩
          cases hreach <;> simp_all
        | some location =>
          simp only
          cases hjoin : out.urljoin current location with
          | error e =>
            refine ⟨fun _ _ hreach => ?_, fun _ e' he' => ?_⟩
            · cases hreach <;> simp_all
            · rw [← Except.error.inj he', hdoc.urljoin current location e hjoin]
              trivial
          | ok next =>
            simp only
            rw [ih (hop + 1) next]
            refine ⟨fun h last hreach => ?_,
              fun h last hrest => h last (.next htarget hrequest hredirect hjoin hrest)⟩
            cases hreach with
            | here htarget' hrequest' hnone => simp_all
            | next htarget' hrequest' hsome hjoin' hrest =>
              obtain rfl := Except.ok.inj (htarget.symm.trans htarget')
              obtain rfl := Except.ok.inj (hrequest.symm.trans hrequest')
              obtain rfl := Option.some.inj (hredirect.symm.trans hsome)
              obtain rfl := Except.ok.inj (hjoin.symm.trans hjoin')
              exact h last hrest

/-- What is caught becomes nothing, and nothing else does. -/
theorem nothing_read_ok_iff {result : Except Raised (Option PageStory)} :
    (∃ story, nothing_read result = .ok story) ↔ Contained result := by
  cases result with
  | ok story => exact ⟨fun _ => Contained.ok story, fun _ => ⟨story, rfl⟩⟩
  | error e => cases e <;> simp [nothing_read, Contained, Raised.Caught]

/-! ### The fetch -/

/-- A public page redirects to a host that resolves to a private address. -/
def rebinding : Outside where
  urlsplit url := .ok ⟨"http", some url, .ok none, "", ""⟩
  urljoin _ location := .ok location
  ip_address address := .ok (.v4 (if address = "10.0.0.1" then 0x0a000001 else 0x5db8d822))
  is_global ip := ip ≠ .v4 0x0a000001
  resolve hop _ _ := .ok [if hop = 0 then "93.184.216.34" else "10.0.0.1"]
  request _ _ := .ok ⟨302, some "inside", "text/html", []⟩
  decode _ _ := .ok ""
  unescape text := text
  feed _ := .ok []

def marked_section_page : String := "<head><![foo[x]]></head>"

/-- A public page with a marked section in its head. -/
def marked_section : Outside where
  urlsplit url := .ok ⟨"http", some url, .ok none, "", ""⟩
  urljoin _ location := .ok location
  ip_address _ := .ok (.v4 0x5db8d822)
  is_global _ := true
  resolve _ _ _ := .ok ["93.184.216.34"]
  request _ _ := .ok ⟨200, none, "text/html", [60]⟩
  decode _ _ := .ok marked_section_page
  unescape text := text
  feed fed := if fed = [marked_section_page] then .error .assertion_error else .ok []

end ArticlePage
