import BacktestVisualizer.Framework.Fallible
import BacktestVisualizer.Framework.Text
import Mathlib.Tactic

/-! # Article Pages

  `integrations/article_page.py` reads the title and the summary of a page
  whose URL nobody vouches for. Every hop of a redirect chain is checked and
  pinned to an address before it is requested.

  What the standard library does is taken from outside: how URLs, addresses
  and bytes are read, what HTML makes of a text, and what `resolve` and
  `request` answer. Both are asked once a hop, and what they answer may be
  different every time. Texts that are only logged are left out.
-/

namespace ArticlePage

def MAX_REDIRECTS : ℕ := 3
def SUMMARY_MAX_CHARS : ℕ := 2000
def TITLE_MAX_CHARS : ℕ := 300
def READ_CHUNK : ℕ := 16 * 1024

def REDIRECT_STATUSES : List ℕ := [301, 302, 303, 307, 308]

/-- `_DEFAULT_PORTS.get(scheme)`. -/
def DEFAULT_PORTS (scheme : String) : Option ℕ :=
  if scheme = "http" then some 80 else if scheme = "https" then some 443 else none

/-! ### What is raised -/

/-- Why a URL is not fetched. -/
inductive Refusal where
  | scheme (scheme : String)
  | no_host
  | port (port : ℕ)
  | does_not_resolve (host : String)
  | non_public (host : String)
  deriving DecidableEq, Repr

/-- The exceptions that are told apart. `_Refused` is a `ValueError`. -/
inductive Raised where
  | refused (why : Refusal)
  | os_error
  | http_exception
  | value_error
  | lookup_error
  | assertion_error
  | other
  deriving DecidableEq, Repr

/-! ### Addresses -/

/-- An address as `ipaddress` has it. -/
inductive Ip where
  | v4 (bits : BitVec 32)
  | v6 (bits : BitVec 128)
  deriving DecidableEq, Repr

/-- `::ffff:0:0/96`. -/
def Ip.ipv4_mapped : Ip → Option Ip
  | .v4 _ => none
  | .v6 bits => if bits >>> 32 = 0xffff#128 then some (.v4 (bits.setWidth 32)) else none

/-- `224.0.0.0/4` and `ff00::/8`. -/
def Ip.is_multicast : Ip → Bool
  | .v4 bits => bits >>> 28 = 0xe#32
  | .v6 bits => bits >>> 120 = 0xff#128

/-! ### What comes from outside -/

/-- What `urlsplit` returns. Reading the port may raise. -/
structure Parts where
  scheme : String
  hostname : Option String
  port : Except Raised (Option ℕ)
  path : String
  query : String

structure Target where
  scheme : String
  host : String
  port : ℕ
  address : String
  path : String
  deriving DecidableEq, Repr

structure Response where
  status : ℕ
  location : Option String
  content_type : String
  body : List UInt8
  deriving DecidableEq, Repr

/-- What the HTML parser calls its handlers with. -/
inductive Event where
  | starttag (tag : String) (attrs : List (String × Option String))
  | endtag (tag : String)
  | data (text : String)
  deriving DecidableEq, Repr

/-- The standard library, and what is answered at each hop. -/
structure Outside where
  urlsplit : String → Except Raised Parts
  urljoin : String → String → Except Raised String
  ip_address : String → Except Raised Ip
  is_global : Ip → Bool
  resolve : ℕ → String → ℕ → Except Raised (List String)
  request : ℕ → Target → Except Raised Response
  decode : List UInt8 → String → Except Raised String
  unescape : String → String
  /-- The events of the last of these chunks, fed one after the other. The
      parser raises on a marked section with a keyword it does not know. -/
  feed : List String → Except Raised (List Event)

section Fetching

variable (out : Outside)

/-! ### The target of a hop -/

def is_public (address : String) : Except Raised Bool := do
  let ip ← out.ip_address address
  let ip := ip.ipv4_mapped.getD ip
  .ok (out.is_global ip && !ip.is_multicast)

/-- `all(_is_public(address) for address in addresses)`. -/
def all_public : List String → Except Raised Bool
  | [] => .ok true
  | address :: addresses => do
      if ← is_public out address then all_public addresses else .ok false

/-- `resolve(host, port)`, and no address for an `OSError`. -/
def resolved (hop : ℕ) (host : String) (port : ℕ) : Except Raised (List String) :=
  match out.resolve hop host port with
  | .error .os_error => .error (.refused (.does_not_resolve host))
  | answer => answer

def target (hop : ℕ) (url : String) : Except Raised Target := do
  let parts ← out.urlsplit url
  let scheme := parts.scheme.toLower
  match DEFAULT_PORTS scheme with
  | none => .error (.refused (.scheme scheme))
  | some default_port =>
      match parts.hostname.filter (· ≠ "") with
      | none => .error (.refused .no_host)
      | some host =>
          let port ← parts.port
          -- a port of 0 counts as none
          let port := (port.filter (· ≠ 0)).getD default_port
          if port ≠ default_port then .error (.refused (.port port))
          else
            match ← resolved out hop host port with
            | [] => .error (.refused (.non_public host))
            | address :: addresses =>
                if ← all_public out (address :: addresses) then
                  let path := if parts.path = "" then "/" else parts.path
                  .ok ⟨scheme, host, port, address,
                    if parts.query = "" then path else path ++ "?" ++ parts.query⟩
                else .error (.refused (.non_public host))

/-! ### What a page says about itself -/

structure PageStory where
  title : String
  summary : String
  deriving DecidableEq, Repr

/-- `_HeadParser`. The tags that were met first come first. -/
structure HeadParser where
  tags : List (String × String) := []
  title : String := ""
  in_title : Bool := false
  done : Bool := false
  deriving DecidableEq, Repr

/-- The last value under a name, with `value or ""`. -/
def attribute_of (attrs : List (String × Option String)) (name : String) : Option String :=
  (attrs.reverse.find? (fun attr => attr.1.toLower = name)).map (fun attr => attr.2.getD "")

def HeadParser.handle (p : HeadParser) : Event → HeadParser
  | .starttag tag attrs =>
      if p.done then p
      else if tag = "body" then { p with done := true }
      else if tag = "title" then { p with in_title := true }
      else if tag = "meta" then
        let key := (((attribute_of attrs "property").filter (· ≠ "")).or
          ((attribute_of attrs "name").filter (· ≠ ""))).getD ""
        -- beyond ASCII no lower case makes one of the keys looked for
        let key := key.toLower
        let content := (attribute_of attrs "content").getD ""
        if key ≠ "" ∧ (p.tags.lookup key).isNone ∧ content ≠ "" then
          { p with tags := p.tags ++ [(key, content)] }
        else p
      else p
  | .endtag tag =>
      if tag = "title" then { p with in_title := false }
      else if tag = "head" then { p with done := true }
      else p
  | .data text => if p.in_title ∧ ¬ p.done then { p with title := p.title ++ text } else p

/-- Feed chunk after chunk until the head is over. -/
def HeadParser.run (p : HeadParser) (fed : List String) : List String → Except Raised HeadParser
  | [] => .ok p
  | chunk :: chunks => do
      let events ← out.feed (fed ++ [chunk])
      let p := events.foldl HeadParser.handle p
      if p.done then .ok p else p.run (fed ++ [chunk]) chunks

/-- `_TAG.sub(" ", ...)`. What is open holds the text since the last `<`. -/
def replace_tags : Option (List Char) → List Char → List Char
  | none, [] => []
  | some opened, [] => opened
  | none, c :: text => if c = '<' then replace_tags (some ['<']) text else c :: replace_tags none text
  | some opened, c :: text =>
      if c = '>' then ' ' :: replace_tags none text else replace_tags (some (opened ++ [c])) text

/-- `" ".join(text.split())`. -/
def join_words (text : List Char) : List Char :=
  [' '].intercalate ((text.splitOnP Text.is_space).filter (· ≠ []))

/-- `_SPACE_BEFORE_PUNCTUATION.sub(r"\1", ...)`. -/
def close_up : List Char → List Char
  | ' ' :: c :: text => if c ∈ ['.', ',', ';', ':', '!', '?'] then c :: close_up text
      else ' ' :: close_up (c :: text)
  | c :: text => c :: close_up text
  | [] => []

def clean (text : String) (limit : ℕ) : String :=
  String.ofList ((close_up (join_words (replace_tags none (out.unescape text).toList))).take limit)

def TITLE_KEYS : List String := ["og:title", "twitter:title"]
def SUMMARY_KEYS : List String := ["og:description", "twitter:description", "description"]

/-- `document[start : start + _READ_CHUNK]` for every start. -/
def chunks_of (document : String) : List String :=
  (document.toList.toChunks READ_CHUNK).map String.ofList

def parse_page_story (document : String) : Except Raised PageStory := do
  let parser ← HeadParser.run out {} [] (chunks_of document)
  let title := (TITLE_KEYS.findSome? (fun key => parser.tags.lookup key)).getD parser.title
  let summary := (SUMMARY_KEYS.findSome? (fun key => parser.tags.lookup key)).getD ""
  .ok ⟨clean out title TITLE_MAX_CHARS, clean out summary SUMMARY_MAX_CHARS⟩

/-- `text.strip(chars)`. -/
def strip_chars (chars : List Char) (text : List Char) : List Char :=
  ((text.dropWhile (· ∈ chars)).reverse.dropWhile (· ∈ chars)).reverse

def charset (content_type : String) : String :=
  let values := (content_type.toList.splitOn ';').filterMap fun part =>
    let part := Text.strip part
    let name := part.takeWhile (· ≠ '=')
    let value := part.drop (name.length + 1)
    if name = "charset".toList ∧ value ≠ [] then some value else none
  match values.head? with
  | some value => String.ofList (strip_chars ['"', '\''] value)
  | none => "utf-8"

/-! ### The hops -/

/-- A request, and the hop it is made in. -/
structure Sent where
  hop : ℕ
  target : Target
  deriving DecidableEq, Repr

/-- The text of the page; an encoding that nobody knows is read as UTF-8. -/
def document_of (response : Response) : Except Raised String :=
  match out.decode response.body (charset response.content_type) with
  | .error .lookup_error => out.decode response.body "utf-8"
  | decoded => decoded

/-- What is made of a response that is no redirect. -/
def read_story (response : Response) : Except Raised (Option PageStory) := do
  if response.status ≠ 200 ∨ response.body = [] then .ok none
  else
    let document ← document_of out response
    let story ← parse_page_story out document
    .ok (if story.title ≠ "" ∨ story.summary ≠ "" then some story else none)

/-- `response.location`, where the response is a redirect. -/
def redirected (response : Response) : Option String :=
  response.location.filter (fun location => response.status ∈ REDIRECT_STATUSES ∧ location ≠ "")

/-- The loop, with the hops that are left, and the requests it makes. -/
def follow : ℕ → ℕ → String → List Sent × Except Raised (Option PageStory)
  | 0, _, _ => ([], .ok none)
  | left + 1, hop, current =>
      match target out hop current with
      | .error e => ([], .error e)
      | .ok t =>
          match out.request hop t with
          | .error e => ([⟨hop, t⟩], .error e)
          | .ok response =>
              match redirected response with
              | none => ([⟨hop, t⟩], read_story out response)
              | some location =>
                  match out.urljoin current location with
                  | .error e => ([⟨hop, t⟩], .error e)
                  | .ok next =>
                      let rest := follow left (hop + 1) next
                      (⟨hop, t⟩ :: rest.1, rest.2)

/-- `except _Refused` and `except (OSError, HTTPException, ValueError)`. -/
def nothing_read : Except Raised (Option PageStory) → Except Raised (Option PageStory)
  | .error (.refused _) => .ok none
  | .error .os_error => .ok none
  | .error .http_exception => .ok none
  | .error .value_error => .ok none
  | result => result

/-- The requests that are made, and what is returned or raised. -/
def fetch_page_story (url : String) : List Sent × Except Raised (Option PageStory) :=
  let followed := follow out (MAX_REDIRECTS + 1) 0 url
  (followed.1, nothing_read followed.2)

end Fetching

end ArticlePage
