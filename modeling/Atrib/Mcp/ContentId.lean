import Atrib.Mcp.Refs

/-!
# The id of a tool

`packages/mcp/src/content-id.ts`. What parses URLs and what lowers the case of a
text come with the language. Of the parser `Whatwg` says what the URL standard
does: where a path begins, and that what is written of a parsed URL is parsed
into it again, also where the path ends earlier, between two of its segments.
-/

namespace Atrib.ContentId

/-- The members of `URL` that are read. -/
structure ParsedUrl where
  protocol : String
  host : String
  pathname : String
deriving DecidableEq

structure Platform where
  /-- `new URL(url)`, none where it throws -/
  parseUrl : String → Option ParsedUrl
  toLowerCase : String → String
  hash : Hash

/-- `text.endsWith('/')` -/
def endsWithSlash (text : String) : Bool := text.toList.getLast? == some '/'

/-- `text.slice(0, -1)` -/
def sliceLast (text : String) : String := String.ofList text.toList.dropLast

section

variable (P : Platform)

def normalizeServerUrl (url : String) : String :=
  if url = "" then ""
  else
    match P.parseUrl url with
    | none => P.toLowerCase url
    | some parsed =>
        let normalized := parsed.protocol ++ "//" ++ parsed.host ++ parsed.pathname
        let normalized :=
          if endsWithSlash normalized && parsed.pathname ≠ "/" then sliceLast normalized
          else normalized
        if parsed.pathname = "/" then sliceLast normalized else normalized

def computeContentId (serverUrl toolName : String) : String :=
  let normalized := normalizeServerUrl P serverUrl
  let input := normalized ++ ":" ++ toolName
  sha256Ref (P.hash.sha256 (utf8 input))

end

/-! ## URLs -/

def specialSchemes : List String := ["ftp:", "file:", "http:", "https:", "ws:", "wss:"]

/-- The URL has a special scheme or a host, so that its path is one of segments. -/
def ParsedUrl.Hierarchical (parsed : ParsedUrl) : Prop :=
  parsed.protocol ∈ specialSchemes ∨ parsed.host ≠ ""

instance (parsed : ParsedUrl) : Decidable parsed.Hierarchical :=
  inferInstanceAs (Decidable (_ ∨ _))

structure Whatwg (P : Platform) : Prop where
  empty : P.parseUrl "" = none
  rooted : ∀ {url parsed}, P.parseUrl url = some parsed → parsed.protocol ∈ specialSchemes →
    parsed.pathname ≠ ""
  slash_host : ∀ {url parsed}, P.parseUrl url = some parsed → '/' ∉ parsed.host.toList
  /-- A URL without its last segments. A special one has a path in any case. -/
  reparse : ∀ {url parsed}, P.parseUrl url = some parsed → parsed.Hierarchical →
    ∀ kept rest, parsed.pathname = kept ++ rest → (rest = "" ∨ rest.toList.head? = some '/') →
      P.parseUrl (parsed.protocol ++ "//" ++ parsed.host ++ kept) =
        some { parsed with
          pathname := if parsed.protocol ∈ specialSchemes ∧ kept = "" then "/" else kept }
  toLowerCase_idem : ∀ text, P.toLowerCase (P.toLowerCase text) = P.toLowerCase text

end Atrib.ContentId
