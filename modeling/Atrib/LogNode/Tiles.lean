import Atrib.LogNode.Tree

/-!
# Tile and entry-bundle responses

The tile routes of `services/log-node/src/server.ts`: how a path is read, and
what `handleTile` and `handleEntryBundle` answer. The items of a tile above
level 0 are computed from all leaf hashes on every request, pairing
neighbours and carrying an odd last item up as it is.
-/

namespace Atrib.LogNode

open Atrib (Bytes Hash MerkleTree)

/-- Hashes per tile. -/
def TILE_SIZE : ℕ := 256

/-- What `parseTileAddress` returns: a width is below a full tile's and makes
the address canonical. -/
structure TileAddress where
  index : ℕ
  width : Option ℕ
  canonical : Bool
  index_safe : index ≤ MAX_SAFE_INTEGER
  width_lt : ∀ w ∈ width, 1 ≤ w ∧ w < TILE_SIZE
  width_canonical : width.isSome → canonical = true

/-- A tile path that parsed. -/
inductive TilePath
  | entries (address : TileAddress)
  | hashes (level : ℕ) (address : TileAddress)

/-! ## Reading a path -/

def allDigits (text : List Char) : Bool := text.all Char.isDigit

def decimal (digits : List Char) : ℕ :=
  digits.foldl (fun n c => 10 * n + (c.toNat - '0'.toNat)) 0

/-- `/^(0|[1-9]\d*)$/` -/
def canonicalDecimal (text : List Char) : Bool :=
  match text with
  | [] => false
  | ['0'] => true
  | first :: _ => first ≠ '0' && allDigits text

def parseCanonicalDecimal (value : List Char) : Option ℕ :=
  if canonicalDecimal value && decimal value ≤ MAX_SAFE_INTEGER then some (decimal value) else none

/-- `/^(.+?)(?:\.p\/([1-9]\d*))?$/`: the suffix can only be the last run of
digits, with `.p/` before it and something before that. -/
def splitWidth (value : List Char) : List Char × Option (List Char) :=
  let digits := (value.reverse.takeWhile Char.isDigit).reverse
  let rest := value.take (value.length - digits.length)
  if canonicalDecimal digits && digits ≠ ['0'] && ['.', 'p', '/'].isSuffixOf rest
      && 3 < rest.length then
    (rest.take (rest.length - 3), some digits)
  else (value, none)

/-- `/^x\d{3}(?:\/x\d{3})*\/\d{3}$/`, and its digits. -/
def segmentedIndex (text : List Char) : Option (List Char) :=
  let groups := text.splitOn '/'
  let isGroup := fun group : List Char => group.length = 4 && group.head? = some 'x' &&
    allDigits group.tail
  match groups.getLast? with
  | some last =>
      if 2 ≤ groups.length && last.length = 3 && allDigits last && groups.dropLast.all isGroup then
        some ((groups.dropLast.map List.tail).flatten ++ last)
      else none
  | none => none

/-- The digits of an encoded index and whether its form is the canonical one. -/
def indexText (encodedIndex : List Char) : Option (List Char × Bool) :=
  if encodedIndex.length = 3 && allDigits encodedIndex then some (encodedIndex, true)
  else
    match segmentedIndex encodedIndex with
    | some digits => some (digits, true)
    | none => if canonicalDecimal encodedIndex then some (encodedIndex, false) else none

def parseTileAddress (value : List Char) : Option TileAddress :=
  let (encodedIndex, widthText) := splitWidth value
  match indexText encodedIndex with
  | none => none
  | some (text, canonical) =>
      if hi : decimal text ≤ MAX_SAFE_INTEGER then
        match widthText with
        | none => some ⟨decimal text, none, canonical, hi, by simp, by simp⟩
        | some digits =>
            if hw : 1 ≤ decimal digits ∧ decimal digits < TILE_SIZE then
              some ⟨decimal text, some (decimal digits), true, hi, by simpa using hw, by simp⟩
            else none
      else none

/-- The two tile routes in the order they are tried; nothing for a URL of
neither kind. -/
def parseTilePath (url : List Char) : Option (Except String TilePath) :=
  match url.dropPrefix? "/v1/tile/entries/".toList with
  | some (value :: values) =>
      match parseTileAddress (value :: values) with
      | none => some (.error "malformed entry bundle path")
      | some address => some (.ok (.entries address))
  | _ =>
      match url.dropPrefix? "/v1/tile/".toList with
      | none => none
      | some rest =>
          let level := rest.takeWhile (· ≠ '/')
          match parseCanonicalDecimal level, parseTileAddress (rest.drop (level.length + 1)) with
          | some level, some address => some (.ok (.hashes level address))
          | _, _ => some (.error "malformed tile path")

/-! ## Answering it -/

inductive TileResponse
  | json (status : ℕ) (error : String)
  | binary (data : Bytes) (cacheControl : String)
deriving DecidableEq

def immutableCache : String := "public, max-age=31536000, immutable"

def sendBinary (data : Bytes) (immutable : Bool) : TileResponse :=
  .binary data (if immutable then immutableCache else "public, max-age=60")

def resolveServedTileWidth (available : ℕ) (requestedWidth : Option ℕ) (canonical : Bool) :
    Except TileResponse ℕ :=
  match requestedWidth with
  | some width =>
      if width > available then .error (.json 404 "partial tile width is not available")
      else .ok width
  | none =>
      if canonical = true ∧ available < TILE_SIZE then
        .error (.json 404 "partial tile requires an explicit width")
      else .ok available

/-- `Math.ceil(leafCount / Math.pow(2, level))`; the power is `Infinity` from
level 1024 on. -/
def nodesAtLevel (leafCount level : ℕ) : ℕ :=
  if level < 1024 then (leafCount + 2 ^ level - 1) / 2 ^ level else 0

variable (H : Hash)

/-- One level up. -/
def nextLevel : List Bytes → List Bytes
  | [] => []
  | [last] => [last]
  | left :: right :: rest => H.nodeHash left right :: nextLevel rest

def handleTile (tree : MerkleTree) (level : ℕ) (address : TileAddress) :
    Except String TileResponse :=
  if tree.size = 0 then .ok (.json 404 "no entries yet")
  else if level = 0 then
    let start := address.index * TILE_SIZE
    let stop := min (start + TILE_SIZE) tree.size
    if start ≥ tree.size then .ok (.json 404 "tile index out of range")
    else
      match resolveServedTileWidth (stop - start) address.width address.canonical with
      | .error response => .ok response
      | .ok servedWidth => do
          let hashes ← (List.range' start servedWidth).mapM fun i => tree.leafHash (i : ℕ)
          return sendBinary hashes.flatten (servedWidth = TILE_SIZE || address.width.isSome)
  else
    let start := address.index * TILE_SIZE
    let stop := min (start + TILE_SIZE) (nodesAtLevel tree.size level)
    if start ≥ nodesAtLevel tree.size level then .ok (.json 404 "tile index out of range")
    else do
      let leaves ← (List.range' 0 tree.size).mapM fun i => tree.leafHash (i : ℕ)
      let currentLevel := (nextLevel H)^[level] leaves
      match resolveServedTileWidth (stop - start) address.width address.canonical with
      | .error response => return response
      | .ok servedWidth =>
          let hashes := (currentLevel.drop start).take servedWidth
          return sendBinary hashes.flatten (servedWidth = TILE_SIZE || address.width.isSome)

/-- An entry behind its big-endian 16-bit length. -/
def lengthPrefixed (entry : Bytes) : Bytes :=
  UInt8.ofNat (entry.length / 256) :: UInt8.ofNat entry.length :: entry

def handleEntryBundle (tree : MerkleTree) (address : TileAddress) : Except String TileResponse :=
  if tree.size = 0 then .ok (.json 404 "no entries yet")
  else
    let start := address.index * TILE_SIZE
    let stop := min (start + TILE_SIZE) tree.size
    if start ≥ tree.size then .ok (.json 404 "entry bundle index out of range")
    else
      match resolveServedTileWidth (stop - start) address.width address.canonical with
      | .error response => .ok response
      | .ok servedWidth => do
          let chunks ← (List.range' start servedWidth).mapM fun i => do
            let entry ← tree.entryBytes (i : ℕ)
            return lengthPrefixed entry
          return sendBinary chunks.flatten (servedWidth = TILE_SIZE || address.width.isSome)

def respond (tree : MerkleTree) : TilePath → Except String TileResponse
  | .entries address => handleEntryBundle tree address
  | .hashes level address => handleTile H tree level address

/-- The answer to a `GET` of a tile URL. -/
def handleTileRequest (tree : MerkleTree) (url : List Char) :
    Option (Except String TileResponse) :=
  match parseTilePath url with
  | none => none
  | some (.error message) => some (.ok (.json 400 message))
  | some (.ok path) => some (respond H tree path)

end Atrib.LogNode
