import Integratio.Applicator.Http
import Mathlib.Data.List.Infix

/-!
# The texts of requests

The requests that `httpparser` reads, as texts: a method and a URI (`Target`), a version and header
fields, which may be folded over several lines (`Head`), and a content of an announced length or in
chunks (`ChunkedBody`). `RequestText` is the text of a complete request, up to its last byte;
`RefusedText` is a text up to the byte that completes a length for which the parser cannot reserve.
Both are about the bytes alone. What the parser is lax about is lax here: the byte behind the blank
line's `\r` is not looked at when there is content, and the extensions and trailers are skipped.
-/

namespace Integratio

open HttpRequestParser

/-! ## The head -/

/-- A method and a URI. -/
structure Target where
  method : Bytes
  uri : Bytes
  method_ne : method ≠ []
  method_token : ∀ b ∈ method, isToken b
  uri_ne : uri ≠ []
  uri_plain : ∀ b ∈ uri, isControl b = false
  uri_blank : ∀ b ∈ uri.tail, b ≠ chr ' '

def Target.text (t : Target) : Bytes := t.method ++ utf8 " " ++ t.uri

def Target.request (t : Target) : Request := { method := t.method, uri := t.uri }

/-- A line `Name: value`. -/
structure HeaderLine where
  name : Bytes
  value : Bytes
  name_ne : name ≠ []
  name_token : ∀ b ∈ name, isToken b
  value_ok : ∀ b ∈ value, isControl b = false

def HeaderLine.bytes (h : HeaderLine) : Bytes := h.name ++ utf8 ": " ++ h.value ++ CRLF

def HeaderLine.item (h : HeaderLine) : HeaderItem := ⟨h.name, h.value⟩

/-- A line that goes on with the value of the header before it. -/
structure Fold where
  blanks : Bytes
  value : Bytes
  blanks_ne : blanks ≠ []
  blanks_ok : ∀ b ∈ blanks, b = chr ' ' ∨ b = chr '\t'
  value_ok : ∀ b ∈ value, isControl b = false
  value_head : value.head? ≠ some (chr ' ')

/-- A header with the lines that it is folded over. -/
structure HeaderField extends HeaderLine where
  folds : List Fold := []

namespace HeaderField

/-- The field without its last line's end. -/
def text (f : HeaderField) : Bytes :=
  f.name ++ utf8 ": " ++ f.value ++ f.folds.flatMap fun x => CRLF ++ x.blanks ++ x.value

def bytes (f : HeaderField) : Bytes := f.text ++ CRLF

/-- What is read of the field, at its end. -/
def item (f : HeaderField) : HeaderItem :=
  ⟨f.name, f.value ++ f.folds.flatMap Fold.value⟩

/-- What is read of the field, at the end of each of its lines. -/
def items (f : HeaderField) : List HeaderItem :=
  f.folds.inits.map fun xs => ⟨f.name, f.value ++ xs.flatMap Fold.value⟩

end HeaderField

/-- The number of a version, as an `int`. -/
def versionNumber : Bytes → Int
  | [] => 0
  | d :: ds => ds.foldl (fun n d => int32 (n * 10 + d.toNat - 48)) (d.toNat - 48)

/-- A request line with a version, and header fields. -/
structure Head extends Target where
  major : Bytes
  minor : Bytes
  headers : List HeaderField
  major_ne : major ≠ []
  major_digits : ∀ b ∈ major, isDigit b
  minor_ne : minor ≠ []
  minor_digits : ∀ b ∈ minor, isDigit b

/-! ## What the headers announce -/

/-- The method may have content. -/
def posts (m : Bytes) : Prop := m = utf8 "POST" ∨ m = utf8 "PUT"

instance (m : Bytes) : Decidable (posts m) := inferInstanceAs (Decidable (_ ∨ _))

namespace HeaderItem

def isContentLength (h : HeaderItem) : Bool := strcasecmp h.name (utf8 "Content-Length")

def isChunked (h : HeaderItem) : Bool :=
  !h.isContentLength && strcasecmp h.name (utf8 "Transfer-Encoding") &&
    strcasecmp h.value (utf8 "chunked")

/-- A `Content-Length`, as a `size_t`. -/
def size (h : HeaderItem) : BitVec 64 := BitVec.ofInt 64 (atoi h.value)

/-- What reserving the announced length throws. -/
def refused (memory : Nat) (h : HeaderItem) : Option Throw :=
  if h.isContentLength then refusal memory h.size.toNat else none

end HeaderItem

/-- The length of the content, and whether it is in chunks. -/
def announced (hs : List HeaderItem) : BitVec 64 × Bool :=
  (((hs.reverse.find? (·.isContentLength)).map (·.size)).getD 0, hs.any (·.isChunked))

/-- Only a POST or a PUT announces content. -/
def announcedFor (m : Bytes) (hs : List HeaderItem) : BitVec 64 × Bool :=
  if posts m then announced hs else (0, false)

namespace Head

/-- The text up to the blank line. -/
def bytes (h : Head) : Bytes :=
  h.text ++ utf8 " HTTP/" ++ h.major ++ utf8 "." ++ h.minor ++ CRLF ++
    h.headers.flatMap HeaderField.bytes

/-- The request that the head is read as. -/
def request (h : Head) : Request :=
  { h.toTarget.request with
    versionMajor := versionNumber h.major, versionMinor := versionNumber h.minor
    headers := h.headers.map HeaderField.item }

/-- What is read of the headers, at the end of each line. -/
def items (h : Head) : List HeaderItem := h.headers.flatMap HeaderField.items

def announces (h : Head) : BitVec 64 × Bool := announcedFor h.method h.items

/-- Every announced length can be reserved. -/
def Fits (memory : Nat) (h : Head) : Prop :=
  posts h.method → ∀ i ∈ h.items, i.refused memory = none

end Head

/-! ## Content in chunks -/

/-- A byte of an extension or of a trailer's value. -/
def isSkipped (b : UInt8) : Bool := isalnum b ∨ b = chr ' '

/-- `;name` or `;name=value`. -/
structure Extension where
  name : Bytes
  value : Option Bytes
  name_ok : ∀ b ∈ name, isSkipped b
  value_ok : ∀ v ∈ value, ∀ b ∈ v, isSkipped b

def Extension.bytes (e : Extension) : Bytes :=
  utf8 ";" ++ e.name ++
    match e.value with
    | none => []
    | some v => utf8 "=" ++ v

/-- The line in front of a chunk of `n` bytes. -/
structure SizeLine (n : Nat) where
  size : Bytes
  ext : Option Extension
  size_alnum : ∀ b ∈ size, isalnum b
  size_eq : strtol size 16 = n

def SizeLine.bytes {n : Nat} (l : SizeLine n) : Bytes :=
  l.size ++ (l.ext.map Extension.bytes).getD [] ++ CRLF

structure Chunk where
  data : Bytes
  line : SizeLine data.length
  data_ne : data ≠ []

def Chunk.bytes (c : Chunk) : Bytes := c.line.bytes ++ c.data ++ CRLF

/-- A line after the last chunk. -/
structure Trailer where
  first : UInt8
  name : Bytes
  value : Bytes
  first_ok : isalpha first
  name_ok : ∀ b ∈ name, isalnum b
  value_ok : ∀ b ∈ value, isSkipped b

def Trailer.bytes (t : Trailer) : Bytes :=
  t.first :: t.name ++ utf8 ":" ++ t.value ++ CRLF

structure ChunkedBody where
  chunks : List Chunk
  last : SizeLine 0
  trailers : List Trailer

def ChunkedBody.content (b : ChunkedBody) : Bytes := b.chunks.flatMap Chunk.data

def ChunkedBody.bytes (b : ChunkedBody) : Bytes :=
  b.chunks.flatMap Chunk.bytes ++ b.last.bytes ++ b.trailers.flatMap Trailer.bytes ++ CRLF

/-! ## Complete and refused requests -/

/-- A complete request, with what it is read as. -/
inductive RequestText (memory : Nat) : Bytes → Request → Prop
  -- a request line without a version
  | short (t : Target) :
      RequestText memory (t.text ++ [chr '\r']) { t.request with versionMinor := 9 }
  | bare (h : Head) : h.Fits memory → h.announces = (0, false) →
      RequestText memory (h.bytes ++ CRLF) (setKeepAlive h.request)
  | sized (h : Head) (skipped : UInt8) (content : Bytes) : h.Fits memory → h.announces.2 = false →
      content ≠ [] → content.length = h.announces.1.toNat →
      RequestText memory (h.bytes ++ chr '\r' :: skipped :: content)
        { setKeepAlive h.request with content := content }
  | chunked (h : Head) (skipped : UInt8) (body : ChunkedBody) : h.Fits memory →
      h.announces.2 = true → refusal memory body.content.length = none →
      RequestText memory (h.bytes ++ chr '\r' :: skipped :: body.bytes)
        { setKeepAlive h.request with content := body.content }

/-- A request up to a length that cannot be reserved, with what is thrown. -/
inductive RefusedText (memory : Nat) : Bytes → Throw → Prop
  | length (h : Head) (f : HeaderField) (e : Throw) : h.Fits memory → posts h.method →
      (∀ i ∈ f.items.dropLast, i.refused memory = none) → f.item.refused memory = some e →
      RefusedText memory (h.bytes ++ f.text ++ [chr '\r']) e
  | chunk (h : Head) (skipped : UInt8) (chunks : List Chunk) {n : Nat} (line : SizeLine n)
      (e : Throw) : h.Fits memory → h.announces.2 = true →
      refusal memory (chunks.flatMap Chunk.data).length = none →
      refusal memory ((chunks.flatMap Chunk.data).length + n) = some e →
      RefusedText memory
        (h.bytes ++ chr '\r' :: skipped :: (chunks.flatMap Chunk.bytes ++ line.bytes)) e

end Integratio
