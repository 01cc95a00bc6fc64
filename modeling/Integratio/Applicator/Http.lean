import Integratio.Applicator.RequestParser
import Mathlib.Logic.Function.Basic

/-!
# The HTTP applicator (`HTTPApplicator`)

`addResource` stores a response, `getResponse` finds the one of the requested URI; `trim` is that of
`common.cpp`. The applicator's `unordered_map` is a function from its keys. `getResponse` reads the
request as a C string, so up to its first `NUL`; `memory` is what the allocator can give for the
request's content.

* `HTTPApplicator.addAll_resources`: what is stored is the last response added for each resource.
* `trim_append`: `trim` takes the blanks off both ends and leaves what is between them.
-/

namespace Integratio

structure ContentConf where
  resource : Bytes
  httpStatus : Bytes
  headers : Bytes
  body : Bytes
  deriving DecidableEq, Repr

/-- What `c_str` and `strlen` leave of a string. -/
def cStr (s : Bytes) : Bytes := s.takeWhile (· ≠ 0)

/-- The decimal digits of a number. -/
def decimal (n : Nat) : Bytes := (Nat.toDigits 10 n).map chr

/-- `to_string` of an `int`. -/
def to_string (n : Int) : Bytes :=
  if n < 0 then chr '-' :: decimal n.natAbs else decimal n.natAbs

def CRLF : Bytes := [chr '\r', chr '\n']

/-! ## `trim` -/

/-- `find_first_not_of`; `none` is `npos`. -/
def findFirstNotOf (str whitespace : Bytes) : Option Nat := str.findIdx? (· ∉ whitespace)

/-- `find_last_not_of`; `none` is `npos`. -/
def findLastNotOf (str whitespace : Bytes) : Option Nat :=
  (str.reverse.findIdx? (· ∉ whitespace)).map (str.length - 1 - ·)

def trim (str whitespace : Bytes) : Bytes :=
  match findFirstNotOf str whitespace, findLastNotOf str whitespace with
  | some strBegin, some strEnd =>
    let strRange := strEnd - strBegin + 1
    (str.drop strBegin).take strRange
  -- no content
  | _, _ => []

/-! ## The applicator -/

/-- The string that `addResource` stores. -/
def ContentConf.complete (c : ContentConf) : Bytes :=
  let bodySize := int32 c.body.length
  let headers := trim c.headers CRLF
  let headers := headers ++ utf8 "\r\nContent-length: "
  let headers := headers ++ to_string bodySize
  let headers := headers ++ utf8 "\r\n\r\n"
  c.httpStatus ++ headers ++ c.body

/-- The last configuration of a resource. -/
def pageFor (cs : List ContentConf) (uri : Bytes) : Option ContentConf :=
  cs.reverse.find? (·.resource = uri)

structure HTTPApplicator where
  resources : Bytes → Option Bytes := fun _ => none

namespace HTTPApplicator

/-- `addResource`, which returns `true`. -/
def addResource (a : HTTPApplicator) (c : ContentConf) : Bool × HTTPApplicator :=
  (true, { a with resources := Function.update a.resources c.resource (some c.complete) })

def getResponse (a : HTTPApplicator) (memory : Nat) (requestPayload : Bytes) : Except Throw Bytes :=
  match HttpRequestParser.parse memory (cStr requestPayload) with
  | .error e => .error e
  | .ok (res, request) =>
    if res = .parsingCompleted then .ok ((a.resources request.uri).getD [])
    else .ok []

/-- The applicator after some additions. -/
def addAll (a : HTTPApplicator) (cs : List ContentConf) : HTTPApplicator :=
  cs.foldl (fun a c => (a.addResource c).2) a

end HTTPApplicator

/-! ## Lemmas -/

theorem to_string_ofNat (n : Nat) : to_string n = decimal n := if_neg (by omega)

theorem decimal_ne_nil (n : Nat) : decimal n ≠ [] := by
  simp [decimal, Nat.toDigits_ne_nil]

theorem isDigit_of_mem_decimal {n : Nat} {b : UInt8} (h : b ∈ decimal n) : isDigit b := by
  obtain ⟨c, hc, rfl⟩ := List.mem_map.1 h
  have hd := Nat.isDigit_of_mem_toDigits (by decide) (by decide) hc
  simp only [Char.isDigit, Bool.and_eq_true, decide_eq_true_eq, ge_iff_le, UInt32.le_iff_toNat_le]
    at hd
  simp only [isDigit, chr, Char.toUInt8, decide_eq_true_eq, UInt8.le_iff_toNat_le,
    UInt32.toNat_toUInt8]
  obtain ⟨h0, h9⟩ := hd
  rw [Nat.mod_eq_of_lt (h9.trans_lt (by decide))]
  exact ⟨h0, h9⟩

theorem int32_ofNat {n : Nat} (h : n < 2 ^ 31) : int32 n = n := by
  unfold int32
  apply Int.bmod_eq_of_le
  · omega
  · omega

/-- `trim` takes the blanks off both ends of a string that starts and stops with something else. -/
theorem trim_append {a b : UInt8} {r s t ws : Bytes} (hr : ∀ x ∈ r, x ∈ ws)
    (hs : s.head? = some a) (ha : a ∉ ws) (hl : s.getLast? = some b) (hb : b ∉ ws)
    (ht : ∀ x ∈ t, x ∈ ws) : trim (r ++ (s ++ t)) ws = s := by
  obtain ⟨s', rfl⟩ := List.head?_eq_some_iff.1 hs
  have hfirst : findFirstNotOf (r ++ (a :: s' ++ t)) ws = some r.length := by
    have hnone : r.findIdx? (· ∉ ws) = none := by
      simpa [List.findIdx?_eq_none_iff] using hr
    rw [findFirstNotOf, List.findIdx?_append, hnone]
    simp [List.findIdx?_cons, ha]
  have hlast : findLastNotOf (r ++ (a :: s' ++ t)) ws = some (r.length + s'.length) := by
    have hnone : t.reverse.findIdx? (· ∉ ws) = none := by
      simpa [List.findIdx?_eq_none_iff] using ht
    obtain ⟨r, hr⟩ := List.head?_eq_some_iff.1 ((List.head?_reverse ..).trans hl)
    have hsome : (a :: s').reverse.findIdx? (· ∉ ws) = some 0 := by
      simp [hr, List.findIdx?_cons, hb]
    simp only [findLastNotOf, List.reverse_append, List.findIdx?_append, hnone, hsome,
      Option.none_or, Option.map_some, Option.some_or, List.length_append, List.length_reverse,
      List.length_cons]
    congr 1
    omega
  rw [trim, hfirst, hlast]
  simp

namespace HTTPApplicator

variable {a : HTTPApplicator} {c : ContentConf} {cs : List ContentConf}

theorem addAll_concat : a.addAll (cs ++ [c]) = ((a.addAll cs).addResource c).2 := by
  simp [addAll]

/-- **What is stored** for a resource is the response of the last one added. -/
theorem addAll_resources (cs : List ContentConf) (uri : Bytes) :
    (addAll {} cs).resources uri = (pageFor cs uri).map ContentConf.complete := by
  induction cs using List.reverseRecOn with
  | nil => rfl
  | append_singleton cs c ih =>
    rw [addAll_concat, pageFor, List.reverse_concat, List.find?_cons]
    simp only [addResource, Function.update_apply]
    by_cases h : c.resource = uri
    · simp [h]
    · rw [if_neg (Ne.symm h), ih, pageFor]
      simp [h]

end HTTPApplicator

end Integratio
