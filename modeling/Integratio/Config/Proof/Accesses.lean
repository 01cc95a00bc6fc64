import Integratio.Config.Main

/-!
# What `jsonConf` reads

`jsonConf` on any document, complete or not. Its nested loops are one pass over a list of accesses
(`accesses`): each is an `operator[]` with the type that the value must have. The first access that
fails is the error that `jsonConf` throws, and if none fails, it returns what the entries say
(`confsOf`), up to the first entry of another category (`jsonConf_reads`).
-/

namespace Integratio

open Scanner Json

/-! ## Accesses -/

/-- What the value at a key has to be. -/
inductive Kind
  | any
  | text
  | number
  deriving DecidableEq, Repr

structure Access where
  container : Json
  key : String
  kind : Kind

def failure {α : Type} : Except TypeError α → Option TypeError
  | .ok _ => none
  | .error e => some e

def Kind.failure : Kind → Json → Option TypeError
  | .any, _ => none
  | .text, j => Integratio.failure j.getString
  | .number, j => Integratio.failure j.getInt

def Access.failure (a : Access) : Option TypeError :=
  match a.container.index a.key with
  | .ok j => a.kind.failure j
  | .error e => some e

/-- The value, unless an access before it fails. -/
def guarded {α : Type} (as : List Access) (x : α) : Except TypeError α :=
  match as.findSome? Access.failure with
  | none => .ok x
  | some e => .error e

section
variable {α β : Type} {as : List Access} {x : α}

theorem guarded_bind (bs : List Access) {f : α → Except TypeError β} {y : β}
    (hf : f x = guarded bs y) :
    (guarded as x >>= f) = guarded (as ++ bs) y := by
  unfold guarded at hf ⊢
  rw [List.findSome?_append]
  cases as.findSome? Access.failure with
  | none => exact hf
  | some e => rfl

theorem guarded_map (f : α → β) : (guarded as x >>= fun x => .ok (f x)) = guarded as (f x) := by
  unfold guarded
  cases as.findSome? Access.failure <;> rfl

theorem guarded_of_none (h : as.findSome? Access.failure = none) (bs : List Access) :
    guarded (as ++ bs) x = guarded bs x := by
  rw [guarded, guarded, List.findSome?_append, h, Option.none_or]

theorem guarded_of_some {e : TypeError} (h : as.findSome? Access.failure = some e)
    (bs : List Access) : guarded (as ++ bs) x = .error e := by
  rw [guarded, List.findSome?_append, h, Option.some_or]

/-- A loop that fails at the first access that fails. -/
theorem guarded_foldlM {f : β → α → Except TypeError β} {g : β → α → β} {as : α → List Access}
    (hf : ∀ b x, f b x = guarded (as x) (g b x)) (l : List α) (b : β) :
    l.foldlM f b = guarded (l.flatMap as) (l.foldl g b) := by
  induction l generalizing b with
  | nil => rfl
  | cons x l ih =>
    rw [List.foldlM_cons, hf, List.flatMap_cons, List.foldl_cons]
    exact guarded_bind (l.flatMap as) (ih _)

end

/-! ## The fields -/

/-- `j[key]`, where the access does not fail. -/
def Json.member (j : Json) (key : String) : Json := (j.index key).toOption.getD .null

def Json.textAt (j : Json) (key : String) : String := (j.member key).getString.toOption.getD ""

def Json.intAt (j : Json) (key : String) : Int := (j.member key).getInt.toOption.getD 0

theorem index_guarded (j : Json) (key : String) :
    j.index key = guarded [⟨j, key, .any⟩] (j.member key) := by
  unfold guarded Json.member
  rw [List.findSome?_singleton, Access.failure]
  cases j.index key <;> rfl

theorem textOf_guarded (j : Json) (key : String) :
    textOf j key = guarded [⟨j, key, .text⟩] (j.textAt key) := by
  unfold guarded Json.textAt Json.member textOf
  rw [List.findSome?_singleton, Access.failure]
  cases j.index key with
  | error e => rfl
  | ok v =>
    simp only [Kind.failure, Except.toOption, Option.getD_some]
    cases v.getString <;> rfl

theorem intOf_guarded (j : Json) (key : String) :
    intOf j key = guarded [⟨j, key, .number⟩] (j.intAt key) := by
  unfold guarded Json.intAt Json.member intOf
  rw [List.findSome?_singleton, Access.failure]
  cases j.index key with
  | error e => rfl
  | ok v =>
    simp only [Kind.failure, Except.toOption, Option.getD_some]
    cases v.getInt <;> rfl

/-! ## Entries -/

def timeAccesses (element : Json) : List Access :=
  [⟨element, "state", .text⟩, ⟨element, "action", .text⟩, ⟨element, "delay", .number⟩]

def timeAt (element : Json) : TimeConf :=
  ⟨element.textAt "state", element.textAt "action", element.intAt "delay"⟩

def contentAccesses (element : Json) : List Access :=
  [⟨element, "resource", .text⟩, ⟨element, "http-status", .text⟩, ⟨element, "headers", .text⟩,
    ⟨element, "body", .text⟩]

def contentAt (element : Json) : ContentConf :=
  ⟨utf8 (element.textAt "resource"), utf8 (element.textAt "http-status"),
    utf8 (element.textAt "headers"), utf8 (element.textAt "body")⟩

theorem timeBody_guarded (t : TimeConf) (element : Json) :
    timeBody t element = guarded (timeAccesses element) (timeAt element) := by
  simp only [timeBody, textOf_guarded, intOf_guarded]
  refine guarded_bind [_, _] (guarded_bind [_] ?_)
  exact guarded_map _

theorem contentBody_guarded (confs : List Conf) (element : Json) :
    contentBody confs element =
      guarded (contentAccesses element) (confs ++ [.content (contentAt element)]) := by
  simp only [contentBody, textOf_guarded]
  refine guarded_bind [_, _, _] (guarded_bind [_, _] (guarded_bind [_] ?_))
  exact guarded_map _

def Json.isTime (jconfigs : Json) : Bool := (jconfigs.member "category").eqText "time"

def Json.isContent (jconfigs : Json) : Bool := (jconfigs.member "category").eqText "content"

/-- The elements of an entry's `parameters`. -/
def Json.parameters (jconfigs : Json) : List Json := (jconfigs.member "parameters").elements

def entryAccesses (jconfigs : Json) : List Access :=
  ⟨jconfigs, "category", .any⟩ ::
    if jconfigs.isTime then
      ⟨jconfigs, "parameters", .any⟩ :: jconfigs.parameters.flatMap timeAccesses
    else if jconfigs.isContent then
      ⟨jconfigs, "parameters", .any⟩ :: jconfigs.parameters.flatMap contentAccesses
    else []

/-- A `time` entry has the delay of its last element. -/
def entryConfs (jconfigs : Json) : List Conf :=
  if jconfigs.isTime then
    [.time (jconfigs.parameters.foldl (fun _ element => timeAt element) .new)]
  else if jconfigs.isContent then
    jconfigs.parameters.map fun element => .content (contentAt element)
  else []

/-- The entries up to the first of another category. -/
def reached : List Json → List Json
  | [] => []
  | j :: js => if j.isTime || j.isContent then j :: reached js else [j]

def Json.reached (jc : Json) : List Json := Integratio.reached (jc.member "configs").elements

def accesses (jc : Json) : List Access :=
  ⟨jc, "configs", .any⟩ :: jc.reached.flatMap entryAccesses

def confsOf (jc : Json) : List Conf := jc.reached.flatMap entryConfs

theorem timeEntry_guarded (confs : List Conf) (j : Json) :
    timeEntry confs j =
      guarded (⟨j, "parameters", .any⟩ :: j.parameters.flatMap timeAccesses)
        (confs ++ [.time (j.parameters.foldl (fun _ element => timeAt element) .new)]) := by
  rw [timeEntry, index_guarded]
  refine guarded_bind (j.parameters.flatMap timeAccesses) ?_
  rw [guarded_foldlM timeBody_guarded]
  exact guarded_map _

theorem contentEntry_guarded (confs : List Conf) (j : Json) :
    contentEntry confs j =
      guarded (⟨j, "parameters", .any⟩ :: j.parameters.flatMap contentAccesses)
        (confs ++ j.parameters.map fun element => .content (contentAt element)) := by
  rw [contentEntry, index_guarded]
  refine guarded_bind (j.parameters.flatMap contentAccesses) ?_
  rw [guarded_foldlM contentBody_guarded]
  refine congrArg (guarded _) ?_
  rw [List.foldl_append_eq_append, List.flatten_eq_flatMap, List.flatMap_map]
  exact congrArg (confs ++ ·) List.map_eq_flatMap.symm

theorem entry_guarded (confs : List Conf) (j : Json) :
    entry confs j =
      match (entryAccesses j).findSome? Access.failure with
      | some e => .stop (.error e)
      | none =>
        if j.isTime || j.isContent then .next (confs ++ entryConfs j) else .stop (.ok confs) := by
  unfold entry
  cases hc : j.index "category" with
  | error e =>
    have hf : Access.failure ⟨j, "category", .any⟩ = some e := by rw [Access.failure, hc]
    rw [entryAccesses, List.findSome?_cons, hf]
  | ok category =>
    have hf : Access.failure ⟨j, "category", .any⟩ = none := by rw [Access.failure, hc]; rfl
    have hm : j.member "category" = category := by rw [Json.member, hc]; rfl
    rw [entryAccesses, List.findSome?_cons, hf, entryConfs, Json.isTime, Json.isContent, hm]
    -- what the round has pushed, or the error
    have hgo : ∀ as (l : List Conf), goOn (guarded as l) =
        match as.findSome? Access.failure with
        | some e => .stop (.error e)
        | none => .next l := by
      intro as l
      rw [guarded]
      cases as.findSome? Access.failure <;> rfl
    cases ht : category.eqText "time" with
    | true => simp only [ht, if_true, Bool.true_or, timeEntry_guarded, hgo]
    | false =>
      cases hcont : category.eqText "content" with
      | true =>
        simp only [ht, hcont, Bool.false_eq_true, if_false, if_true, Bool.or_true,
          contentEntry_guarded, hgo]
      | false =>
        simp only [ht, hcont, Bool.false_eq_true, if_false, ite_self, Bool.or_false]
        rfl

theorem scan_guarded (js : List Json) (confs : List Conf) :
    scan entry .ok confs js =
      guarded ((reached js).flatMap entryAccesses) (confs ++ (reached js).flatMap entryConfs) := by
  induction js generalizing confs with
  | nil => simp [scan, reached, guarded]
  | cons j js ih =>
    rw [scan, entry_guarded]
    cases hf : (entryAccesses j).findSome? Access.failure with
    | some e =>
      cases hgo : j.isTime || j.isContent <;>
        simp only [reached, hgo, Bool.false_eq_true, if_false, if_true, List.flatMap_cons,
          guarded_of_some hf]
    | none =>
      cases hgo : j.isTime || j.isContent with
      | true =>
        simp only [if_true, reached, hgo, ih, List.flatMap_cons, guarded_of_none hf,
          List.append_assoc]
      | false =>
        obtain ⟨ht, hc⟩ := Bool.or_eq_false_iff.1 hgo
        have hnil : entryConfs j = [] := by
          simp only [entryConfs, ht, hc, Bool.false_eq_true, if_false]
        simp only [reached, hgo, Bool.false_eq_true, if_false, List.flatMap_cons, List.flatMap_nil,
          hnil, List.append_nil]
        rw [guarded, hf]

/-- **What `jsonConf` does with any document**: it throws the error of the first access that fails;
if none does, it returns what the entries say. -/
theorem jsonConf_reads (jc : Json) :
    jsonConf jc = match (accesses jc).findSome? Access.failure with
      | none => .ok (confsOf jc)
      | some e => .error e := by
  have hscan := scan_guarded (jc.member "configs").elements []
  unfold jsonConf
  cases hc : jc.index "configs" with
  | error e =>
    have hf : Access.failure ⟨jc, "configs", .any⟩ = some e := by rw [Access.failure, hc]
    rw [accesses, List.findSome?_cons, hf]
  | ok configs =>
    have hf : Access.failure ⟨jc, "configs", .any⟩ = none := by rw [Access.failure, hc]; rfl
    have hm : jc.member "configs" = configs := by rw [Json.member, hc]; rfl
    rw [hm] at hscan
    rw [accesses, List.findSome?_cons, hf, confsOf, Json.reached, hm]
    exact hscan

/-- A delay without its state, before an entry that is not an object. -/
example : jsonConf (.object [("configs", .array [.object [("category", .string "time"),
    ("parameters", .array [.object [("delay", .number 1)]])], .number 0])]) =
    .error (typeError 302 "type must be string, but is null") := rfl

end Integratio
