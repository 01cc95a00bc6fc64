import Integratio.Applicator.Http
import Integratio.Config.Json
import Integratio.Responder.Machine

/-!
# The configuration (`jsonConf`)

`jsonConf` of `common.cpp`, from the parsed text on: its loop over `configs` (`entry` is one round,
which an error or a `break` stops) with the loops over the `parameters` of an entry. The listener
that `jsonConf` allocates is not used and is left out.
-/

namespace Integratio

open Scanner Json

/-- A `Conf`: of category `time` or `content`. -/
inductive Conf
  | time (t : TimeConf)
  | content (c : ContentConf)
  deriving DecidableEq, Repr

/-- `new TimeConf()`. -/
def TimeConf.new : TimeConf := ⟨"", "", 0⟩

/-- `element[key].get<std::string>()`. -/
def textOf (element : Json) (key : String) : Except TypeError String :=
  match element.index key with
  | .error e => .error e
  | .ok j => j.getString

/-- `element[key].get<int>()`. -/
def intOf (element : Json) (key : String) : Except TypeError Int :=
  match element.index key with
  | .error e => .error e
  | .ok j => j.getInt

/-- The body of the loop over the parameters of a `time` entry. -/
def timeBody (t : TimeConf) (element : Json) : Except TypeError TimeConf := do
  let state ← textOf element "state"
  let action ← textOf element "action"
  let delay ← intOf element "delay"
  return { t with state := state, action := action, delay := delay }

/-- The body of the loop over the parameters of a `content` entry. -/
def contentBody (confs : List Conf) (element : Json) : Except TypeError (List Conf) := do
  let resource ← textOf element "resource"
  let httpStatus ← textOf element "http-status"
  let headers ← textOf element "headers"
  let body ← textOf element "body"
  return confs ++ [.content ⟨utf8 resource, utf8 httpStatus, utf8 headers, utf8 body⟩]

/-- What a round pushes for a `time` entry. -/
def timeEntry (confs : List Conf) (jconfigs : Json) : Except TypeError (List Conf) := do
  let t ← (← jconfigs.index "parameters").elements.foldlM timeBody .new
  return confs ++ [.time t]

/-- What a round pushes for a `content` entry. -/
def contentEntry (confs : List Conf) (jconfigs : Json) : Except TypeError (List Conf) := do
  (← jconfigs.index "parameters").elements.foldlM contentBody confs

/-- The loop goes on with what a round has pushed. -/
def goOn : Except TypeError (List Conf) → Next (List Conf) (Except TypeError (List Conf))
  | .ok confs => .next confs
  | .error e => .stop (.error e)

/-- One round of the loop over `configs`. -/
def entry (confs : List Conf) (jconfigs : Json) :
    Next (List Conf) (Except TypeError (List Conf)) :=
  match jconfigs.index "category" with
  | .error e => .stop (.error e)
  | .ok category =>
    if category.eqText "time" then goOn (timeEntry confs jconfigs)
    else if category.eqText "content" then goOn (contentEntry confs jconfigs)
    -- `break` leaves the loop
    else if category.eqText "packet" then .stop (.ok confs)
    else .stop (.ok confs)

def jsonConf (jc : Json) : Except TypeError (List Conf) :=
  match jc.index "configs" with
  | .error e => .error e
  | .ok configs => scan entry .ok [] configs.elements

end Integratio
