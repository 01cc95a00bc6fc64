import Integratio.Config.JsonConf
import Integratio.Responder.Throws

/-!
# Configuring a responder (`main`)

`main` allocates an applicator for each configuration file and installs the file's `Conf`s one after
the other: a `ContentConf` is added to the applicator, which becomes the responder's, and a
`TimeConf` is appended to its `timeTests` (`install_all`).
-/

namespace Integratio

/-- A responder while its configuration is installed: `http` is the new applicator, and `httz` says
whether the responder has it. -/
structure Setup where
  http : HTTPApplicator := {}
  httz : Bool := false
  timeTests : List TimeConf := []

namespace Setup

/-- One round of the loop over `configs`. -/
def install (s : Setup) : Conf → Setup
  | .content cc => { s with http := (s.http.addResource cc).2, httz := true }
  | .time tc => { s with timeTests := s.timeTests ++ [tc] }

def responder (s : Setup) (memory : Nat) (keepsInner : Bool) : TCPResponder Throw :=
  { httz := if s.httz then some (s.http.getResponse memory) else none
    timeTests := s.timeTests
    keepsInner := keepsInner }

end Setup

/-- `main` for one file. -/
def configure (memory : Nat) (keepsInner : Bool) (jc : Json) :
    Except Json.TypeError (TCPResponder Throw) := do
  let configs ← jsonConf jc
  return (configs.foldl Setup.install {}).responder memory keepsInner

/-- The pages among some `Conf`s. -/
def contents (confs : List Conf) : List ContentConf :=
  confs.filterMap fun | .content c => some c | .time _ => none

/-- The delays among some `Conf`s. -/
def times (confs : List Conf) : List TimeConf :=
  confs.filterMap fun | .time t => some t | .content _ => none

/-- **What `main` installs**: every page in the order of the file, and every delay. -/
theorem install_all (confs : List Conf) :
    confs.foldl Setup.install {} =
      { http := HTTPApplicator.addAll {} (contents confs)
        httz := contents confs ≠ []
        timeTests := times confs } := by
  induction confs using List.reverseRecOn with
  | nil => rfl
  | append_singleton confs conf ih =>
    rw [List.foldl_concat, ih]
    cases conf with
    | time t => simp [Setup.install, contents, times]
    | content c =>
      simp [Setup.install, contents, times, HTTPApplicator.addAll]

end Integratio
