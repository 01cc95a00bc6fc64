import Integratio.Config.Proof.Entries

/-!
# Entries are independent of each other

An entry of a category that is not supported should be passed over; the `break` of its branch leaves
the loop instead, so nothing that comes after it takes effect.

* `independent_iff`: the entries `B` after the entries `A` add what they are alone exactly when `A`
  has no such entry or `B` has nothing to add, and one more such entry between them changes nothing
  exactly when `A` has one already or `B` has nothing to add.
-/

namespace Integratio

variable {jc jcA jcB jcI : Json} {es A B : List ConfEntry}

/-- Entries that add nothing. -/
def Silent (es : List ConfEntry) : Prop := ∀ e ∈ es.takeWhile (· ≠ .other), e = .content []

theorem contribution_eq_nil : contribution es = [] ↔ Silent es := by
  rw [contribution, List.flatMap_eq_nil_iff]
  refine forall₂_congr fun e he => ?_
  have hne : e ≠ .other := by simpa using List.mem_takeWhile_imp he
  cases e with
  | time ts => simp [ConfEntry.pushed]
  | content cs => simp [ConfEntry.pushed]
  | other => exact absurd rfl hne

/-- **What an entry is worth after others** (module doc). -/
theorem independent_iff (hA : Describes jcA A) (hB : Describes jcB B)
    (h : Describes jc (A ++ B)) (hI : Describes jcI (A ++ .other :: B)) :
    ((jsonConf jc = do return (← jsonConf jcA) ++ (← jsonConf jcB)) ↔ .other ∉ A ∨ Silent B) ∧
      (jsonConf jcI = jsonConf jc ↔ .other ∈ A ∨ Silent B) := by
  have hboth : (do return (← jsonConf jcA) ++ (← jsonConf jcB)) =
      (.ok (contribution A ++ contribution B) : Except Json.TypeError (List Conf)) := by
    rw [jsonConf_describes hA, jsonConf_describes hB]
    rfl
  rw [hboth, jsonConf_describes h, jsonConf_describes hI, Except.ok.injEq, Except.ok.injEq,
    ← contribution_eq_nil]
  by_cases hmem : .other ∈ A
  · rw [contribution_append_of_other hmem, contribution_append_of_other hmem]
    simp [hmem]
  · rw [contribution_append hmem, contribution_append hmem, contribution_other]
    simp [hmem]

theorem independent_iff_times :
    jsonConf (document [sampleTimeEntry [synAckDelay], sampleTimeEntry [dataDelay]]) =
      do return (← jsonConf (document [sampleTimeEntry [synAckDelay]])) ++
        (← jsonConf (document [sampleTimeEntry [dataDelay]])) :=
  have hA : List.Forall₂ Says [sampleTimeEntry [synAckDelay]] [.time [synAckDelay]] :=
    .cons (says_sampleTimeEntry _) .nil
  have hB : List.Forall₂ Says [sampleTimeEntry [dataDelay]] [.time [dataDelay]] :=
    .cons (says_sampleTimeEntry _) .nil
  (independent_iff (describes_document hA) (describes_document hB)
    (describes_document (List.rel_append hA hB))
    (describes_document (List.rel_append hA (.cons says_packetEntry hB)))).1.2 (.inl (by decide))

/-- **A packet entry takes the effect of the entry after it away.** -/
theorem entry_after_packet_lost :
    ¬ ∀ (A B : List ConfEntry) (jcA jcB jc : Json), Describes jcA A → Describes jcB B →
      Describes jc (A ++ B) →
        jsonConf jc = do return (← jsonConf jcA) ++ (← jsonConf jcB) := by
  intro h
  have hA : List.Forall₂ Says [packetEntry] [.other] := .cons says_packetEntry .nil
  have hB : List.Forall₂ Says [sampleTimeEntry [synAckDelay]] [.time [synAckDelay]] :=
    .cons (says_sampleTimeEntry _) .nil
  have hAB : List.Forall₂ Says [packetEntry, sampleTimeEntry [synAckDelay]]
      [.other, .time [synAckDelay]] := .cons says_packetEntry hB
  have heq := h _ _ _ _ _ (describes_document hA) (describes_document hB) (describes_document hAB)
  rw [jsonConf_describes (describes_document hA), jsonConf_describes (describes_document hB),
    jsonConf_describes (describes_document hAB)] at heq
  exact absurd (Except.ok.inj heq) (by decide)

end Integratio
