import Integratio.Applicator.Proof.Content
import Integratio.Config.Main
import Integratio.Config.Proof.Elements

/-!
# What a document configures

`configured`: the responder of a document waits for the delays and serves the pages that its entries
contribute, in their order, and it has an applicator when there is a page. These are all pages and
delays of the entries (`ConfEntry.pages`, `ConfEntry.delays`) when no entry is of another category
and every `time` entry has one element (`contribution_installed`).
-/

namespace Integratio

variable {jc : Json} {es : List ConfEntry}

/-- The pages of an entry. -/
def ConfEntry.pages : ConfEntry → List ContentConf
  | .content cs => cs
  | _ => []

/-- The delays of an entry. -/
def ConfEntry.delays : ConfEntry → List TimeConf
  | .time ts => ts
  | _ => []

theorem contents_append (A B : List Conf) : contents (A ++ B) = contents A ++ contents B :=
  List.filterMap_append

theorem times_append (A B : List Conf) : times (A ++ B) = times A ++ times B :=
  List.filterMap_append

theorem installed_confs (es : List ConfEntry) :
    contents (es.flatMap ConfEntry.confs) = es.flatMap ConfEntry.pages ∧
      times (es.flatMap ConfEntry.confs) = es.flatMap ConfEntry.delays := by
  induction es with
  | nil => exact ⟨rfl, rfl⟩
  | cons e es ih =>
    rw [List.flatMap_cons, List.flatMap_cons, List.flatMap_cons, contents_append, times_append,
      ih.1, ih.2]
    cases e with
    | time ts =>
      simp [ConfEntry.confs, ConfEntry.pages, ConfEntry.delays, contents, times, List.filterMap_map]
    | content cs =>
      simp [ConfEntry.confs, ConfEntry.pages, ConfEntry.delays, contents, times, List.filterMap_map]
    | other => exact ⟨rfl, rfl⟩

/-- **Nothing of the entries is lost**, under these conditions. -/
theorem contribution_installed (hes : .other ∉ es)
    (htime : ∀ ts, .time ts ∈ es → ∃ t, ts = [t] ∧ t.Fits) :
    contents (contribution es) = es.flatMap ConfEntry.pages ∧
      times (contribution es) = es.flatMap ConfEntry.delays := by
  have hconfs : contribution es = es.flatMap ConfEntry.confs := by
    rw [contribution_of_not_mem hes]
    refine List.flatMap_congr fun e he => ?_
    have hne : e ≠ .other := fun heq => hes (heq ▸ he)
    exact (pushed_eq_confs_iff hne).2 fun ts hts => htime ts (hts ▸ he)
  rw [hconfs]
  exact installed_confs es

/-- **What a document configures** (module doc). -/
theorem configured (h : Describes jc es) (memory : Nat) (keepsInner : Bool) :
    ∃ r, configure memory keepsInner jc = .ok r ∧ r.timeTests = times (contribution es) ∧
      (r.httz.isSome ↔ contents (contribution es) ≠ []) ∧
      ∀ getResponse ∈ r.httz, ∀ (q : RequestHead) (rest : Bytes),
        getResponse (q.bytes ++ rest) = .ok
          (((pageFor (contents (contribution es)) q.uri).map ContentConf.complete).getD []) := by
  have hconf : configure memory keepsInner jc =
      .ok (((contribution es).foldl Setup.install {}).responder memory keepsInner) := by
    rw [configure, jsonConf_describes h]
    rfl
  refine ⟨_, hconf, ?_⟩
  rw [install_all]
  refine ⟨rfl, by simp [Setup.responder], ?_⟩
  intro getResponse hmem q rest
  obtain rfl : getResponse =
      (HTTPApplicator.addAll {} (contents (contribution es))).getResponse memory := by
    simp only [Setup.responder, Option.mem_def] at hmem
    split at hmem
    · exact (Option.some.inj hmem).symm
    · cases hmem
  rw [getResponse_head, HTTPApplicator.addAll_resources]

end Integratio
