import Apsu.BundleTotal
import Apsu.DatabaseSound

/-!
# The calls return

A call on a database that satisfies the invariant returns when its rounds at each bundle index
return: the shards can be put together again, and the caches can be generated.
-/

namespace Apsu

/-! ## Shards -/

/-- Shards that are changed one by one make up a vector of shards. -/
theorem shards_total {α σ : Type} {change : α → σ → Except Fault σ} {entries : Nat → List α}
    {shards : List σ} {fallback : σ} (outside : ∀ index, shards.length ≤ index → entries index = [])
    (total : ∀ index < shards.length, ∃ next,
      onShard change (entries index) (shards.getD index fallback) = .ok next) :
    ∃ result : List σ, result.length = shards.length ∧ ∀ index,
      onShard change (entries index) (shards.getD index fallback) =
        .ok (result.getD index fallback) := by
  choose next returned using total
  have length : (List.ofFn fun index : Fin shards.length => next index index.isLt).length =
      shards.length := List.length_ofFn
  refine ⟨_, length, fun index => ?_⟩
  by_cases inside : index < shards.length
  · rw [returned index inside, List.getD_eq_getElem _ _ (by rw [length]; exact inside),
      List.getElem_ofFn]
  · have beyond := Nat.le_of_not_lt inside
    rw [outside index beyond, List.getD_eq_default _ _ beyond,
      List.getD_eq_default _ _ (by rw [length]; exact beyond)]
    rfl

section Dispatched

variable {Data : Type} {env : Environment} {binBundles : List BundleSet}

/-- A bundle index that no entry has gets no entries. -/
theorem entriesAt_eq_nil {binsPerBundle index : Nat} {entries : List (Data × Nat)}
    (inside : ∀ entry ∈ entries, entryBundle binsPerBundle entry < binBundles.length)
    (beyond : binBundles.length ≤ index) : entriesAt binsPerBundle entries index = [] :=
  List.filter_eq_nil_iff.mpr fun entry member same =>
    absurd (of_decide_eq_true same ▸ inside entry member) (Nat.not_lt.mpr beyond)

/-- `dispatch_remove` returns when its rounds at each bundle index do. -/
theorem dispatchRemove_total {entries : List (List Nat × Nat)} {binsPerBundle : Nat}
    (inside : ∀ entry ∈ entries, entryBundle binsPerBundle entry < binBundles.length)
    (total : ∀ index < binBundles.length, ∃ next, onShard (fun (entry : List Nat × Nat) =>
        removeOne env (unpackCuckooIdx entry.2 binsPerBundle).1 entry.1)
      (entriesAt binsPerBundle entries index) (binBundles.getD index ⟨[], 0⟩) = .ok next) :
    ∃ result, dispatchRemove env entries binsPerBundle binBundles = .ok result := by
  obtain ⟨result, length, shards⟩ := shards_total (fun _ => entriesAt_eq_nil inside) total
  exact ⟨result, dispatchRemove_iff.mpr ⟨inside, length, shards⟩⟩

end Dispatched

/-! ## Caches -/

namespace ReceiverDB

variable {db : ReceiverDB}

/-- `generate_caches` returns; with labels, when the items of each bin are different. -/
theorem generateCaches_total {shape : BundleShape} (prime : shape.context.fieldMod.Prime)
    (sound : ∀ index, (db.bundleSet index).Sound shape)
    (distinct : 0 < shape.labelSize → ∀ index, ∀ bundle ∈ (db.bundleSet index).bundles,
      ∀ bin, (bundle.bin bin).Nodup) : ∃ next, generateCaches db = .ok next := by
  obtain ⟨binBundles, generated⟩ : ∃ binBundles, db.binBundles.mapM (fun bundleSet => do
      return { bundleSet with bundles := ← bundleSet.bundles.mapM BinBundle.regenCache }) =
        .ok binBundles := by
    refine mapM_total _ fun bundleSet member => ?_
    obtain ⟨index, inside, rfl⟩ := List.getElem_of_mem member
    have here : db.bundleSet index = db.binBundles[index] := List.getD_eq_getElem _ _ inside
    obtain ⟨bundles, regenerated⟩ := @mapM_total _ _ BinBundle.regenCache
      (db.bundleSet index).bundles fun bundle inSet =>
        BinBundle.regenCache_total (sound index bundle inSet) prime fun labeled =>
          distinct labeled index bundle inSet
    rw [← here]
    exact ⟨⟨bundles, (db.bundleSet index).created⟩, bind_ok.mpr ⟨bundles, regenerated, rfl⟩⟩
  exact ⟨{ db with binBundles := binBundles }, bind_ok.mpr ⟨binBundles, generated, rfl⟩⟩

end ReceiverDB

end Apsu
