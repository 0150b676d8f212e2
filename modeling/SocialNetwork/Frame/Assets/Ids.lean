import SocialNetwork.Frame.Assets.Ledger

/-!
# `pallet_assets`: fresh asset ids

`IssueAndBurn::create_new_asset`, through which `create_exchange` of the
swap pallet opens an LP asset, takes `MaxAssetId + 1` as the id of the new
asset. `MaxAssetId` is kept by hand: `do_create` and `force_create` raise it
to the id they insert, but `GenesisBuild::build` inserts its asset classes
and leaves it at its default (`GenesisConfig.build_maxAssetId`). A genesis
asset above `MaxAssetId` then stands in the way of the next new asset, and
`create_new_asset` fails with `InUse` (`createNewAsset_inUse`,
`genesis_asset_blocks_new_asset`). The `+ 1` is a `u32` sum as well, which
wraps once an asset with id `u32::MAX` has been created.
-/

namespace SocialNetwork.Assets

open Dispatch Unsigned

variable {AccountId E : Type} [DecidableEq AccountId]

omit [DecidableEq AccountId] in
theorem foldl_maxAssetId {β : Type} (f : State AccountId E → β → State AccountId E) :
    ∀ (l : List β) (s : State AccountId E), (∀ s b, (f s b).maxAssetId = s.maxAssetId) →
      (l.foldl f s).maxAssetId = s.maxAssetId
  | [], _, _ => rfl
  | b :: l, s, hf => by rw [List.foldl_cons, foldl_maxAssetId f l _ hf, hf]

theorem GenesisConfig.build_maxAssetId (g : GenesisConfig AccountId) (e : E) :
    (g.build e).maxAssetId = 0 := by
  unfold GenesisConfig.build
  dsimp only
  rw [foldl_maxAssetId, foldl_maxAssetId]
  · rfl
  · exact fun _ _ => rfl
  · exact fun _ _ => rfl

variable (env : Env AccountId E) (T : Config AccountId)

omit [DecidableEq AccountId] in
/-- When `MaxAssetId + 1`, wrapped at `u32`, already has details,
`create_new_asset` fails with `InUse` and writes nothing. -/
theorem createNewAsset_inUse {s : State AccountId E} {d : AssetDetails AccountId}
    (hd : s.asset (wrappingAdd assetIdBits s.maxAssetId 1) = some d) (owner : AccountId)
    (maxZombies minBalance : ℕ) :
    (IssueAndBurn.createNewAsset env T owner maxZombies minBalance).run s =
      .error (.error (.assets .inUse)) s := by
  simp [IssueAndBurn.createNewAsset, doCreate, EStateM.run_bind, hd, ensure]

/-- A genesis of asset 1 leaves `MaxAssetId` at 0, below it, and the first
`create_new_asset` picks 1 and fails with `InUse`, whatever the runtime. -/
theorem genesis_asset_blocks_new_asset (env : Env ℕ E) (T : Config ℕ) (e : E) :
    ∃ s, Reachable (Entry.apply env T) (fun s₀ => ∃ (g : GenesisConfig ℕ) (e : E), s₀ = g.build e) s ∧
      (∃ d, s.asset 1 = some d) ∧ s.maxAssetId < 1 ∧
      (IssueAndBurn.createNewAsset env T 2 3 1).run s = .error (.error (.assets .inUse)) s := by
  let g : GenesisConfig ℕ := ⟨[(1, 1, 1, 3, 1)], []⟩
  have hmax : (g.build e).maxAssetId = 0 := g.build_maxAssetId e
  have hd : (g.build e).asset 1 = some (GenesisConfig.assetDetails (1, 1, 1, 3, 1)) := rfl
  have hnext : wrappingAdd assetIdBits (g.build e).maxAssetId 1 = 1 := by
    rw [hmax]
    rfl
  refine ⟨g.build e, Reachable.start ⟨g, e, rfl⟩, ⟨_, hd⟩, by omega, ?_⟩
  exact createNewAsset_inUse env T (hnext ▸ hd) 2 3 1

end SocialNetwork.Assets
