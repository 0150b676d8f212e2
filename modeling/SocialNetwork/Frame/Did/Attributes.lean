import SocialNetwork.Frame.Did.Pallet

/-!
# The life of an attribute

`create_attribute` stores a new attribute under the current id of its name
(the hash of the identity, the name and `lookup_nonce` of the name's nonce)
and then raises the nonce. `attribute_and_id`, which `reset_attribute` and
`delete_attribute` go through, computes the id from the raised nonce. The
two ids agree while the nonce goes from `0` to `1`, where `lookup_nonce` is
`0` for both, and never after: from the second creation of a name on, the
lookup looks one nonce further than the creation wrote.

So the first creation is found (`attributeAndId_after_first_addAttribute`)
and a deletion leaves nothing to find (`attributeAndId_after_deleteAttribute`).
But in every run from a chain without attributes, once a name has been created
twice `attribute_and_id` finds nothing for it
(`attributeAndId_eq_none_of_reachable`), as long as the ids of one identity do
not collide. `StoredBelow`, the invariant behind it, bounds the nonce of
every stored id by the name's count of creations.
-/

namespace SocialNetwork.Did

open Dispatch Unsigned

variable {AccountId Signature Hash E : Type} [DecidableEq AccountId] [DecidableEq Hash]
  (cfg : Config AccountId Signature Hash) (env : Env AccountId E)

/-- The ids of one identity do not collide: `blake2_256` is taken to be
collision-free on the encodings of `(identity, name, nonce)`. -/
def IdsDistinct : Prop :=
  ∀ identity name k name' k',
    cfg.attributeId identity name k = cfg.attributeId identity name' k' → name = name' ∧ k = k'

def NoAttributes (s : State AccountId Hash E) : Prop :=
  ∀ key, s.attributeOf key = none

/-- Every attribute stored for a name is under the id of nonce `0`, or of a
nonce at least two below the name's count of creations. -/
def StoredBelow (s : State AccountId Hash E) : Prop :=
  ∀ identity name k, s.attributeOf (identity, cfg.attributeId identity name k) ≠ none →
    k = 0 ∨ k + 2 ≤ s.attributeNonce (identity, name)

/-- What a call does to the stored attributes and the nonces: it creates an
attribute, or it stores nothing new and keeps the nonces, as a reset (which
rewrites a stored attribute) and a deletion do. -/
inductive AttributeStep (s s' : State AccountId Hash E) : Prop
  | created (who identity : AccountId) (name value : List UInt8) (validFor : Option ℕ) :
      Created cfg env s who identity name value validFor s' → AttributeStep s s'
  | shrinks : (∀ key, s'.attributeOf key ≠ none → s.attributeOf key ≠ none) →
      s'.attributeNonce = s.attributeNonce → AttributeStep s s'

variable {cfg env}

section Lookup

variable {s s' : State AccountId Hash E} {who identity : AccountId} {name value : List UInt8}
  {validFor : Option ℕ}

omit [DecidableEq AccountId] [DecidableEq Hash] in
theorem attributeOf_of_attributeAndId {attr : Attribute} {id : Hash}
    (h : attributeAndId cfg s identity name = some (attr, id)) :
    id = currentId cfg s identity name ∧ s.attributeOf (identity, id) = some attr := by
  unfold attributeAndId at h
  cases hstored : s.attributeOf (identity, currentId cfg s identity name) with
  | none => simp [hstored] at h
  | some a =>
      simp only [hstored, Option.some.injEq, Prod.mk.injEq] at h
      obtain ⟨rfl, rfl⟩ := h
      exact ⟨rfl, hstored⟩

/-- After a creation, the current id of the name is that of the nonce the
creation was made with, where the creation did not write. -/
theorem Created.currentId_eq (h : Created cfg env s who identity name value validFor s') :
    currentId cfg s' identity name =
      cfg.attributeId identity name (s.attributeNonce (identity, name)) := by
  obtain ⟨-, -, -, rfl⟩ := h
  simp [currentId, lookupNonce_eq]

theorem attributeAndId_after_first_addAttribute {o : Origin AccountId}
    (h : (addAttribute cfg env o identity name value validFor).run s = .ok () s')
    (hfirst : s.attributeNonce (identity, name) = 0) :
    attributeAndId cfg s' identity name =
      some
        ({ name, value, validity := validity (env.blockNumber s.env) validFor,
           creation := env.now s.env, nonce := 0 },
          cfg.attributeId identity name 0) := by
  obtain ⟨-, -, hcreated⟩ := (wp_addAttribute cfg env o identity name value validFor s).of_ok h
  have hid := hcreated.currentId_eq
  have hstored : currentId cfg s identity name = cfg.attributeId identity name 0 := by
    simp [currentId, hfirst, lookupNonce]
  rw [hfirst] at hid
  unfold attributeAndId
  dsimp only
  rw [hid, hcreated.write]
  simp [hstored, hfirst]

theorem attributeAndId_after_deleteAttribute {o : Origin AccountId}
    (h : (deleteAttribute cfg env o identity name).run s = .ok () s') :
    attributeAndId cfg s' identity name = none := by
  obtain ⟨-, -, attr, id, hfound, rfl⟩ := (wp_deleteAttribute cfg env o identity name s).of_ok h
  obtain ⟨rfl, -⟩ := attributeOf_of_attributeAndId hfound
  simp [attributeAndId, currentId]

/-- `delete_attribute` of a name with nothing under its current id fails with
`AttributeRemovalFailed` and writes nothing, even when the owner calls it. -/
theorem wp_deleteAttribute_of_none (hnone : attributeAndId cfg s identity name = none)
    (hlength : name.length ≤ 64) :
    Wp (deleteAttribute cfg env (.signed (identityOwner s identity)) identity name)
      (fun _ _ => False) (fun e s' => e = .did .attributeRemovalFailed ∧ s' = s) s := by
  simp [deleteAttribute, isOwner, hlength, hnone]

end Lookup

section Runs

variable {s s' : State AccountId Hash E}

omit [DecidableEq AccountId] [DecidableEq Hash] in
/-- Under `StoredBelow`, a name created at least twice has nothing under its
current id: that id is of the count less one, one below which nothing is
stored. -/
theorem StoredBelow.attributeAndId_eq_none {identity : AccountId} {name : List UInt8}
    (h : StoredBelow cfg s) (htwice : 2 ≤ s.attributeNonce (identity, name)) :
    attributeAndId cfg s identity name = none := by
  have hcurrent : s.attributeOf (identity, currentId cfg s identity name) = none := by
    by_contra hstored
    rcases h identity name _ hstored with hzero | hle
    · rw [lookupNonce_eq] at hzero
      omega
    · rw [lookupNonce_eq] at hle
      omega
  simp [attributeAndId, hcurrent]

/-- A creation keeps `StoredBelow`: it stores under the nonce one below the
old count, two below the new one, and only raises counts. -/
theorem StoredBelow.created (hids : IdsDistinct cfg) (h : StoredBelow cfg s)
    {who identity₀ : AccountId} {name₀ value : List UInt8} {validFor : Option ℕ}
    (hc : Created cfg env s who identity₀ name₀ value validFor s') : StoredBelow cfg s' := by
  obtain ⟨-, -, -, rfl⟩ := hc
  intro identity name k hk
  have hgrows : s.attributeNonce (identity, name) ≤
      Function.update s.attributeNonce (identity₀, name₀)
        (s.attributeNonce (identity₀, name₀) + 1) (identity, name) := by
    by_cases hkey : (identity, name) = (identity₀, name₀)
    · rw [hkey, Function.update_self]
      omega
    · rw [Function.update_of_ne hkey]
  by_cases hkey : (identity, cfg.attributeId identity name k) =
      (identity₀, currentId cfg s identity₀ name₀)
  · -- the new attribute: the same identity, and by `hids` the same name and nonce
    obtain ⟨rfl, hid⟩ := Prod.mk.inj hkey
    obtain ⟨rfl, rfl⟩ := hids _ _ _ _ _ hid
    rw [lookupNonce_eq]
    simp only [Function.update_self]
    omega
  · simp only [Function.update_of_ne hkey] at hk
    rcases h identity name k hk with hzero | hle
    · exact .inl hzero
    · exact .inr (hle.trans hgrows)

theorem AttributeStep.storedBelow (hids : IdsDistinct cfg) (hstep : AttributeStep cfg env s s')
    (h : StoredBelow cfg s) : StoredBelow cfg s' := by
  cases hstep with
  | created who identity name value validFor hc => exact h.created hids hc
  | shrinks hstored hnonce =>
      intro identity name k hk
      rw [hnonce]
      exact h identity name k (hstored _ hk)

theorem AttributeStep.refl : AttributeStep cfg env s s :=
  .shrinks (fun _ h => h) rfl

theorem Reset.attributeStep {who identity : AccountId} {name : List UInt8}
    (h : Reset cfg env s who identity name s') : AttributeStep cfg env s s' := by
  obtain ⟨-, attr, id, hfound, rfl⟩ := h
  have hstored := (attributeOf_of_attributeAndId hfound).2
  refine .shrinks (fun key hkey => ?_) rfl
  by_cases hk : key = (identity, id)
  · simp [hk, hstored]
  · simpa [Function.update_of_ne hk] using hkey

theorem wp_entry_attributeStep (c : Entry AccountId Signature) (s : State AccountId Hash E) :
    Wp (c.apply cfg env) (fun _ s' => AttributeStep cfg env s s')
      (fun _ s' => AttributeStep cfg env s s') s := by
  -- an error writes nothing
  have herror : ∀ (e : DispatchError) (s' : State AccountId Hash E), s' = s →
      AttributeStep cfg env s s' := by
    rintro _ _ rfl
    exact .refl
  cases c with
  | changeOwner o identity newOwner =>
      refine Wp.mono (wp_changeOwner env o identity newOwner s) ?_ herror
      rintro _ _ ⟨-, rfl⟩
      exact .shrinks (fun _ h => h) rfl
  | addDelegate o identity delegate delegateType validFor =>
      refine Wp.mono (wp_addDelegate env o identity delegate delegateType validFor s) ?_ herror
      rintro _ _ ⟨-, -, -, -, rfl⟩
      exact .shrinks (fun _ h => h) rfl
  | revokeDelegate o identity delegateType delegate =>
      refine Wp.mono (wp_revokeDelegate env o identity delegateType delegate s) ?_ herror
      rintro _ _ ⟨-, -, -, rfl⟩
      exact .shrinks (fun _ h => h) rfl
  | addAttribute o identity name value validFor =>
      exact Wp.mono (wp_addAttribute cfg env o identity name value validFor s)
        (fun _ _ h => .created _ _ _ _ _ h.2.2) herror
  | revokeAttribute o identity name =>
      exact Wp.mono (wp_revokeAttribute cfg env o identity name s)
        (fun _ _ h => h.2.2.attributeStep) herror
  | deleteAttribute o identity name =>
      refine Wp.mono (wp_deleteAttribute cfg env o identity name s) ?_ herror
      rintro _ _ ⟨-, -, attr, id, -, rfl⟩
      refine .shrinks (fun key hkey => ?_) rfl
      by_cases hk : key = (identity, id)
      · simp [hk] at hkey
      · simpa [Function.update_of_ne hk] using hkey
  | execute o transaction =>
      refine Wp.mono (wp_execute cfg env o transaction s) ?_ herror
      rintro _ _ ⟨who, -, -, -, -, hwrite⟩
      split_ifs at hwrite
      · exact .created _ _ _ _ _ hwrite
      · exact hwrite.attributeStep

/-- `StoredBelow` holds in every state reachable from a chain without
attributes. -/
theorem storedBelow_of_reachable (hids : IdsDistinct cfg)
    (hs : Reachable (Entry.apply cfg env : Entry AccountId Signature → _) NoAttributes s) :
    StoredBelow cfg s := by
  refine hs.invariant (fun s₀ hempty identity name k hk => absurd (hempty _) hk) fun c => ?_
  exact preserves_of_wp fun s hbelow =>
    Wp.mono (wp_entry_attributeStep c s) (fun _ _ h => h.storedBelow hids hbelow)
      (fun _ _ h => h.storedBelow hids hbelow)

/-- In every run from a chain without attributes, once a name has been
created twice `attribute_and_id` finds nothing for it. -/
theorem attributeAndId_eq_none_of_reachable (hids : IdsDistinct cfg)
    (hs : Reachable (Entry.apply cfg env : Entry AccountId Signature → _) NoAttributes s)
    {identity : AccountId} {name : List UInt8} (htwice : 2 ≤ s.attributeNonce (identity, name)) :
    attributeAndId cfg s identity name = none :=
  (storedBelow_of_reachable hids hs).attributeAndId_eq_none htwice

/-- In such a run, an `add_attribute` of a name created before returns `Ok`
and stores the attribute, but `attribute_and_id` does not find it. -/
theorem attributeAndId_after_addAttribute_again (hids : IdsDistinct cfg)
    (hs : Reachable (Entry.apply cfg env : Entry AccountId Signature → _) NoAttributes s)
    {o : Origin AccountId} {identity : AccountId} {name value : List UInt8}
    {validFor : Option ℕ} (h : (addAttribute cfg env o identity name value validFor).run s = .ok () s')
    (hagain : 1 ≤ s.attributeNonce (identity, name)) :
    attributeAndId cfg s' identity name = none := by
  obtain ⟨-, -, hcreated⟩ := (wp_addAttribute cfg env o identity name value validFor s).of_ok h
  have hbelow := (storedBelow_of_reachable hids hs).created hids hcreated
  obtain ⟨-, -, -, rfl⟩ := hcreated
  refine hbelow.attributeAndId_eq_none ?_
  simp only [Function.update_self]
  omega

end Runs

/-- Account 1 adds attribute `n` to its identity, deletes it, and adds it
again with value `[2]`: the second `add_attribute` returns `Ok` and stores the
attribute under the id of nonce `0`, but `attribute_and_id` looks under the id
of nonce `1` and finds nothing, so `delete_attribute` fails. -/
theorem attribute_lost_after_readd :
    ∃ s s', Reachable didApply (· = didGenesis) s ∧
      (didApply (.addAttribute (.signed 1) 1 [110] [2] none)).run s = .ok () s' ∧
      (s.attributeNonce (1, [110]) = 1 ∧
        (s'.attributeOf (1, (1, [110], 0))).map Attribute.value = some [2] ∧
        attributeAndId didConfig s' 1 [110] = none ∧
        Wp (didApply (.deleteAttribute (.signed 1) 1 [110])) (fun _ _ => False)
          (fun e s'' => e = .did .attributeRemovalFailed ∧ s'' = s') s') := by
  have h : (Dispatch.execute didApply
      [.addAttribute (.signed 1) 1 [110] [1] none, .deleteAttribute (.signed 1) 1 [110]]
      didGenesis).map (fun s => okAnd (fun s s' => s.attributeNonce (1, [110]) = 1 ∧
        s'.ownerOf 1 = none ∧ (s'.attributeOf (1, (1, [110], 0))).map Attribute.value = some [2] ∧
        attributeAndId didConfig s' 1 [110] = none)
        s ((didApply (.addAttribute (.signed 1) 1 [110] [2] none)).run s)) = some true := by
    decide
  obtain ⟨s, s', hs, hrun, hnonce, howner, hvalue, hnone⟩ := Reachable.exists_ok_of_execute rfl h
  have hown : identityOwner s' 1 = 1 := by simp [identityOwner, howner]
  have hfails : Wp (deleteAttribute didConfig didEnv (.signed (identityOwner s' 1)) 1 [110])
      (fun _ _ => False) (fun e s'' => e = .did .attributeRemovalFailed ∧ s'' = s') s' :=
    wp_deleteAttribute_of_none hnone (by decide)
  rw [hown] at hfails
  refine ⟨s, s', ?_, hrun, hnonce, hvalue, hnone, hfails⟩
  -- the run starts from `didGenesis`, whichever way the equation is written
  obtain ⟨s₀, rfl, hsteps⟩ := hs
  exact ⟨_, rfl, hsteps⟩

end SocialNetwork.Did
