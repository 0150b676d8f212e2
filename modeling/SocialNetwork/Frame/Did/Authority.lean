import SocialNetwork.Frame.Did.Pallet

/-!
# Only the owner changes an identity

Every call of `pallet_did` acts on one identity, and each checks `is_owner`
against the origin before it writes: `execute` checks the transaction's
signer as well, after its signature. What an identity holds is its entry of
`OwnerOf` and its entries of `DelegateOf`, `AttributeOf` and
`AttributeNonce` (`SameAt` compares them).

`wp_entry` says it once for all calls: a call fails and writes nothing, or it
was made by the owner of its identity at the time of the call; then it
changed what no other identity holds, and no owner unless it is
`change_owner`. `did_authority` reads the rule for one identity off it.
-/

namespace SocialNetwork.Did

open Dispatch

variable {AccountId Signature Hash E : Type} [DecidableEq AccountId] [DecidableEq Hash]

def Entry.identity : Entry AccountId Signature → AccountId
  | .changeOwner _ identity _ | .addDelegate _ identity _ _ _ | .revokeDelegate _ identity _ _
  | .addAttribute _ identity _ _ _ | .revokeAttribute _ identity _
  | .deleteAttribute _ identity _ => identity
  | .execute _ transaction => transaction.identity

def Entry.origin : Entry AccountId Signature → Origin AccountId
  | .changeOwner o _ _ | .addDelegate o _ _ _ _ | .revokeDelegate o _ _ _
  | .addAttribute o _ _ _ _ | .revokeAttribute o _ _ | .deleteAttribute o _ _
  | .execute o _ => o

/-- The call is made by the owner of its identity in `s`: the origin is the
owner and, for `execute`, so is the transaction's signer, whose signature of
the transaction verifies. -/
def Entry.Authorized (cfg : Config AccountId Signature Hash) (s : State AccountId Hash E)
    (c : Entry AccountId Signature) : Prop :=
  c.origin = .signed (identityOwner s c.identity) ∧
    match c with
    | .execute _ transaction =>
        transaction.signer = identityOwner s transaction.identity ∧
          cfg.verify transaction.signature (encodeTransaction cfg transaction)
            transaction.signer = true
    | _ => True

/-- `s` and `s'` agree on what identity `i` holds. -/
@[mk_iff]
structure SameAt (i : AccountId) (s s' : State AccountId Hash E) : Prop where
  ownerOf : s'.ownerOf i = s.ownerOf i
  delegateOf : ∀ delegateType delegate,
    s'.delegateOf (i, delegateType, delegate) = s.delegateOf (i, delegateType, delegate)
  attributeOf : ∀ id, s'.attributeOf (i, id) = s.attributeOf (i, id)
  attributeNonce : ∀ name, s'.attributeNonce (i, name) = s.attributeNonce (i, name)

/-- Some entry of `DelegateOf`, `AttributeOf` or `AttributeNonce` keyed by `i`
differs between `s` and `s'`. -/
def EntriesChanged (i : AccountId) (s s' : State AccountId Hash E) : Prop :=
  (∃ delegateType delegate,
      s'.delegateOf (i, delegateType, delegate) ≠ s.delegateOf (i, delegateType, delegate)) ∨
    (∃ id, s'.attributeOf (i, id) ≠ s.attributeOf (i, id)) ∨
    (∃ name, s'.attributeNonce (i, name) ≠ s.attributeNonce (i, name))

section Writes

/-! The writes of the pallet are at keys of one identity, and `UpdatedBy`;
each keeps what another identity holds. -/

variable {i identity : AccountId} {s : State AccountId Hash E}
  {updatedBy : AccountId → Option (AccountId × ℕ × ℕ)}

omit [DecidableEq Hash] in
theorem sameAt_update_ownerOf (hi : i ≠ identity) (owner : Option AccountId) :
    SameAt i s { s with ownerOf := Function.update s.ownerOf identity owner, updatedBy } := by
  simp [sameAt_iff, hi]

omit [DecidableEq Hash] in
theorem sameAt_update_delegateOf (hi : i ≠ identity) (delegateType : List UInt8)
    (delegate : AccountId) (validity : Option ℕ) :
    SameAt i s { s with
      delegateOf := Function.update s.delegateOf (identity, delegateType, delegate) validity
      updatedBy } := by
  simp [sameAt_iff, hi]

theorem sameAt_update_attributeOf (hi : i ≠ identity) (id : Hash) (attr : Option Attribute) :
    SameAt i s { s with
      attributeOf := Function.update s.attributeOf (identity, id) attr
      updatedBy } := by
  simp [sameAt_iff, hi]

theorem sameAt_update_attribute (hi : i ≠ identity) (id : Hash) (attr : Option Attribute)
    (name : List UInt8) (nonce : ℕ) :
    SameAt i s { s with
      attributeOf := Function.update s.attributeOf (identity, id) attr
      attributeNonce := Function.update s.attributeNonce (identity, name) nonce
      updatedBy } := by
  simp [sameAt_iff, hi]

end Writes

section Entry

variable (cfg : Config AccountId Signature Hash) (env : Env AccountId E)

/-- What a call of the pallet can do: fail and write nothing, or, made by the
owner of its identity, change what that identity holds and nothing another
one holds; only `change_owner` writes `OwnerOf`. -/
theorem wp_entry (c : Entry AccountId Signature) (s : State AccountId Hash E) :
    Wp (c.apply cfg env)
      (fun _ s' => c.Authorized cfg s ∧ (∀ i, i ≠ c.identity → SameAt i s s') ∧
        (s'.ownerOf = s.ownerOf ∨ ∃ newOwner, c = .changeOwner c.origin c.identity newOwner))
      (fun _ s' => s' = s) s := by
  -- each call's spec gives its checks and its write, and the write is at keys
  -- of the call's identity
  cases c with
  | changeOwner o identity newOwner =>
      refine Wp.mono (wp_changeOwner env o identity newOwner s) ?_ (fun _ _ h => h)
      rintro _ s' ⟨ho, rfl⟩
      exact ⟨⟨ho, trivial⟩, fun i hi => sameAt_update_ownerOf hi _, .inr ⟨newOwner, rfl⟩⟩
  | addDelegate o identity delegate delegateType validFor =>
      refine Wp.mono (wp_addDelegate env o identity delegate delegateType validFor s) ?_
        (fun _ _ h => h)
      rintro _ s' ⟨ho, -, -, -, rfl⟩
      exact ⟨⟨ho, trivial⟩, fun i hi => sameAt_update_delegateOf hi _ _ _, .inl rfl⟩
  | revokeDelegate o identity delegateType delegate =>
      refine Wp.mono (wp_revokeDelegate env o identity delegateType delegate s) ?_
        (fun _ _ h => h)
      rintro _ s' ⟨ho, -, -, rfl⟩
      exact ⟨⟨ho, trivial⟩, fun i hi => sameAt_update_delegateOf hi _ _ _, .inl rfl⟩
  | addAttribute o identity name value validFor =>
      refine Wp.mono (wp_addAttribute cfg env o identity name value validFor s) ?_
        (fun _ _ h => h)
      rintro _ s' ⟨ho, -, -, -, -, rfl⟩
      exact ⟨⟨ho, trivial⟩, fun i hi => sameAt_update_attribute hi _ _ _ _, .inl rfl⟩
  | revokeAttribute o identity name =>
      refine Wp.mono (wp_revokeAttribute cfg env o identity name s) ?_ (fun _ _ h => h)
      rintro _ s' ⟨ho, -, -, attr, id, -, rfl⟩
      exact ⟨⟨ho, trivial⟩, fun i hi => sameAt_update_attributeOf hi _ _, .inl rfl⟩
  | deleteAttribute o identity name =>
      refine Wp.mono (wp_deleteAttribute cfg env o identity name s) ?_ (fun _ _ h => h)
      rintro _ s' ⟨ho, -, attr, id, -, rfl⟩
      exact ⟨⟨ho, trivial⟩, fun i hi => sameAt_update_attributeOf hi _ _, .inl rfl⟩
  | execute o transaction =>
      refine Wp.mono (wp_execute cfg env o transaction s) ?_ (fun _ _ h => h)
      rintro _ s' ⟨who, rfl, hsigner, hsignerOwner, -, hwrite⟩
      have hverify := verify_of_validSigner cfg env hsigner
      split_ifs at hwrite
      · obtain ⟨rfl, -, -, rfl⟩ := hwrite
        exact ⟨⟨rfl, hsignerOwner, hverify⟩, fun i hi => sameAt_update_attribute hi _ _ _ _,
          .inl rfl⟩
      · obtain ⟨rfl, attr, id, -, rfl⟩ := hwrite
        exact ⟨⟨rfl, hsignerOwner, hverify⟩, fun i hi => sameAt_update_attributeOf hi _ _,
          .inl rfl⟩

/-- For every state and every call, `OwnerOf[i]` changes only by a
`change_owner` of `i` signed by the owner of `i`, and an entry of
`DelegateOf`, `AttributeOf` or `AttributeNonce` keyed by `i` only by a call
on `i` made by the owner of `i`, at the time of the call. -/
theorem did_authority {s s' : State AccountId Hash E} {c : Entry AccountId Signature}
    (i : AccountId) (h : Leaves (c.apply cfg env) s s') :
    (s'.ownerOf i ≠ s.ownerOf i →
      ∃ newOwner, c = .changeOwner (.signed (identityOwner s i)) i newOwner) ∧
    (EntriesChanged i s s' → c.identity = i ∧ c.Authorized cfg s) := by
  have hpost := Leaves.of_wp (Wp.mono (wp_entry cfg env c s) (fun _ _ h => Or.inr h)
    (fun _ _ h => Or.inl h)) h
  rcases hpost with rfl | ⟨hauth, hothers, howner⟩
  · -- a failed call wrote nothing
    refine ⟨fun hne => absurd rfl hne, ?_⟩
    rintro (⟨_, _, hne⟩ | ⟨_, hne⟩ | ⟨_, hne⟩) <;> exact absurd rfl hne
  · -- what `i` holds changes only if `i` is the identity of the call
    have hidentity : ¬ SameAt i s s' → c.identity = i := fun hne =>
      by_contra fun hi => hne (hothers i (Ne.symm hi))
    constructor
    · intro hne
      have hid : c.identity = i := hidentity fun hsame => hne hsame.ownerOf
      rcases howner with heq | ⟨newOwner, hc⟩
      · exact absurd (congrFun heq i) hne
      · refine ⟨newOwner, ?_⟩
        rw [← hid, ← hauth.1]
        exact hc
    · intro hchanged
      refine ⟨hidentity fun hsame => ?_, hauth⟩
      rcases hchanged with ⟨t, d, hne⟩ | ⟨id, hne⟩ | ⟨name, hne⟩
      · exact hne (hsame.delegateOf t d)
      · exact hne (hsame.attributeOf id)
      · exact hne (hsame.attributeNonce name)

end Entry

/-- Account 1 hands identity 1 to account 2. -/
theorem did_authority_at_changeOwner :
    ((after ((didApply (.changeOwner (.signed 1) 1 2)).run didGenesis)).ownerOf 1 ≠
        didGenesis.ownerOf 1 →
      ∃ newOwner, (.changeOwner (.signed 1) 1 2 : Entry ℕ (ℕ × List UInt8)) =
        .changeOwner (.signed (identityOwner didGenesis 1)) 1 newOwner) ∧
    (EntriesChanged 1 didGenesis (after ((didApply (.changeOwner (.signed 1) 1 2)).run didGenesis)) →
      (Entry.changeOwner (.signed 1) 1 2 : Entry ℕ (ℕ × List UInt8)).identity = 1 ∧
        (Entry.changeOwner (.signed 1) 1 2 : Entry ℕ (ℕ × List UInt8)).Authorized didConfig
          didGenesis) :=
  did_authority didConfig didEnv 1 (.inl ⟨(), rfl⟩)

end SocialNetwork.Did
