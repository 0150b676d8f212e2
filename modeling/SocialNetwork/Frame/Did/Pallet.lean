import SocialNetwork.Frame.Support

/-!
# `pallet_did`

`src/frame/did/src/lib.rs` keeps decentralised identifiers in the manner of
ERC-1056. An identity is an account, owned by itself until `change_owner`
names another owner (`OwnerOf`). The owner lists delegates for a purpose,
each valid up to a block (`DelegateOf`), and attributes: a name with a value
and a validity (`AttributeOf`). An attribute is stored under an id, the hash
of the identity, the name and a nonce, and `AttributeNonce` counts the
creations of each name. `execute` applies an attribute change signed
off-chain. `UpdatedBy` records who changed an identity last.

The hash of `(identity, name, nonce)`, the signature check and the SCALE
encodings belong to the runtime and are parameters here (`Config`); the
block number and the time are read through `Env`. The node runtime's
`BlockNumber` is a `u32`, added with wrap-around in a release build.
-/

namespace SocialNetwork.Did

open Dispatch Unsigned

/-- `Attribute<BlockNumber, Moment>`. -/
structure Attribute where
  name : List UInt8
  value : List UInt8
  validity : ℕ
  creation : ℕ
  nonce : ℕ
  deriving DecidableEq, Repr

/-- `AttributeTransaction<Signature, AccountId>`: an attribute change signed
off-chain by `signer`, for `identity`. -/
structure AttributeTransaction (Signature AccountId : Type) where
  signature : Signature
  name : List UInt8
  value : List UInt8
  validity : ℕ
  signer : AccountId
  identity : AccountId
  deriving DecidableEq, Repr

/-- What the runtime gives the pallet besides storage: the id of an attribute,
`(identity, name, nonce).using_encoded(blake2_256)`; `Signature::verify`; and
the SCALE encodings of `Vec<u8>`, `u32` and `AccountId` that `execute` builds
the signed message from. -/
structure Config (AccountId Signature Hash : Type) where
  attributeId : AccountId → List UInt8 → ℕ → Hash
  verify : Signature → List UInt8 → AccountId → Bool
  encodeBytes : List UInt8 → List UInt8
  encodeU32 : ℕ → List UInt8
  encodeAccountId : AccountId → List UInt8

/-- The storage of the pallet, and the runtime state it reads the block
number and the time from. `AttributeNonce` is a `ValueQuery` (a missing key
reads `0`); the other maps are `None` where the key is missing. -/
structure State (AccountId Hash E : Type) where
  delegateOf : AccountId × List UInt8 × AccountId → Option ℕ
  attributeOf : AccountId × Hash → Option Attribute
  attributeNonce : AccountId × List UInt8 → ℕ
  ownerOf : AccountId → Option AccountId
  updatedBy : AccountId → Option (AccountId × ℕ × ℕ)
  env : E

variable {AccountId Signature Hash E : Type} [DecidableEq AccountId] [DecidableEq Hash]

abbrev DidCall (AccountId Hash E : Type) := Call DispatchError (State AccountId Hash E)

section Queries

variable (cfg : Config AccountId Signature Hash) (env : Env AccountId E)

/-- `identity_owner`: the identity owns itself until `change_owner`. -/
def identityOwner (s : State AccountId Hash E) (identity : AccountId) : AccountId :=
  match s.ownerOf identity with
  | some id => id
  | none => identity

/-- `is_owner`. -/
def isOwner (s : State AccountId Hash E) (identity actualOwner : AccountId) :
    Except DispatchError Unit :=
  if identityOwner s identity = actualOwner then .ok () else .error (.did .notOwner)

/-- `valid_listed_delegate`: the delegate is listed for the purpose and valid
after the current block. -/
def validListedDelegate (s : State AccountId Hash E) (identity : AccountId)
    (delegateType : List UInt8) (delegate : AccountId) : Except DispatchError Unit :=
  match s.delegateOf (identity, delegateType, delegate) with
  | none => .error (.did .invalidDelegate)
  | some validity =>
      if validity > env.blockNumber s.env then .ok () else .error (.did .invalidDelegate)

/-- `valid_delegate`: a listed delegate, or the owner itself. -/
def validDelegate (s : State AccountId Hash E) (identity : AccountId) (delegateType : List UInt8)
    (delegate : AccountId) : Except DispatchError Unit :=
  if delegateType.length ≤ 64 then
    if (validListedDelegate env s identity delegateType delegate).isOk ||
        (isOwner s identity delegate).isOk then .ok ()
    else .error (.did .invalidDelegate)
  else .error (.did .invalidDelegate)

/-- `check_signature`. -/
def checkSignature (signature : Signature) (msg : List UInt8) (signer : AccountId) :
    Except DispatchError Unit :=
  if cfg.verify signature msg signer then .ok () else .error (.did .badSignature)

/-- The purpose `b"x25519VerificationKey2018"` of the delegates that may sign
off-chain. -/
def x25519VerificationKey2018 : List UInt8 :=
  "x25519VerificationKey2018".toList.map Char.toUInt8

/-- `valid_signer`: the owner or a signing delegate, with a good signature. -/
def validSigner (s : State AccountId Hash E) (identity : AccountId) (signature : Signature)
    (msg : List UInt8) (signer : AccountId) : Except DispatchError Unit := do
  validDelegate env s identity x25519VerificationKey2018 signer
  checkSignature cfg signature msg signer

/-- The nonce an attribute id is made with, from the name's count of
creations: `0` before the second creation, and the count less one after. -/
def lookupNonce (nonce : ℕ) : ℕ :=
  match nonce with
  | 0 => 0
  | _ => nonce - 1

/-- The id `create_attribute` and `attribute_and_id` both compute: the hash of
the identity, the name and the lookup nonce of `AttributeNonce`. -/
def currentId (s : State AccountId Hash E) (identity : AccountId) (name : List UInt8) : Hash :=
  cfg.attributeId identity name (lookupNonce (s.attributeNonce (identity, name)))

/-- `attribute_and_id`: the attribute stored under the current id of the
name, with that id. -/
def attributeAndId (s : State AccountId Hash E) (identity : AccountId) (name : List UInt8) :
    Option (Attribute × Hash) :=
  let id := currentId cfg s identity name
  match s.attributeOf (identity, id) with
  | some attr => some (attr, id)
  | none => none

/-- `valid_attribute`: the attribute of the name has this value and is
valid after the current block. -/
def validAttribute (s : State AccountId Hash E) (identity : AccountId) (name value : List UInt8) :
    Except DispatchError Unit :=
  if name.length ≤ 64 then
    match attributeAndId cfg s identity name with
    | none => .error (.did .invalidAttribute)
    | some (attr, _) =>
        if attr.validity > env.blockNumber s.env ∧ attr.value = value then .ok ()
        else .error (.did .invalidAttribute)
  else .error (.did .invalidAttribute)

/-- The last valid block of a delegate or an attribute created now:
`now + blocks`, or `u32::max_value()` when no period is given. -/
def validity (nowBlockNumber : ℕ) : Option ℕ → ℕ
  | some blocks => wrappingAdd blockNumberBits nowBlockNumber blocks
  | none => maxValue 32

/-- The message `execute` checks the signature against:
`name.encode() ++ value.encode() ++ validity.encode() ++ identity.encode()`. -/
def encodeTransaction (transaction : AttributeTransaction Signature AccountId) : List UInt8 :=
  cfg.encodeBytes transaction.name ++ cfg.encodeBytes transaction.value ++
    cfg.encodeU32 transaction.validity ++ cfg.encodeAccountId transaction.identity

end Queries

section Calls

variable (cfg : Config AccountId Signature Hash) (env : Env AccountId E)

/-- `UpdatedBy::insert(identity, (who, block_number, now))`, which closes every
call that changes an identity. -/
def insertUpdatedBy (who identity : AccountId) : DidCall AccountId Hash E Unit :=
  modify fun s => { s with
    updatedBy := Function.update s.updatedBy identity
      (some (who, env.blockNumber s.env, env.now s.env)) }

/-- `create_delegate`. -/
def createDelegate (who identity delegate : AccountId) (delegateType : List UInt8)
    (validFor : Option ℕ) : DidCall AccountId Hash E Unit := do
  let s ← get
  ofExcept (isOwner s identity who)
  ensure (who ≠ delegate) (.did .invalidDelegate)
  ensure ((validListedDelegate env s identity delegateType delegate).isOk = false)
    (.did .invalidDelegate)
  let validity := validity (env.blockNumber s.env) validFor
  modify fun s => { s with
    delegateOf := Function.update s.delegateOf (identity, delegateType, delegate) (some validity) }

/-- `create_attribute`: the attribute is stored under the current id of the
name, which must be free, and the name's nonce goes up by one. -/
def createAttribute (who identity : AccountId) (name value : List UInt8) (validFor : Option ℕ) :
    DidCall AccountId Hash E Unit := do
  let s ← get
  ofExcept (isOwner s identity who)
  let nonce := s.attributeNonce (identity, name)
  let validity := validity (env.blockNumber s.env) validFor
  let id := currentId cfg s identity name
  ensure (s.attributeOf (identity, id) = none) (.did .attributeCreationFailed)
  let newAttribute : Attribute :=
    { name, value, validity, creation := env.now s.env, nonce }
  let nonce ← okOr (checkedAdd 64 nonce 1) (.did .overflow)
  modify fun s => { s with
    attributeOf := Function.update s.attributeOf (identity, id) (some newAttribute)
    attributeNonce := Function.update s.attributeNonce (identity, name) nonce }
  insertUpdatedBy env who identity

/-- `reset_attribute`: the attribute found by `attribute_and_id` expires at the
current block. -/
def resetAttribute (who identity : AccountId) (name : List UInt8) :
    DidCall AccountId Hash E Unit := do
  let s ← get
  ofExcept (isOwner s identity who)
  match attributeAndId cfg s identity name with
  | some (attr, id) =>
      modify fun s => { s with
        attributeOf := Function.update s.attributeOf (identity, id)
          (some { attr with validity := env.blockNumber s.env }) }
  | none => fail (.did .attributeResetFailed)
  insertUpdatedBy env who identity

/-- `signed_attribute`: the signer is the owner or a signing delegate with a
good signature, and then must be the owner as well. A transaction with a
validity period creates the attribute, one without resets it. -/
def signedAttribute (who : AccountId) (encoded : List UInt8)
    (transaction : AttributeTransaction Signature AccountId) : DidCall AccountId Hash E Unit := do
  let s ← get
  ofExcept (validSigner cfg env s transaction.identity transaction.signature encoded
    transaction.signer)
  ofExcept (isOwner s transaction.identity transaction.signer)
  ensure (transaction.name.length ≤ 64) (.did .badTransaction)
  let nowBlockNumber := env.blockNumber s.env
  let validity := wrappingAdd blockNumberBits nowBlockNumber transaction.validity
  if validity > nowBlockNumber then
    createAttribute cfg env who transaction.identity transaction.name transaction.value
      (some transaction.validity)
  else
    resetAttribute cfg env who transaction.identity transaction.name

/-- `change_owner`. -/
def changeOwner (origin : Origin AccountId) (identity newOwner : AccountId) :
    DidCall AccountId Hash E Unit := do
  let who ← ensureSigned origin
  let s ← get
  ofExcept (isOwner s identity who)
  -- `OwnerOf::mutate` when the key is there and `OwnerOf::insert` when not:
  -- both store `new_owner`
  modify fun s => { s with ownerOf := Function.update s.ownerOf identity (some newOwner) }
  insertUpdatedBy env who identity

/-- `add_delegate`. -/
def addDelegate (origin : Origin AccountId) (identity delegate : AccountId)
    (delegateType : List UInt8) (validFor : Option ℕ) : DidCall AccountId Hash E Unit := do
  let who ← ensureSigned origin
  ensure (delegateType.length ≤ 64) (.did .invalidDelegate)
  createDelegate env who identity delegate delegateType validFor
  insertUpdatedBy env who identity

/-- `revoke_delegate`: the delegate expires at the current block. -/
def revokeDelegate (origin : Origin AccountId) (identity : AccountId) (delegateType : List UInt8)
    (delegate : AccountId) : DidCall AccountId Hash E Unit := do
  let who ← ensureSigned origin
  let s ← get
  ofExcept (isOwner s identity who)
  ofExcept (validListedDelegate env s identity delegateType delegate)
  ensure (delegateType.length ≤ 64) (.did .invalidDelegate)
  let nowBlockNumber := env.blockNumber s.env
  modify fun s => { s with
    delegateOf := Function.update s.delegateOf (identity, delegateType, delegate)
      (some nowBlockNumber) }
  insertUpdatedBy env who identity

/-- `add_attribute`. -/
def addAttribute (origin : Origin AccountId) (identity : AccountId) (name value : List UInt8)
    (validFor : Option ℕ) : DidCall AccountId Hash E Unit := do
  let who ← ensureSigned origin
  ensure (name.length ≤ 64) (.did .attributeCreationFailed)
  createAttribute cfg env who identity name value validFor

/-- `revoke_attribute`. -/
def revokeAttribute (origin : Origin AccountId) (identity : AccountId) (name : List UInt8) :
    DidCall AccountId Hash E Unit := do
  let who ← ensureSigned origin
  ensure (name.length ≤ 64) (.did .attributeRemovalFailed)
  resetAttribute cfg env who identity name

/-- `delete_attribute`: the attribute found by `attribute_and_id` is removed. -/
def deleteAttribute (origin : Origin AccountId) (identity : AccountId) (name : List UInt8) :
    DidCall AccountId Hash E Unit := do
  let who ← ensureSigned origin
  let s ← get
  ofExcept (isOwner s identity who)
  ensure (name.length ≤ 64) (.did .attributeRemovalFailed)
  match attributeAndId cfg s identity name with
  | some (_, id) =>
      modify fun s => { s with attributeOf := Function.update s.attributeOf (identity, id) none }
  | none => fail (.did .attributeRemovalFailed)
  insertUpdatedBy env who identity

/-- `execute`: an attribute change signed off-chain, submitted by `origin`. -/
def execute (origin : Origin AccountId) (transaction : AttributeTransaction Signature AccountId) :
    DidCall AccountId Hash E Unit := do
  let who ← ensureSigned origin
  signedAttribute cfg env who (encodeTransaction cfg transaction) transaction

end Calls

section Specs

/-! ## What each call does

One lemma per call: when it returns `Ok`, the checks that passed and the
state it wrote; when it returns `Err`, the state it started from, since no
call of the pallet writes before its last check. -/

variable (cfg : Config AccountId Signature Hash) (env : Env AccountId E)
  {Q : Unit → State AccountId Hash E → Prop} {R : DispatchError → State AccountId Hash E → Prop}

omit [DecidableEq Hash] in
theorem isOwner_eq_ok_iff {s : State AccountId Hash E} {identity who : AccountId} :
    isOwner s identity who = .ok () ↔ identityOwner s identity = who := by
  unfold isOwner
  split_ifs with h <;> simp [h]

omit [DecidableEq Hash] in
theorem wp_isOwner_bind {α : Type} {Q : α → State AccountId Hash E → Prop}
    {k : Unit → DidCall AccountId Hash E α} {s : State AccountId Hash E} {identity who : AccountId}
    (hok : identityOwner s identity = who → Wp (k ()) Q R s) (herr : R (.did .notOwner) s) :
    Wp (ofExcept (isOwner s identity who) >>= k) Q R s := by
  refine wp_ofExcept_bind (fun _ h => hok (isOwner_eq_ok_iff.1 h)) (fun e h => ?_)
  unfold isOwner at h
  split_ifs at h
  cases h
  exact herr

omit [DecidableEq Hash] in
theorem verify_of_validSigner {s : State AccountId Hash E} {identity signer : AccountId}
    {signature : Signature} {msg : List UInt8}
    (h : validSigner cfg env s identity signature msg signer = .ok ()) :
    cfg.verify signature msg signer = true := by
  unfold validSigner at h
  cases hdelegate : validDelegate env s identity x25519VerificationKey2018 signer with
  | error e => simp [hdelegate] at h; cases h
  | ok u =>
      simp only [hdelegate, checkSignature] at h
      split_ifs at h with hverify
      · exact hverify
      · cases h

theorem lookupNonce_eq (nonce : ℕ) : lookupNonce nonce = nonce - 1 := by
  cases nonce <;> rfl

/-- What a `create_attribute` that returned `Ok` from `s` checked, and the
state `s'` it wrote. -/
structure Created (s : State AccountId Hash E) (who identity : AccountId)
    (name value : List UInt8) (validFor : Option ℕ) (s' : State AccountId Hash E) : Prop where
  owner : identityOwner s identity = who
  free : s.attributeOf (identity, currentId cfg s identity name) = none
  nonce_lt : s.attributeNonce (identity, name) + 1 ≤ maxValue 64
  write : s' = { s with
    attributeOf := Function.update s.attributeOf (identity, currentId cfg s identity name)
      (some
        { name, value, validity := validity (env.blockNumber s.env) validFor,
          creation := env.now s.env, nonce := s.attributeNonce (identity, name) })
    attributeNonce := Function.update s.attributeNonce (identity, name)
      (s.attributeNonce (identity, name) + 1)
    updatedBy := Function.update s.updatedBy identity
      (some (who, env.blockNumber s.env, env.now s.env)) }

/-- What a `reset_attribute` that returned `Ok` from `s` checked, and the
state `s'` it wrote. -/
structure Reset (s : State AccountId Hash E) (who identity : AccountId) (name : List UInt8)
    (s' : State AccountId Hash E) : Prop where
  owner : identityOwner s identity = who
  write : ∃ attr id, attributeAndId cfg s identity name = some (attr, id) ∧
    s' = { s with
      attributeOf := Function.update s.attributeOf (identity, id)
        (some { attr with validity := env.blockNumber s.env })
      updatedBy := Function.update s.updatedBy identity
        (some (who, env.blockNumber s.env, env.now s.env)) }

theorem wp_createAttribute (who identity : AccountId) (name value : List UInt8)
    (validFor : Option ℕ) (s : State AccountId Hash E) :
    Wp (createAttribute cfg env who identity name value validFor)
      (fun _ s' => Created cfg env s who identity name value validFor s')
      (fun _ s' => s' = s) s := by
  unfold createAttribute insertUpdatedBy
  rw [wp_bind, wp_get]
  refine wp_isOwner_bind (fun hown => ?_) ?_
  · -- a taken id returns before the nonce is checked; both errors write nothing
    simp only [wp_bind, wp_ensure]
    split_ifs with hfree
    cases hadd : checkedAdd 64 (s.attributeNonce (identity, name)) 1 with
    | none => exact rfl
    | some nonce =>
        obtain ⟨hle, rfl⟩ := checkedAdd_eq_some_iff.1 hadd
        exact ⟨hown, hfree, hle, rfl⟩
  · exact rfl

omit [DecidableEq Hash] in
theorem wp_createDelegate (who identity delegate : AccountId) (delegateType : List UInt8)
    (validFor : Option ℕ) (s : State AccountId Hash E) :
    Wp (createDelegate env who identity delegate delegateType validFor)
      (fun _ s' => identityOwner s identity = who ∧ who ≠ delegate ∧
        (validListedDelegate env s identity delegateType delegate).isOk = false ∧
        s' = { s with
          delegateOf := Function.update s.delegateOf (identity, delegateType, delegate)
            (some (validity (env.blockNumber s.env) validFor)) })
      (fun _ s' => s' = s) s := by
  unfold createDelegate
  rw [wp_bind, wp_get]
  refine wp_isOwner_bind (fun hown => ?_) ?_
  · simp only [wp_bind, wp_ensure]
    split_ifs with hne hlisted
    exact ⟨hown, hne, hlisted, rfl⟩
  · exact rfl

theorem wp_resetAttribute (who identity : AccountId) (name : List UInt8)
    (s : State AccountId Hash E) :
    Wp (resetAttribute cfg env who identity name)
      (fun _ s' => Reset cfg env s who identity name s') (fun _ s' => s' = s) s := by
  unfold resetAttribute insertUpdatedBy
  rw [wp_bind, wp_get]
  refine wp_isOwner_bind (fun hown => ?_) ?_
  · cases hfound : attributeAndId cfg s identity name with
    | none => simp only [wp_bind, wp_fail]
    | some found =>
        obtain ⟨attr, id⟩ := found
        simp only [wp_bind, wp_modify]
        exact ⟨hown, attr, id, hfound, rfl⟩
  · exact rfl

omit [DecidableEq Hash] in
theorem wp_changeOwner (o : Origin AccountId) (identity newOwner : AccountId)
    (s : State AccountId Hash E) :
    Wp (changeOwner env o identity newOwner)
      (fun _ s' => o = .signed (identityOwner s identity) ∧
        s' = { s with
          ownerOf := Function.update s.ownerOf identity (some newOwner)
          updatedBy := Function.update s.updatedBy identity
            (some (identityOwner s identity, env.blockNumber s.env, env.now s.env)) })
      (fun _ s' => s' = s) s := by
  unfold changeOwner insertUpdatedBy
  refine wp_ensureSigned_bind_signed (fun who ho => ?_) rfl
  rw [wp_bind, wp_get]
  refine wp_isOwner_bind (fun hown => ?_) ?_
  · subst hown
    exact ⟨ho, rfl⟩
  · exact rfl

omit [DecidableEq Hash] in
theorem wp_addDelegate (o : Origin AccountId) (identity delegate : AccountId)
    (delegateType : List UInt8) (validFor : Option ℕ) (s : State AccountId Hash E) :
    Wp (addDelegate env o identity delegate delegateType validFor)
      (fun _ s' => o = .signed (identityOwner s identity) ∧ delegateType.length ≤ 64 ∧
        identityOwner s identity ≠ delegate ∧
        (validListedDelegate env s identity delegateType delegate).isOk = false ∧
        s' = { s with
          delegateOf := Function.update s.delegateOf (identity, delegateType, delegate)
            (some (validity (env.blockNumber s.env) validFor))
          updatedBy := Function.update s.updatedBy identity
            (some (identityOwner s identity, env.blockNumber s.env, env.now s.env)) })
      (fun _ s' => s' = s) s := by
  unfold addDelegate insertUpdatedBy
  refine wp_ensureSigned_bind_signed (fun who ho => ?_) rfl
  refine wp_ensure_bind (fun hlength => ?_) (fun _ => rfl)
  rw [wp_bind]
  refine Wp.mono (wp_createDelegate env who identity delegate delegateType validFor s)
    (fun _ s' hcreated => ?_) (fun _ _ h => h)
  obtain ⟨rfl, hne, hlisted, rfl⟩ := hcreated
  exact ⟨ho, hlength, hne, hlisted, rfl⟩

omit [DecidableEq Hash] in
theorem wp_revokeDelegate (o : Origin AccountId) (identity : AccountId)
    (delegateType : List UInt8) (delegate : AccountId) (s : State AccountId Hash E) :
    Wp (revokeDelegate env o identity delegateType delegate)
      (fun _ s' => o = .signed (identityOwner s identity) ∧
        validListedDelegate env s identity delegateType delegate = .ok () ∧
        delegateType.length ≤ 64 ∧
        s' = { s with
          delegateOf := Function.update s.delegateOf (identity, delegateType, delegate)
            (some (env.blockNumber s.env))
          updatedBy := Function.update s.updatedBy identity
            (some (identityOwner s identity, env.blockNumber s.env, env.now s.env)) })
      (fun _ s' => s' = s) s := by
  unfold revokeDelegate insertUpdatedBy
  refine wp_ensureSigned_bind_signed (fun who ho => ?_) rfl
  rw [wp_bind, wp_get]
  refine wp_isOwner_bind (fun hown => ?_) ?_
  · subst hown
    refine wp_ofExcept_bind (fun _ hlisted => ?_) (fun _ _ => rfl)
    refine wp_ensure_bind (fun hlength => ?_) (fun _ => rfl)
    exact ⟨ho, hlisted, hlength, rfl⟩
  · exact rfl

theorem wp_deleteAttribute (o : Origin AccountId) (identity : AccountId) (name : List UInt8)
    (s : State AccountId Hash E) :
    Wp (deleteAttribute cfg env o identity name)
      (fun _ s' => o = .signed (identityOwner s identity) ∧ name.length ≤ 64 ∧
        ∃ attr id, attributeAndId cfg s identity name = some (attr, id) ∧
          s' = { s with
            attributeOf := Function.update s.attributeOf (identity, id) none
            updatedBy := Function.update s.updatedBy identity
              (some (identityOwner s identity, env.blockNumber s.env, env.now s.env)) })
      (fun _ s' => s' = s) s := by
  unfold deleteAttribute insertUpdatedBy
  refine wp_ensureSigned_bind_signed (fun who ho => ?_) rfl
  rw [wp_bind, wp_get]
  refine wp_isOwner_bind (fun hown => ?_) ?_
  · subst hown
    refine wp_ensure_bind (fun hlength => ?_) (fun _ => rfl)
    cases hfound : attributeAndId cfg s identity name with
    | none => simp only [wp_bind, wp_fail]
    | some found =>
        obtain ⟨attr, id⟩ := found
        simp only [wp_bind, wp_modify]
        exact ⟨ho, hlength, attr, id, rfl, rfl⟩
  · exact rfl

theorem wp_addAttribute (o : Origin AccountId) (identity : AccountId) (name value : List UInt8)
    (validFor : Option ℕ) (s : State AccountId Hash E) :
    Wp (addAttribute cfg env o identity name value validFor)
      (fun _ s' => o = .signed (identityOwner s identity) ∧ name.length ≤ 64 ∧
        Created cfg env s (identityOwner s identity) identity name value validFor s')
      (fun _ s' => s' = s) s := by
  unfold addAttribute
  refine wp_ensureSigned_bind_signed (fun who ho => ?_) rfl
  refine wp_ensure_bind (fun hlength => ?_) (fun _ => rfl)
  refine Wp.mono (wp_createAttribute cfg env who identity name value validFor s)
    (fun _ s' hcreated => ?_) (fun _ _ h => h)
  obtain rfl := hcreated.owner
  exact ⟨ho, hlength, hcreated⟩

theorem wp_revokeAttribute (o : Origin AccountId) (identity : AccountId) (name : List UInt8)
    (s : State AccountId Hash E) :
    Wp (revokeAttribute cfg env o identity name)
      (fun _ s' => o = .signed (identityOwner s identity) ∧ name.length ≤ 64 ∧
        Reset cfg env s (identityOwner s identity) identity name s')
      (fun _ s' => s' = s) s := by
  unfold revokeAttribute
  refine wp_ensureSigned_bind_signed (fun who ho => ?_) rfl
  refine wp_ensure_bind (fun hlength => ?_) (fun _ => rfl)
  refine Wp.mono (wp_resetAttribute cfg env who identity name s)
    (fun _ s' hreset => ?_) (fun _ _ h => h)
  obtain rfl := hreset.owner
  exact ⟨ho, hlength, hreset⟩

theorem wp_execute (o : Origin AccountId) (transaction : AttributeTransaction Signature AccountId)
    (s : State AccountId Hash E) :
    Wp (execute cfg env o transaction)
      (fun _ s' => ∃ who, o = .signed who ∧
        validSigner cfg env s transaction.identity transaction.signature
          (encodeTransaction cfg transaction) transaction.signer = .ok () ∧
        transaction.signer = identityOwner s transaction.identity ∧
        transaction.name.length ≤ 64 ∧
        if env.blockNumber s.env <
            wrappingAdd blockNumberBits (env.blockNumber s.env) transaction.validity then
          Created cfg env s who transaction.identity transaction.name transaction.value
            (some transaction.validity) s'
        else Reset cfg env s who transaction.identity transaction.name s')
      (fun _ s' => s' = s) s := by
  unfold execute signedAttribute
  refine wp_ensureSigned_bind_signed (fun who ho => ?_) rfl
  rw [wp_bind, wp_get]
  refine wp_ofExcept_bind (fun _ hsigner => ?_) (fun _ _ => rfl)
  refine wp_isOwner_bind (fun hown => ?_) ?_
  · refine wp_ensure_bind (fun hlength => ?_) (fun _ => rfl)
    -- a validity period that wraps to the current block or before resets
    dsimp only
    split_ifs with hperiod
    · exact Wp.mono (wp_createAttribute cfg env who _ _ _ _ s)
        (fun _ _ h => ⟨who, ho, hsigner, hown.symm, hlength, by simpa [hperiod] using h⟩)
        (fun _ _ h => h)
    · exact Wp.mono (wp_resetAttribute cfg env who _ _ s)
        (fun _ _ h => ⟨who, ho, hsigner, hown.symm, hlength, by simpa [hperiod] using h⟩)
        (fun _ _ h => h)
  · exact rfl

end Specs

/-- The calls of the pallet. -/
inductive Entry (AccountId Signature : Type) where
  | changeOwner (origin : Origin AccountId) (identity newOwner : AccountId)
  | addDelegate (origin : Origin AccountId) (identity delegate : AccountId)
      (delegateType : List UInt8) (validFor : Option ℕ)
  | revokeDelegate (origin : Origin AccountId) (identity : AccountId) (delegateType : List UInt8)
      (delegate : AccountId)
  | addAttribute (origin : Origin AccountId) (identity : AccountId) (name value : List UInt8)
      (validFor : Option ℕ)
  | revokeAttribute (origin : Origin AccountId) (identity : AccountId) (name : List UInt8)
  | deleteAttribute (origin : Origin AccountId) (identity : AccountId) (name : List UInt8)
  | execute (origin : Origin AccountId) (transaction : AttributeTransaction Signature AccountId)

/-- Run a call. -/
def Entry.apply (cfg : Config AccountId Signature Hash) (env : Env AccountId E) :
    Entry AccountId Signature → DidCall AccountId Hash E Unit
  | .changeOwner o identity newOwner => Did.changeOwner env o identity newOwner
  | .addDelegate o identity delegate delegateType validFor =>
      Did.addDelegate env o identity delegate delegateType validFor
  | .revokeDelegate o identity delegateType delegate =>
      Did.revokeDelegate env o identity delegateType delegate
  | .addAttribute o identity name value validFor =>
      Did.addAttribute cfg env o identity name value validFor
  | .revokeAttribute o identity name => Did.revokeAttribute cfg env o identity name
  | .deleteAttribute o identity name => Did.deleteAttribute cfg env o identity name
  | .execute o transaction => Did.execute cfg env o transaction

/-! ## A runtime of this development to run the pallet on

Not the pallet's `mock.rs`, but parameters and a state chosen here. Accounts
are numbers. The id of an attribute is the triple it is hashed from, so that
ids never collide; a signature is the signer with the message it signed; a
byte string is encoded with its length in front. The chain is at block 1 and
holds no identity data. -/

def didConfig : Config ℕ (ℕ × List UInt8) (ℕ × List UInt8 × ℕ) where
  attributeId identity name nonce := (identity, name, nonce)
  verify signature msg signer := decide (signature = (signer, msg))
  encodeBytes bytes := bytes.length.toUInt8 :: bytes
  encodeU32 n := [n.toUInt8]
  encodeAccountId who := [who.toUInt8]

def didEnv : Env ℕ (Ledger ℕ) := Ledger.env 1

/-- This development's chain state, not one of the pallet's tests: block 1,
no identity data. -/
def didGenesis : State ℕ (ℕ × List UInt8 × ℕ) (Ledger ℕ) where
  delegateOf _ := none
  attributeOf _ := none
  attributeNonce _ := 0
  ownerOf _ := none
  updatedBy _ := none
  env :=
    { free := fun _ => 0, reserved := fun _ => 0, providers := fun _ => 1,
      consumers := fun _ => 0, blockNumber := 1, now := 0 }

abbrev didApply : Entry ℕ (ℕ × List UInt8) → DidCall ℕ (ℕ × List UInt8 × ℕ) (Ledger ℕ) Unit :=
  Entry.apply didConfig didEnv

end SocialNetwork.Did
