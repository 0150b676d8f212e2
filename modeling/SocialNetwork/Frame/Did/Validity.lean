import SocialNetwork.Frame.Did.Attributes

/-!
# Validity windows of delegates and attributes

`add_delegate` and `add_attribute` store the block a delegate or an
attribute stays valid before: `now + valid_for`, or `u32::MAX` when no
period is given. `valid_listed_delegate` and `valid_attribute` accept it at
every block below that one. When `now + valid_for` fits in a `u32`, the
window is the `valid_for` blocks from now (`delegate_valid_window`,
`attribute_valid_window`); without a period it is every block below
`u32::MAX` (`delegate_valid_forever`).

The sum is not checked. A longer period wraps around, and the delegate it
creates has already expired when it is created (`delegate_expiry_wraps`).
-/

namespace SocialNetwork.Did

open Dispatch Unsigned

variable {AccountId Signature Hash E : Type} [DecidableEq AccountId] [DecidableEq Hash]

theorem validity_some_of_lt {n k : ℕ} (h : n + k < 2 ^ blockNumberBits) :
    validity n (some k) = n + k :=
  wrappingAdd_of_lt h

section Windows

variable (cfg : Config AccountId Signature Hash) (env : Env AccountId E)

omit [DecidableEq AccountId] [DecidableEq Hash] in
theorem validListedDelegate_eq_ok_iff {s : State AccountId Hash E} {identity delegate : AccountId}
    {delegateType : List UInt8} {v : ℕ} (h : s.delegateOf (identity, delegateType, delegate) = some v) :
    validListedDelegate env s identity delegateType delegate = .ok () ↔ env.blockNumber s.env < v := by
  unfold validListedDelegate
  rw [h]
  dsimp only
  split_ifs with hv
  · exact ⟨fun _ => hv, fun _ => rfl⟩
  · exact ⟨fun hok => (nomatch hok), fun hlt => absurd hlt hv⟩

omit [DecidableEq AccountId] [DecidableEq Hash] in
theorem validAttribute_eq_ok_iff {s : State AccountId Hash E} {identity : AccountId}
    {name value : List UInt8} (hname : name.length ≤ 64) {attr : Attribute} {id : Hash}
    (h : attributeAndId cfg s identity name = some (attr, id)) :
    validAttribute cfg env s identity name value = .ok () ↔
      env.blockNumber s.env < attr.validity ∧ attr.value = value := by
  unfold validAttribute
  rw [if_pos hname, h]
  dsimp only
  split_ifs with hv
  · exact ⟨fun _ => hv, fun _ => rfl⟩
  · exact ⟨fun hok => (nomatch hok), fun hlt => absurd hlt hv⟩

omit [DecidableEq AccountId] [DecidableEq Hash] in
theorem attributeAndId_congr {s t : State AccountId Hash E} (hattr : t.attributeOf = s.attributeOf)
    (hnonce : t.attributeNonce = s.attributeNonce) (identity : AccountId) (name : List UInt8) :
    attributeAndId cfg t identity name = attributeAndId cfg s identity name := by
  simp only [attributeAndId, currentId, hattr, hnonce]

omit [DecidableEq Hash] in
/-- After `add_delegate` returns `Ok`, the delegate is valid, at whatever
block and until it is changed, exactly below the validity computed from the
block it was added at. -/
theorem delegate_valid_below_validity {o : Origin AccountId} {identity delegate : AccountId}
    {delegateType : List UInt8} {validFor : Option ℕ} {s s' : State AccountId Hash E}
    (h : (addDelegate env o identity delegate delegateType validFor).run s = .ok () s')
    (t : State AccountId Hash E) (ht : t.delegateOf = s'.delegateOf) :
    validListedDelegate env t identity delegateType delegate = .ok () ↔
      env.blockNumber t.env < validity (env.blockNumber s.env) validFor := by
  obtain ⟨-, -, -, -, rfl⟩ := (wp_addDelegate env o identity delegate delegateType validFor s).of_ok h
  refine validListedDelegate_eq_ok_iff env ?_
  rw [ht]
  simp

omit [DecidableEq Hash] in
/-- With a period `k` that fits, the delegate is valid at exactly the blocks
below `now + k`. -/
theorem delegate_valid_window {o : Origin AccountId} {identity delegate : AccountId}
    {delegateType : List UInt8} {k : ℕ} {s s' : State AccountId Hash E}
    (h : (addDelegate env o identity delegate delegateType (some k)).run s = .ok () s')
    (hfits : env.blockNumber s.env + k < 2 ^ blockNumberBits)
    (t : State AccountId Hash E) (ht : t.delegateOf = s'.delegateOf) :
    validListedDelegate env t identity delegateType delegate = .ok () ↔
      env.blockNumber t.env < env.blockNumber s.env + k := by
  rw [delegate_valid_below_validity env h t ht, validity_some_of_lt hfits]

omit [DecidableEq Hash] in
theorem delegate_valid_forever {o : Origin AccountId} {identity delegate : AccountId}
    {delegateType : List UInt8} {s s' : State AccountId Hash E}
    (h : (addDelegate env o identity delegate delegateType none).run s = .ok () s')
    (t : State AccountId Hash E) (ht : t.delegateOf = s'.delegateOf) :
    validListedDelegate env t identity delegateType delegate = .ok () ↔
      env.blockNumber t.env < maxValue 32 :=
  delegate_valid_below_validity env h t ht

/-- The first attribute of a name, added with a period `k` that fits, is
valid with its value at exactly the blocks below `now + k`, until the name's
attributes change. -/
theorem attribute_valid_window {o : Origin AccountId} {identity : AccountId}
    {name value : List UInt8} {k : ℕ} {s s' : State AccountId Hash E}
    (h : (addAttribute cfg env o identity name value (some k)).run s = .ok () s')
    (hfirst : s.attributeNonce (identity, name) = 0)
    (hfits : env.blockNumber s.env + k < 2 ^ blockNumberBits)
    (t : State AccountId Hash E) (hattr : t.attributeOf = s'.attributeOf)
    (hnonce : t.attributeNonce = s'.attributeNonce) :
    validAttribute cfg env t identity name value = .ok () ↔
      env.blockNumber t.env < env.blockNumber s.env + k := by
  obtain ⟨-, hname, -⟩ := (wp_addAttribute cfg env o identity name value (some k) s).of_ok h
  have hfound := attributeAndId_after_first_addAttribute h hfirst
  rw [← attributeAndId_congr cfg hattr hnonce] at hfound
  rw [validAttribute_eq_ok_iff cfg env hname hfound, validity_some_of_lt hfits]
  simp

end Windows

/-- At block `1`, account `1` adds account `2` as a delegate of type `d`
for `u32::MAX` blocks. The call returns `Ok`, but `1 + u32::MAX` wraps to
`0`: the delegate is stored as valid before block `0`, and is not valid at
block `1`, the first block of the period it was added for. -/
theorem delegate_expiry_wraps :
    ∃ s', (didApply (.addDelegate (.signed 1) 1 2 [100] (some (maxValue 32)))).run didGenesis =
        .ok () s' ∧
      s'.delegateOf (1, [100], 2) = some 0 ∧
      didEnv.blockNumber s'.env = 1 ∧ 1 < 1 + maxValue 32 ∧
      validListedDelegate didEnv s' 1 [100] 2 = .error (.did .invalidDelegate) := by
  refine ⟨_, rfl, ?_, rfl, by decide, ?_⟩
  · decide
  · decide

end SocialNetwork.Did
