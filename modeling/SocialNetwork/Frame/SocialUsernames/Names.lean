import SocialNetwork.Frame.SocialUsernames.Pallet

/-!
# Names and accounts stay paired

`RegistrationOf` and `Account` are written together by `register`,
`unregister` and `kill_username`, and `RegistrationOf` alone by
`provide_judgement`, which keeps the account of the registration it
rewrites. `Names` is what they keep together in every reachable state. The
two maps are inverse: a name's registration records an account whose entry
is that name, and an account's entry is a name registered to it. Every
registered name passes `validate_username`. The judgements of a registration
are strictly ordered by registrar index, and each comes from a registrar in
`Registrars`, which only grows.
-/

namespace SocialNetwork.SocialUsernames

open Dispatch BinarySearch StorageMap

variable {AccountId : Type} [DecidableEq AccountId] (T : Config AccountId)

/-- The registry's bookkeeping. -/
structure Names (s : State AccountId) : Prop where
  account_of_registration : ∀ u r, s.registrationOf.lookup u = some r →
    s.account.lookup r.accountId = some u
  registration_of_account : ∀ a u, s.account.lookup a = some u →
    ∃ r, s.registrationOf.lookup u = some r ∧ r.accountId = a
  valid : ∀ u ∈ s.registrationOf, validateUsername T u = .ok ()
  sorted : ∀ u r, s.registrationOf.lookup u = some r → r.judgements.Pairwise (fun a b => a.1 < b.1)
  registrar_of_judgement : ∀ u r, s.registrationOf.lookup u = some r → ∀ j ∈ r.judgements,
    ∃ a, s.registrars[j.1]? = some (some a)

variable {T} {s : State AccountId}

theorem Names.account_eq_some_iff (hs : Names T s) {a : AccountId} {u : List UInt8} :
    s.account.lookup a = some u ↔ ∃ r, s.registrationOf.lookup u = some r ∧ r.accountId = a := by
  constructor
  · exact hs.registration_of_account a u
  · rintro ⟨r, hr, rfl⟩
    exact hs.account_of_registration u r hr

theorem names_empty : Names T (State.empty : State AccountId) where
  account_of_registration _ _ h := by simp [State.empty] at h
  registration_of_account _ _ h := by simp [State.empty] at h
  valid _ h := absurd h Finmap.notMem_empty
  sorted _ _ h := by simp [State.empty] at h
  registrar_of_judgement _ _ h := by simp [State.empty] at h

/-! ## The writes -/

section Writes

variable {u : List UInt8} {r : Registration AccountId}

theorem Names.addRegistrar (hs : Names T s) (account : AccountId) :
    Names T { s with registrars := s.registrars ++ [some account] } := by
  refine ⟨hs.account_of_registration, hs.registration_of_account, hs.valid, hs.sorted, ?_⟩
  intro u r hr j hj
  obtain ⟨a, ha⟩ := hs.registrar_of_judgement u r hr j hj
  have hlt : j.1 < s.registrars.length := (List.getElem?_eq_some_iff.mp ha).1
  exact ⟨a, by rw [List.getElem?_append_left hlt, ha]⟩

theorem Names.register (hs : Names T s) (hu : u ∉ s.registrationOf) {a : AccountId}
    (ha : a ∉ s.account) (hvalid : validateUsername T u = .ok ()) {i : RegistrarIndex}
    (hreg : ∃ x, s.registrars[i]? = some (some x)) :
    Names T { s with
      registrationOf := s.registrationOf.insert u { judgements := [(i, .requested)], accountId := a }
      account := s.account.insert a u } := by
  refine ⟨?_, ?_, ?_, ?_, ?_⟩
  · intro u' r' h
    by_cases hu' : u' = u
    · subst hu'
      rw [Finmap.lookup_insert] at h
      cases h
      exact Finmap.lookup_insert _
    · rw [Finmap.lookup_insert_of_ne _ hu'] at h
      -- an old registration's account has an entry, and `a` has none
      have hold := hs.account_of_registration u' r' h
      have hne : r'.accountId ≠ a := fun he => ha (he ▸ Finmap.mem_of_lookup_eq_some hold)
      rw [Finmap.lookup_insert_of_ne _ hne]
      exact hold
  · intro a' u' h
    by_cases ha' : a' = a
    · subst ha'
      rw [Finmap.lookup_insert] at h
      cases h
      exact ⟨_, Finmap.lookup_insert _, rfl⟩
    · rw [Finmap.lookup_insert_of_ne _ ha'] at h
      obtain ⟨r', hr', hacc⟩ := hs.registration_of_account a' u' h
      have hne : u' ≠ u := fun he => hu (he ▸ Finmap.mem_of_lookup_eq_some hr')
      exact ⟨r', by rw [Finmap.lookup_insert_of_ne _ hne]; exact hr', hacc⟩
  · intro u' h
    rcases Finmap.mem_insert.mp h with rfl | h
    · exact hvalid
    · exact hs.valid u' h
  · intro u' r' h
    by_cases hu' : u' = u
    · subst hu'
      rw [Finmap.lookup_insert] at h
      cases h
      exact List.pairwise_singleton _ _
    · rw [Finmap.lookup_insert_of_ne _ hu'] at h
      exact hs.sorted u' r' h
  · intro u' r' h j hj
    by_cases hu' : u' = u
    · subst hu'
      rw [Finmap.lookup_insert] at h
      cases h
      rw [List.mem_singleton.mp hj]
      exact hreg
    · rw [Finmap.lookup_insert_of_ne _ hu'] at h
      exact hs.registrar_of_judgement u' r' h j hj

/-- `unregister` and `kill_username` remove a name's registration and its
account's entry. -/
theorem Names.erase (hs : Names T s) (hr : s.registrationOf.lookup u = some r) :
    Names T { s with
      registrationOf := s.registrationOf.erase u
      account := s.account.erase r.accountId } := by
  have hacc := hs.account_of_registration u r hr
  refine ⟨?_, ?_, ?_, ?_, ?_⟩
  · intro u' r' h
    obtain ⟨hu', h⟩ := lookup_erase_eq_some.mp h
    have hold := hs.account_of_registration u' r' h
    -- the account of another name is not the removed one, which maps to `u`
    have hne : r'.accountId ≠ r.accountId := by
      intro he
      rw [he, hacc] at hold
      exact hu' (Option.some_injective _ hold).symm
    rw [lookup_erase_eq_some]
    exact ⟨hne, hold⟩
  · intro a u' h
    obtain ⟨ha, h⟩ := lookup_erase_eq_some.mp h
    obtain ⟨r', hr', rfl⟩ := hs.registration_of_account a u' h
    have hne : u' ≠ u := by
      rintro rfl
      rw [hr] at hr'
      cases hr'
      exact ha rfl
    exact ⟨r', lookup_erase_eq_some.mpr ⟨hne, hr'⟩, rfl⟩
  · intro u' h
    exact hs.valid u' (Finmap.mem_erase.mp h).2
  · intro u' r' h
    exact hs.sorted u' r' (lookup_erase_eq_some.mp h).2
  · intro u' r' h
    exact hs.registrar_of_judgement u' r' (lookup_erase_eq_some.mp h).2

/-- `provide_judgement`'s write: the registration keeps its account, and the
judgement of an existing registrar goes in through the sorted update. -/
theorem Names.judge (hs : Names T s) (hr : s.registrationOf.lookup u = some r)
    {i : RegistrarIndex} (hreg : ∃ x, s.registrars[i]? = some (some x)) (judgement : Judgement) :
    Names T { s with
      registrationOf := s.registrationOf.insert u
        { r with judgements := upsertByKey Prod.fst r.judgements (i, judgement) } } := by
  refine ⟨?_, ?_, ?_, ?_, ?_⟩
  · intro u' r' h
    by_cases hu' : u' = u
    · subst hu'
      rw [Finmap.lookup_insert] at h
      cases h
      exact hs.account_of_registration u' r hr
    · rw [Finmap.lookup_insert_of_ne _ hu'] at h
      exact hs.account_of_registration u' r' h
  · intro a u' h
    obtain ⟨r', hr', hacc⟩ := hs.registration_of_account a u' h
    by_cases hu' : u' = u
    · subst hu'
      rw [hr] at hr'
      cases hr'
      exact ⟨_, Finmap.lookup_insert _, hacc⟩
    · exact ⟨r', by rw [Finmap.lookup_insert_of_ne _ hu']; exact hr', hacc⟩
  · intro u' h
    rcases Finmap.mem_insert.mp h with rfl | h
    · exact hs.valid u' (Finmap.mem_of_lookup_eq_some hr)
    · exact hs.valid u' h
  · intro u' r' h
    by_cases hu' : u' = u
    · subst hu'
      rw [Finmap.lookup_insert] at h
      cases h
      exact pairwise_upsertByKey (hs.sorted u' r hr) _
    · rw [Finmap.lookup_insert_of_ne _ hu'] at h
      exact hs.sorted u' r' h
  · intro u' r' h j hj
    by_cases hu' : u' = u
    · subst hu'
      rw [Finmap.lookup_insert] at h
      cases h
      -- the new judgement is the registrar's own; the others were there
      rcases eq_or_mem_of_mem_upsertByKey hj with rfl | hj
      · exact hreg
      · exact hs.registrar_of_judgement u' r hr j hj
    · rw [Finmap.lookup_insert_of_ne _ hu'] at h
      exact hs.registrar_of_judgement u' r' h j hj

end Writes

/-! ## Every call keeps the registry -/

section Calls

variable (T)

theorem addRegistrar_names (hs : Names T s) (origin : Origin AccountId) (account : AccountId) :
    Wp (addRegistrar T origin account) (fun _ => Names T) (fun _ => Names T) s := by
  unfold addRegistrar
  refine wp_ensure_bind (fun _ => ?_) (fun _ => hs)
  rw [wp_bind, wp_get]
  exact wp_ensure_bind (fun _ => hs.addRegistrar account) (fun _ => hs)

theorem register_names (hs : Names T s) (origin : Origin AccountId) (username : List UInt8)
    (regIndex : RegistrarIndex) :
    Wp (register T origin username regIndex) (fun _ => Names T) (fun _ => Names T) s := by
  unfold register
  refine wp_ensureSigned_bind (fun sender => ?_) hs
  refine wp_ofExcept_bind (fun _ hvalid => ?_) (fun _ _ => hs)
  rw [wp_bind, wp_get]
  refine wp_ensure_bind (fun hu => ?_) (fun _ => hs)
  refine wp_ensure_bind (fun ha => ?_) (fun _ => hs)
  rw [wp_bind]
  cases hreg : (s.registrars[regIndex]?).join with
  | none => exact hs
  | some x =>
      simp only [wp_okOr_some, wp_bind, wp_modify]
      exact hs.register hu ha hvalid ⟨x, Option.join_eq_some_iff.mp hreg⟩

theorem unregister_names (hs : Names T s) (origin : Origin AccountId) (username : List UInt8) :
    Wp (unregister T origin username) (fun _ => Names T) (fun _ => Names T) s := by
  unfold unregister
  refine wp_ensureSigned_bind (fun sender => ?_) hs
  refine wp_ofExcept_bind (fun _ _ => ?_) (fun _ _ => hs)
  rw [wp_bind, wp_get]
  split
  · next r hr =>
      split_ifs with hsender
      · -- the signer is the name's account, so its entry is the one removed
        subst hsender
        simp only [wp_bind, wp_modify]
        exact hs.erase hr
      · exact hs
  · exact hs

theorem killUsername_names (hs : Names T s) (origin : Origin AccountId) (username : List UInt8) :
    Wp (killUsername T origin username) (fun _ => Names T) (fun _ => Names T) s := by
  unfold killUsername
  refine wp_ensure_bind (fun _ => ?_) (fun _ => hs)
  refine wp_ofExcept_bind (fun _ _ => ?_) (fun _ _ => hs)
  rw [wp_bind, wp_get, wp_bind]
  cases hr : s.registrationOf.lookup username with
  | none => exact hs
  | some r =>
      simp only [wp_okOr_some, wp_bind, wp_modify]
      exact hs.erase hr

theorem provideJudgement_names (hs : Names T s) (origin : Origin AccountId)
    (regIndex : RegistrarIndex) (username : List UInt8) (judgement : Judgement) :
    Wp (provideJudgement T origin regIndex username judgement) (fun _ => Names T)
      (fun _ => Names T) s := by
  unfold provideJudgement
  refine wp_ensureSigned_bind (fun sender => ?_) hs
  refine wp_ofExcept_bind (fun _ _ => ?_) (fun _ _ => hs)
  rw [wp_bind, wp_get, wp_bind]
  cases hr : s.registrationOf.lookup username with
  | none => exact hs
  | some r =>
      rw [wp_okOr_some, wp_bind]
      cases hreg : (s.registrars[regIndex]?).join.bind
          (fun account => if account = sender then some account else none) with
      | none => exact hs
      | some x =>
          have hx : ∃ x, s.registrars[regIndex]? = some (some x) := by
            obtain ⟨a, ha, -⟩ := Option.bind_eq_some_iff.mp hreg
            exact ⟨a, Option.join_eq_some_iff.mp ha⟩
          simp only [wp_okOr_some, wp_modify]
          exact hs.judge hr hx judgement

theorem entry_preserves_names (e : Entry AccountId) : Preserves (Names T) (e.apply T) := by
  refine preserves_of_wp fun s hs => ?_
  cases e with
  | addRegistrar o account => exact addRegistrar_names T hs o account
  | register o username regIndex => exact register_names T hs o username regIndex
  | unregister o username => exact unregister_names T hs o username
  | killUsername o username => exact killUsername_names T hs o username
  | provideJudgement o regIndex username judgement =>
      exact provideJudgement_names T hs o regIndex username judgement

/-- The registry holds in every state reachable from the empty storage. -/
theorem names_of_reachable {s : State AccountId}
    (hs : Reachable (Entry.apply T) (· = State.empty) s) : Names T s :=
  hs.invariant (fun _ h => h ▸ names_empty) (entry_preserves_names T)

end Calls

/-! ## The test runtime

`mock.rs` allows two registrars and names of 3 to 10 characters. Its
`RegistrarOrigin` is root or the account 1, and its `ForceOrigin` root or the
account 2. -/

def usernamesConfig : Config ℕ where
  maxRegistrars := 2
  minUsernameLength := 3
  maxUsernameLength := 10
  forceOrigin o := decide (o = .root ∨ o = .signed 2)
  registrarOrigin o := decide (o = .root ∨ o = .signed 1)

/-- The registry after account 1 adds itself as registrar 0 and account 3
registers `abc` with it. -/
theorem names_after_register :
    Names usernamesConfig
      (after ((Entry.apply usernamesConfig (.register (.signed 3) [97, 98, 99] 0)).run
        (after ((Entry.apply usernamesConfig (.addRegistrar (.signed 1) 1)).run State.empty)))) := by
  have h0 : Reachable (Entry.apply usernamesConfig) (· = State.empty) State.empty :=
    Reachable.start rfl
  exact names_of_reachable usernamesConfig
    ((h0.step (.addRegistrar (.signed 1) 1) (Or.inl ⟨(), rfl⟩)).step
      (.register (.signed 3) [97, 98, 99] 0) (Or.inl ⟨(), rfl⟩))

end SocialNetwork.SocialUsernames
